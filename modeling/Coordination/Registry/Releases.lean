import Coordination.Namespace.Identifier
import Coordination.Registry.Basic
import Coordination.Text.Blank
import Coordination.Text.Numeral

/-!
# Releases and what runs of them

The image of a release, how many containers of an image are wanted, the containers that
run, the release that is live for a service, and dashboards. Containers are listed from the
children of the image's node; a child that does not read as a container is passed over.
-/

namespace Coordination.Registry

/-- Record the image of a release. -/
def setRelease (r : Registry) (release : Release) : Action Unit := r.store (.release release)

/-- The image of a release. -/
def getRelease (r : Registry) (id : ReleaseId) : Action Release := do
  let path ← r.path (.release ⟨id, ""⟩)
  let n ← Action.node path
  let image ← n.decode
  pure ⟨id, image⟩

/-- Touch the node that watchers of a release watch. -/
def touchRelease (r : Registry) (id : ReleaseId) : Action Unit := r.store (.releaseWatch id)

/-- Record how many containers of an image are wanted. -/
def setImageCount (r : Registry) (release : Release) (count : UInt32) : Action Unit :=
  r.store (.imageCount release count)

/-- The path of the directory of an image's containers. -/
def containerPath (r : Registry) (release : Release) : Action String :=
  r.path (.imageCount release 0)

/-- How many containers of an image are wanted. -/
def getImageCount (r : Registry) (release : Release) : Action Nat := do
  let path ← r.containerPath release
  let n ← Action.node path
  let text ← n.decode
  match Text.readNumeral? 4294967295 (Text.trim text.toList) with
  | some count => pure count
  | none => throw (.decode path (.count text))

/-- Record a running container. It must not be recorded yet. -/
def registerContainer (r : Registry) (c : Container) : Action Unit := do
  let (path, value) ← r.derive (.container c)
  let _ ← Action.createNew path value

/-- Forget a running container. -/
def unregisterContainer (r : Registry) (c : Container) : Action Unit := do
  let path ← r.path (.container c)
  let _ ← Action.node path
  Action.call (.delete path)

/-- A name and a port around the only colon of a text. -/
def parsePortPair? (s : String) : Option (String × UInt16) :=
  (parseHostPort? s).bind fun (name, port) =>
    (Text.readNumeral? 65535 port.toList).map fun n => (name, UInt16.ofNat n)

/-- The container that a child of an image's node stands for. -/
def readContainer? (release : Release) (n : Node) : Option Container :=
  (parsePortPair? n.name).bind fun (containerId, port) =>
    (parsePortPair? (Text.Utf8.decodeLenient n.value)).map fun (host, hostPort) =>
      ⟨release, containerId, port, host, hostPort⟩

/-- The running containers of an image. -/
def listContainers (r : Registry) (release : Release) : Action (List Container) := do
  let path ← r.containerPath release
  if ← Action.present path then
    let nodes ← Action.children path
    pure (nodes.filterMap (readContainer? release))
  else pure []

/-- The live pointer of a release. -/
def livePointer (r : Registry) (release : Release) : Action LivePointer := do
  let containers ← r.containerPath release
  let env ← r.path (.envRoot release.id)
  pure ⟨release.id.domain, release.id.service, containers, env⟩

/-- Make a release live for its service, and then touch the node that watchers of the
service watch. -/
def setLive (r : Registry) (p : LivePointer) : Action Unit := do
  r.store (.live p)
  r.store (.liveWatch p.domain p.service)

/-- What is live for a service, if the stored value reads as a live pointer. -/
def getLive (r : Registry) (domain service : String) : Action (Option LivePointer) := do
  let path ← r.path (.live ⟨domain, service, "", ""⟩)
  let n ← Action.node path
  let value ← n.decode
  pure ((parseLiveValue? value).map fun (containerPath, envPath) =>
    ⟨domain, service, containerPath, envPath⟩)

/-- Record a dashboard. -/
def registerDashboard (r : Registry) (d : Dashboard) : Action Unit := r.store (.dashboard d)

end Coordination.Registry
