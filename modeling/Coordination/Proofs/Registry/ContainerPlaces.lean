import Coordination.Proofs.Registry.PortPairs
import Coordination.Proofs.Registry.RegistrationHistory

/-!
# Places of containers

A container stands in the directory of its image, which also holds the count of the image. The
name of its node is its id and its port with a colon between them, and the value of the node is
its host and the port there, written in the same way. Where neither id nor host has a colon, all
of the container can be read off the node; where the parts of the path are names, containers
share a path only if they agree in all but the host and the port there.
-/

namespace Coordination

/-! ## Depths -/

namespace Path

/-- How many segments a path has. -/
def depth (p : String) : Nat := (segments p).length

/-- What lies below a path other than the root has more segments. -/
theorem Below.depth_lt {p q : String} (h : Below p q) (hp : p ≠ root) : depth p < depth q := by
  obtain ⟨rest, hrest, hne⟩ := Scope.segments_prefix_of_below hp h
  have hpos := List.length_pos_iff.2 hne
  rw [depth, depth, hrest, List.length_append]
  omega

/-- The root has two segments, both empty. -/
theorem depth_root : depth root = 2 := by decide

theorem depth_lt_of_below {p q : String} (h : Below p q) (hq : 2 < depth q) :
    depth p < depth q := by
  by_cases hp : p = root
  · rwa [hp, depth_root]
  · exact h.depth_lt hp

end Path

/-! ## Directories of images -/

namespace Release

/-- All that the path of the release's image is made of are names. -/
structure Proper (r : Release) : Prop where
  domain : Path.IsName r.id.domain
  service : Path.IsName r.id.service
  version : Path.IsName r.id.version
  image : Path.IsName r.image

instance (r : Release) : Decidable r.Proper :=
  decidable_of_iff (Path.IsName r.id.domain ∧ Path.IsName r.id.service ∧
    Path.IsName r.id.version ∧ Path.IsName r.image)
    ⟨fun h => ⟨h.1, h.2.1, h.2.2.1, h.2.2.2⟩, fun h => ⟨h.domain, h.service, h.version, h.image⟩⟩

/-- The path of the directory of the containers. -/
def directory (r : Release) : String := r.countEntry.standardPath

variable {r r' : Release}

theorem Proper.isName (h : r.Proper) : ∀ n ∈ r.countEntry.names, Path.IsName n := by
  have hword : Path.IsName "container" := by decide
  simp [countEntry, Entry.names, ReleaseId.names, h.domain, h.service, h.version, h.image, hword]

theorem Proper.isValid_directory (h : r.Proper) : Path.isValid r.directory = true :=
  Path.isValid_ofNames h.isName

theorem Proper.depth_directory (h : r.Proper) : Path.depth r.directory = 6 := by
  have hsegments : Path.segments r.directory = "" :: r.countEntry.names :=
    Path.segments_ofNames h.isName
  rw [Path.depth, hsegments]
  rfl

theorem directory_ne_root (r : Release) : r.directory ≠ Path.root := by
  intro h
  have hlength := congrArg (fun s : String => s.toList.length) h
  simp [directory, countEntry, Entry.standardPath, Entry.names, ReleaseId.names,
    Path.toList_ofNames, Path.toList_root] at hlength

theorem directory_inj (h : r.Proper) (h' : r'.Proper) :
    r.directory = r'.directory ↔ r = r' := by
  refine ⟨fun heq => ?_, congrArg directory⟩
  exact countNames_inj.1 ((Path.ofNames_inj h.isName h'.isName).1 heq)

end Release

/-! ## Nodes of containers -/

/-- Where a container is registered. -/
structure Slot where
  release : Release
  containerId : String
  port : UInt16
  deriving DecidableEq

namespace Container

/-- All that the path of the container is made of are names, and neither its id nor its host has
a colon. -/
structure Proper (c : Container) : Prop where
  release : c.release.Proper
  containerId : Path.IsName c.containerId
  plainId : ':' ∉ c.containerId.toList
  plainHost : ':' ∉ c.host.toList

instance (c : Container) : Decidable c.Proper :=
  decidable_of_iff (c.release.Proper ∧ Path.IsName c.containerId ∧
    ':' ∉ c.containerId.toList ∧ ':' ∉ c.host.toList)
    ⟨fun h => ⟨h.1, h.2.1, h.2.2.1, h.2.2.2⟩,
      fun h => ⟨h.release, h.containerId, h.plainId, h.plainHost⟩⟩

/-- Where the container is registered. -/
def slot (c : Container) : Slot := ⟨c.release, c.containerId, c.port⟩

/-- What is registered of the container: its host and the port there. -/
def address (c : Container) : String × UInt16 := (c.host, c.hostPort)

theorem eq_of_slot {c c' : Container} (hslot : c.slot = c'.slot)
    (haddress : c.address = c'.address) : c = c' := by
  obtain ⟨release, containerId, port, host, hostPort⟩ := c
  obtain ⟨hrelease, hid, hport⟩ := Slot.mk.inj hslot
  obtain ⟨hhost, hhostPort⟩ := Prod.mk.inj haddress
  simp only at hrelease hid hport hhost hhostPort
  rw [hrelease, hid, hport, hhost, hhostPort]

/-- The name of the container's node. -/
def name (c : Container) : String := Entry.portPair c.containerId c.port

/-- The path of the container's node. -/
def path (c : Container) : String := (Entry.container c).standardPath

/-- The value of the container's node. -/
def value (c : Container) : Bytes := Text.Utf8.encode (Entry.portPair c.host c.hostPort)

variable {c c' : Container}

theorem path_eq (c : Container) : c.path = c.release.directory ++ "/" ++ c.name :=
  Path.ofNames_concat c.release.countEntry.names c.name

theorem Proper.isName_name (h : c.Proper) : Path.IsName c.name :=
  Entry.isName_portPair c.port h.containerId

theorem Proper.isValid_path (h : c.Proper) : Path.isValid c.path = true := by
  rw [path_eq]
  exact Path.isValid_child h.release.isValid_directory c.release.directory_ne_root h.isName_name

theorem Proper.parent_path (h : c.Proper) : Path.parent? c.path = some c.release.directory := by
  rw [path_eq]
  exact Path.parent?_child h.release.isValid_directory c.release.directory_ne_root h.isName_name

theorem Proper.name_path (h : c.Proper) : Path.name c.path = c.name := by
  rw [path_eq]
  exact Path.name_child h.isName_name

theorem Proper.depth_path (h : c.Proper) : Path.depth c.path = 7 := by
  rw [Path.depth, path_eq, Path.segments_cut, List.length_append,
    Path.segments_of_no_slash h.isName_name.2, ← Path.depth, h.release.depth_directory]
  rfl

/-- A path belongs to one slot only. -/
theorem path_inj (h : c.Proper) (h' : c'.Proper) : c.path = c'.path ↔ c.slot = c'.slot := by
  constructor
  · intro heq
    have hdirectory : c.release.directory = c'.release.directory :=
      Option.some.inj (h.parent_path.symm.trans ((congrArg _ heq).trans h'.parent_path))
    have hname : c.name = c'.name := h.name_path.symm.trans ((congrArg _ heq).trans h'.name_path)
    have hpair := congrArg Registry.parsePortPair? hname
    rw [name, name, Registry.parsePortPair?_portPair h.plainId,
      Registry.parsePortPair?_portPair h'.plainId, Option.some.injEq, Prod.mk.injEq] at hpair
    rw [slot, slot, (Release.directory_inj h.release h'.release).1 hdirectory, hpair.1, hpair.2]
  · intro hslot
    obtain ⟨hrelease, hid, hport⟩ := Slot.mk.inj hslot
    rw [path_eq, path_eq, name, name, hrelease, hid, hport]

/-- The node of a container is read as the container. -/
theorem Proper.readContainer?_eq (h : c.Proper) {n : Node} (hpath : n.path = c.path)
    (hvalue : n.value = c.value) : Registry.readContainer? c.release n = some c := by
  have hname : n.name = c.name := (congrArg Path.name hpath).trans h.name_path
  rw [Registry.readContainer?, hname, hvalue, value, Text.Utf8.decodeLenient_encode, name,
    Registry.parsePortPair?_portPair h.plainId, Option.bind_some,
    Registry.parsePortPair?_portPair h.plainHost]
  rfl

end Container

/-! ## Listing -/

/-- Listing the containers of an image reads the nodes in its directory, and changes nothing. -/
theorem Registry.run_listContainers {t : Tree} (ht : t.Sound) {release : Release}
    (hp : Path.isValid release.directory = true) :
    t.run (standard.listContainers release).run =
      (.ok (((t.childPaths release.directory).filterMap t.node?).filterMap
        (readContainer? release)), t) := by
  have hlist : standard.listContainers release =
      (Action.present release.directory >>= fun there =>
        if there then Action.children release.directory >>= fun nodes =>
          pure (nodes.filterMap (readContainer? release))
        else pure []) := by
    rw [listContainers, containerPath, Entry.path_standard]
    rfl
  rw [hlist, Tree.run_bind_ok (Tree.run_present hp)]
  by_cases hhas : t.Has release.directory
  · rw [decide_eq_true hhas, if_pos rfl, Tree.run_map, Action.children, Tree.run_visit hp hhas,
      Tree.nodesBelow_false]
    rfl
  · -- a directory that is not there has nothing in it
    have hnone : t.childPaths release.directory = [] := by
      refine List.eq_nil_iff_forall_not_mem.2 fun c hc => hhas ?_
      obtain ⟨hhas, hparent⟩ := (Tree.mem_childPaths_iff ht hp).1 hc
      exact ht.parent hhas hparent
    rw [decide_eq_false hhas, hnone]
    rfl

end Coordination
