import Coordination.Proofs.Registry.ContainerPlaces

/-!
# Where listed containers are read from

Anyone may write children of an image's node. A listing takes those for containers whose name is
an id with a port and whose value is, with what is not UTF-8 replaced, a host with a port; all
others it passes over. Ports are read leniently, so what is listed is not always what registering
it would write: it is so exactly if the ports are plain in the node, and the value is UTF-8. Where
names have plain ports no slot is listed twice, and what is listed is found when it is
unregistered.
-/

namespace Coordination

namespace Registry

variable {t : Tree} {release : Release} {n : Node} {c : Container}

/-- A child of the image's node that reads as the container. -/
structure StandsFor (t : Tree) (release : Release) (n : Node) (c : Container) : Prop where
  node : t.node? n.path = some n
  child : Path.parent? n.path = some release.directory
  release : c.release = release
  name : IsPortPair n.name c.containerId c.port
  value : IsPortPair (Text.Utf8.decodeLenient n.value) c.host c.hostPort

theorem readContainer?_eq_some_iff : readContainer? release n = some c ↔
    c.release = release ∧ IsPortPair n.name c.containerId c.port ∧
      IsPortPair (Text.Utf8.decodeLenient n.value) c.host c.hostPort := by
  rw [← parsePortPair?_eq_some_iff, ← parsePortPair?_eq_some_iff]
  constructor
  · intro h
    obtain ⟨⟨containerId, port⟩, hname, hrest⟩ := Option.bind_eq_some_iff.1 h
    obtain ⟨⟨host, hostPort⟩, hvalue, rfl⟩ := Option.map_eq_some_iff.1 hrest
    exact ⟨rfl, hname, hvalue⟩
  · rintro ⟨rfl, hname, hvalue⟩
    rw [readContainer?, hname, Option.bind_some, hvalue]
    rfl

/-- The nodes that are read, with what is read of them. -/
def listings (t : Tree) (release : Release) : List (Node × Container) :=
  ((t.childPaths release.directory).filterMap t.node?).filterMap fun n =>
    (readContainer? release n).map (n, ·)

theorem map_snd_listings (t : Tree) (release : Release) :
    (listings t release).map Prod.snd =
      ((t.childPaths release.directory).filterMap t.node?).filterMap (readContainer? release) := by
  rw [listings, List.map_filterMap]
  refine List.filterMap_congr fun n _ => ?_
  cases readContainer? release n <;> rfl

theorem mem_listings_iff (ht : t.Sound) (hp : Path.isValid release.directory = true) :
    (n, c) ∈ listings t release ↔ StandsFor t release n c := by
  rw [listings, List.mem_filterMap]
  constructor
  · rintro ⟨n', hn', hread⟩
    obtain ⟨c', hc', heq⟩ := Option.map_eq_some_iff.1 hread
    cases heq
    obtain ⟨q, hq, hnode⟩ := List.mem_filterMap.1 hn'
    obtain rfl := Tree.path_of_node? hnode
    obtain ⟨hrelease, hname, hvalue⟩ := readContainer?_eq_some_iff.1 hc'
    exact ⟨hnode, ((Tree.mem_childPaths_iff ht hp).1 hq).2, hrelease, hname, hvalue⟩
  · intro h
    have hmem := (Tree.mem_childPaths_iff ht hp).2 ⟨Tree.has_of_node? h.node, h.child⟩
    refine ⟨n, List.mem_filterMap.2 ⟨n.path, hmem, h.node⟩, ?_⟩
    rw [readContainer?_eq_some_iff.2 ⟨h.release, h.name, h.value⟩]
    rfl

/-- The nodes are read in the order of their paths. -/
theorem pairwise_listings (ht : t.Sound) (hp : Path.isValid release.directory = true) :
    (listings t release).Pairwise fun x y => x.1.path < y.1.path := by
  refine List.pairwise_filterMap.2 (List.pairwise_filterMap.2 ?_)
  refine (Tree.pairwise_childPaths ht hp).imp ?_
  intro q q' hlt n hn n' hn' x hx y hy
  obtain ⟨_, -, rfl⟩ := Option.map_eq_some_iff.1 hx
  obtain ⟨_, -, rfl⟩ := Option.map_eq_some_iff.1 hy
  rw [Tree.path_of_node? hn, Tree.path_of_node? hn']
  exact hlt

namespace StandsFor

/-- The node's path is its directory and its name. -/
theorem path_eq (h : StandsFor t release n c) (ht : t.Sound) :
    Path.IsName n.name ∧ n.path = release.directory ++ "/" ++ n.name := by
  have hvalid := ht.valid (Tree.has_of_node? h.node)
  obtain ⟨-, name, hname, hpath⟩ := Path.exists_name_of_parent hvalid h.child
  rw [Path.childStart_of_ne release.directory_ne_root] at hpath
  have hsame : n.name = name := (congrArg Path.name hpath).trans (Path.name_child hname)
  exact hsame ▸ ⟨hname, hpath⟩

/-- The container's place is the node exactly if the port is plain in the node's name. -/
theorem path_eq_iff (h : StandsFor t release n c) (ht : t.Sound) :
    c.path = n.path ↔ HasPlainPort n.name := by
  rw [(h.path_eq ht).2, Container.path_eq, h.release, ← h.name.portPair_eq_iff]
  exact ⟨Path.append_left_cancel, congrArg _⟩

/-- The container's value is the node's exactly if that is a text with a plain port. -/
theorem value_eq_iff (h : StandsFor t release n c) :
    c.value = n.value ↔ ∃ text, n.value = Text.Utf8.encode text ∧ HasPlainPort text := by
  have hwritten := h.value.portPair_eq_iff
  constructor
  · intro hvalue
    rw [← hvalue, Container.value, Text.Utf8.decodeLenient_encode] at hwritten
    exact ⟨_, hvalue.symm, hwritten.1 rfl⟩
  · rintro ⟨text, hvalue, hplain⟩
    rw [hvalue, Text.Utf8.decodeLenient_encode] at hwritten
    rw [Container.value, hwritten.2 hplain, hvalue]

/-- The container has a place in the directory in any case. -/
theorem place (h : StandsFor t release n c) (ht : t.Sound) :
    Path.isValid c.path = true ∧ Path.parent? c.path = some release.directory := by
  have hvalid := ht.valid (Tree.has_of_node? h.node)
  have hdirectory := (Path.exists_name_of_parent hvalid h.child).1
  obtain ⟨numeral, hsplit, -⟩ := h.name
  have hslash : '/' ∉ c.containerId.toList := by
    have hname := (h.path_eq ht).1.2
    rw [hsplit, List.mem_append, not_or] at hname
    exact hname.1
  have hname := Entry.isName_portPair_of_no_slash c.port hslash
  rw [Container.path_eq, h.release]
  exact ⟨Path.isValid_child hdirectory release.directory_ne_root hname,
    Path.parent?_child hdirectory release.directory_ne_root hname⟩

/-- A node reads as one container only. -/
theorem unique {c' : Container} (h : StandsFor t release n c) (h' : StandsFor t release n c') :
    c = c' := by
  have hread := readContainer?_eq_some_iff.2 ⟨h.release, h.name, h.value⟩
  rw [readContainer?_eq_some_iff.2 ⟨h'.release, h'.name, h'.value⟩] at hread
  exact (Option.some.inj hread).symm

/-- Of the nodes with plain ports in their names, only one reads as a container of a slot. -/
theorem eq_of_slot {n' : Node} {c' : Container} (h : StandsFor t release n c)
    (h' : StandsFor t release n' c') (ht : t.Sound) (hplain : HasPlainPort n.name)
    (hplain' : HasPlainPort n'.name) (hslot : c.slot = c'.slot) : (n, c) = (n', c') := by
  have hpath : n.path = n'.path := by
    obtain ⟨hrelease, hid, hport⟩ := Slot.mk.inj hslot
    rw [← (h.path_eq_iff ht).2 hplain, ← (h'.path_eq_iff ht).2 hplain', Container.path_eq,
      Container.path_eq, Container.name, Container.name, hrelease, hid, hport]
  have hnode := h.node
  rw [hpath, h'.node, Option.some.injEq] at hnode
  subst hnode
  rw [h.unique h']

end StandsFor

/-! ## Finding what is listed -/

theorem unregisterContainer_eq (c : Container) : standard.unregisterContainer c =
    (Action.node c.path >>= fun _ => Action.call (.delete c.path)) := by
  rw [unregisterContainer, Entry.path_standard]
  rfl

/-- A container is not found exactly if there is no node in its place. -/
theorem unregister_notFound_iff (hp : Path.isValid c.path = true) :
    (t.run (standard.unregisterContainer c).run).1 = .error (.notFound c.path) ↔
      ¬ t.Has c.path := by
  rw [unregisterContainer_eq]
  by_cases hhas : t.Has c.path
  · obtain ⟨cell, hcell⟩ := Tree.has_iff_get?.1 hhas
    rw [Tree.run_bind_ok (Tree.run_node_of_get? hp hcell), Tree.run_call]
    refine iff_of_false ?_ (not_not_intro hhas)
    cases (t.respond (.delete c.path)).1 <;> simp [Except.mapError]
  · rw [Tree.run_bind_error (Tree.run_node_of_not_has hp hhas)]
    exact iff_of_true rfl hhas

/-- A container with nothing below its node is forgotten. -/
theorem run_unregister_of_leaf (hlocked : t.locked = none) (hp : Path.isValid c.path = true)
    (hhas : t.Has c.path) (hparent : Path.parent? c.path = some release.directory)
    (hleaf : t.childPaths c.path = []) :
    t.run (standard.unregisterContainer c).run =
      (.ok (), t.removed c.path release.directory) := by
  obtain ⟨cell, hcell⟩ := Tree.has_iff_get?.1 hhas
  rw [unregisterContainer_eq, Tree.run_bind_ok (Tree.run_node_of_get? hp hcell)]
  exact Tree.run_call_delete hlocked hp hhas hparent hleaf

/-- What is known of a container that was listed and of the node that it was read from. -/
structure ReadFrom (s : Service) (n : Node) (c : Container) : Prop where
  derived : TemplateSet.standard.derive (.container c) =
    .ok (c.path, Entry.portPair c.host c.hostPort)
  path : c.path = n.path ↔ HasPlainPort n.name
  value : Text.Utf8.encode (Entry.portPair c.host c.hostPort) = n.value ↔
    ∃ text, n.value = Text.Utf8.encode text ∧ HasPlainPort text
  found : (s.run (standard.unregisterContainer c).run).1 = .error (.notFound c.path) ↔
    ¬ s.tree.Has c.path
  there : HasPlainPort n.name → s.tree.Has c.path
  forgotten : HasPlainPort n.name → s.tree.locked = none → s.tree.childPaths n.path = [] →
    (s.run (standard.unregisterContainer c).run).1 = .ok () ∧
      ¬ (s.run (standard.unregisterContainer c).run).2.tree.Has n.path

theorem StandsFor.readFrom {s : Service} (h : StandsFor s.tree release n c) (hs : s.faults = [])
    (ht : s.tree.Sound) : ReadFrom s n c := by
  obtain ⟨hvalid, hparent⟩ := h.place ht
  obtain ⟨hreply, htree, -⟩ :=
    Service.run_of_faults_eq_nil (standard.unregisterContainer c).run hs
  have hthere (hplain : HasPlainPort n.name) : s.tree.Has c.path := by
    rw [(h.path_eq_iff ht).2 hplain]
    exact Tree.has_of_node? h.node
  refine ⟨Entry.derive_standard (.container c), h.path_eq_iff ht, h.value_eq_iff, ?_, hthere, ?_⟩
  · rw [hreply]
    exact unregister_notFound_iff hvalid
  · intro hplain hlocked hleaf
    have hhas := hthere hplain
    rw [← (h.path_eq_iff ht).2 hplain] at hleaf ⊢
    rw [hreply, htree, run_unregister_of_leaf hlocked hvalid hhas hparent hleaf]
    exact ⟨rfl, fun hstill => (Tree.has_removed.1 hstill).1 rfl⟩

/-- Whatever is in the tree, listing the containers of an image succeeds and lists what is read
of the children of the image's node, in the order of their paths: those that read as a container,
and no others. A listed container is derived to the path of its node exactly if the port in the
node's name is plain, and to the node's value exactly if that is a text with a plain port. Among
nodes with plain ports in their names no slot is listed twice. Unregistering a listed container
finds the node in its place if there is one, as there is where the port is plain, and removes it
if nothing is below it. -/
theorem listed_containers_read_back {s : Service} (hs : s.faults = [])
    (hreachable : s.tree.Reachable) (hp : Path.isValid release.directory = true) :
    ∃ listed : List (Node × Container),
      (s.run (standard.listContainers release).run).1 = .ok (listed.map Prod.snd) ∧
      (listed.Pairwise fun x y => x.1.path < y.1.path) ∧
      (∀ n c, (n, c) ∈ listed ↔ StandsFor s.tree release n c) ∧
      (∀ x ∈ listed, ReadFrom s x.1 x.2) ∧
      ∀ x ∈ listed, ∀ y ∈ listed, HasPlainPort x.1.name → HasPlainPort y.1.name →
        x.2.slot = y.2.slot → x = y := by
  have ht := hreachable.sound
  have hmem (n : Node) (c : Container) : (n, c) ∈ listings s.tree release ↔
      StandsFor s.tree release n c := mem_listings_iff ht hp
  refine ⟨listings s.tree release, ?_, pairwise_listings ht hp, hmem, fun x hx => ?_,
    fun x hx y hy hplain hplain' hslot => ?_⟩
  · rw [(Service.run_of_faults_eq_nil _ hs).1, run_listContainers ht hp, map_snd_listings]
  · exact ((hmem x.1 x.2).1 hx).readFrom hs ht
  · exact ((hmem x.1 x.2).1 hx).eq_of_slot ((hmem y.1 y.2).1 hy) ht hplain hplain' hslot

end Registry

namespace PaddedPort

open Registry

/-- A release with an image. -/
def release : Release := ⟨⟨"d", "s", "v"⟩, "i"⟩

/-- A container of the image. -/
def container : Container := ⟨release, "c", 80, "h", 8080⟩

/-- Someone has written two children of the image's node. -/
def service : Service :=
  ((Service.fresh.answer (.create "/d/s/v/container/i/c:080" (Text.Utf8.encode "h:8080"))).2.answer
    (.create "/d/s/v/container/i/c:+80" (Text.Utf8.encode "h:8080"))).2

theorem reachable : service.tree.Reachable :=
  .call (.create "/d/s/v/container/i/c:+80" (Text.Utf8.encode "h:8080"))
    (.call (.create "/d/s/v/container/i/c:080" (Text.Utf8.encode "h:8080")) .empty)

/-- The container is listed for both of them, though its place is neither, and it is not found. -/
theorem listed_twice_and_not_found :
    service.tree.Reachable ∧ Path.isValid release.directory = true ∧
      (service.run (standard.listContainers release).run).1 = .ok [container, container] ∧
      TemplateSet.standard.derive (.container container) =
        .ok ("/d/s/v/container/i/c:80", "h:8080") ∧
      ¬ service.tree.Has "/d/s/v/container/i/c:80" ∧
      (service.run (standard.unregisterContainer container).run).1 =
        .error (.notFound "/d/s/v/container/i/c:80") := by
  have hpath : container.path = "/d/s/v/container/i/c:80" := by decide
  obtain ⟨hlisted, hmissing⟩ :
      (service.run (standard.listContainers release).run).1.toOption =
        some [container, container] ∧
      ¬ service.tree.Has "/d/s/v/container/i/c:80" := by decide +kernel
  refine ⟨reachable, by decide, eq_ok_of_toOption hlisted, rfl, hmissing, ?_⟩
  rw [(Service.run_of_faults_eq_nil _ rfl).1, ← hpath,
    unregister_notFound_iff (by decide), hpath]
  exact hmissing

end PaddedPort

namespace MixedChildren

open Registry

/-- A registered container, and children that someone else wrote: one with a padded port, and one
that does not read as a container. -/
def service : Service :=
  (((Service.fresh.run (standard.registerContainer PaddedPort.container).run).2.answer
    (.create "/d/s/v/container/i/b:080" (Text.Utf8.encode "h:8080"))).2.answer
    (.create "/d/s/v/container/i/notes" [255])).2

/-- The node of the registered container. -/
def registered : Node := ⟨"/d/s/v/container/i/c:80", Text.Utf8.encode "h:8080", 0, 0, 0⟩

/-- The child with the padded port, and what it reads as. -/
def padded : Node := ⟨"/d/s/v/container/i/b:080", Text.Utf8.encode "h:8080", 0, 0, 0⟩

def stray : Container := ⟨PaddedPort.release, "b", 80, "h", 8080⟩

/-- Both are listed. The registered one is unregistered then, and the other is not found. -/
theorem only_registered_found :
    ∃ listed : List (Node × Container),
      (service.run (standard.listContainers PaddedPort.release).run).1 =
        .ok (listed.map Prod.snd) ∧
      (registered, PaddedPort.container) ∈ listed ∧ (padded, stray) ∈ listed ∧
      (service.run (standard.unregisterContainer PaddedPort.container).run).1 = .ok () ∧
      stray.path ≠ padded.path ∧
      (service.run (standard.unregisterContainer stray).run).1 =
        .error (.notFound stray.path) := by
  have hreachable : service.tree.Reachable :=
    .call (.create "/d/s/v/container/i/notes" [255])
      (.call (.create "/d/s/v/container/i/b:080" (Text.Utf8.encode "h:8080"))
        (Service.reachable_run _ .empty))
  have hs : service.faults = [] := rfl
  have hp : Path.isValid PaddedPort.release.directory = true := by decide
  obtain ⟨listed, hreply, -, hmem, hread, -⟩ := listed_containers_read_back hs hreachable hp
  -- one evaluation of the service shows all that is needed of its tree
  obtain ⟨hnode, hnode', hlocked, hleaf, hmissing⟩ :
      service.tree.node? registered.path = some registered ∧
        service.tree.node? padded.path = some padded ∧ service.tree.locked = none ∧
        service.tree.childPaths registered.path = [] ∧ ¬ service.tree.Has stray.path := by
    decide +kernel
  have hvalue : IsPortPair (Text.Utf8.decodeLenient (Text.Utf8.encode "h:8080")) "h" 8080 :=
    parsePortPair?_eq_some_iff.1 (by decide +kernel)
  have hregistered : (registered, PaddedPort.container) ∈ listed := (hmem _ _).2
    ⟨hnode, by decide, rfl, parsePortPair?_eq_some_iff.1 (by decide), hvalue⟩
  have hpadded : (padded, stray) ∈ listed := (hmem _ _).2
    ⟨hnode', by decide, rfl, parsePortPair?_eq_some_iff.1 (by decide), hvalue⟩
  refine ⟨listed, hreply, hregistered, hpadded, ?_, ?_, ?_⟩
  · exact ((hread _ hregistered).forgotten (by decide) hlocked hleaf).1
  · exact fun heq => absurd ((hread _ hpadded).path.1 heq) (by decide)
  · exact (hread _ hpadded).found.2 hmissing

end MixedChildren

end Coordination
