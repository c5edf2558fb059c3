import Coordination.Proofs.Registry.ContainerPlaces

/-!
# The roster of containers

What clients may take the nodes of containers for: a roster that has in each slot at most one
container, with its host. Registering fills a slot that is free, unregistering frees one that is
not, and listing an image tells all slots of the image. Counts do not matter, though the node of a
count is the directory of the containers.
-/

namespace Coordination

/-- The host and the port there for every slot where a container is registered. -/
abbrev Roster := Slot → Option (String × UInt16)

namespace Roster

/-- No container is registered. -/
def empty : Roster := fun _ => none

/-- The container is registered as it is. -/
def Lists (m : Roster) (c : Container) : Prop := m c.slot = some c.address

instance (m : Roster) (c : Container) : Decidable (m.Lists c) :=
  inferInstanceAs (Decidable (_ = _))

/-- The roster with another entry in a slot. -/
def put (m : Roster) (slot : Slot) (entry : Option (String × UInt16)) : Roster :=
  fun slot' => if slot' = slot then entry else m slot'

/-- The roster after an operation. -/
def serve (m : Roster) : RegistryStep → Roster
  | .registerContainer c => if m c.slot = none then m.put c.slot (some c.address) else m
  | .unregisterContainer c => m.put c.slot none
  | _ => m

/-- The roster after operations. -/
def after (m : Roster) : List RegistryStep → Roster
  | [] => m
  | op :: rest => (m.serve op).after rest

variable {m : Roster} {c c' : Container}

/-- A slot that is not free has a container. -/
theorem exists_lists (h : m c.slot ≠ none) : ∃ c', c'.slot = c.slot ∧ m.Lists c' := by
  obtain ⟨⟨host, hostPort⟩, haddress⟩ := Option.ne_none_iff_exists'.1 h
  exact ⟨⟨c.release, c.containerId, c.port, host, hostPort⟩, rfl, haddress⟩

theorem put_of_eq {slot : Slot} {entry : Option (String × UInt16)} (h : m slot = entry) :
    m.put slot entry = m := by
  funext slot'
  rw [put]
  split
  · rename_i hslot
    rw [hslot, h]
  · rfl

theorem lists_put_some : (m.put c.slot (some c.address)).Lists c' ↔
    c' = c ∨ c'.slot ≠ c.slot ∧ m.Lists c' := by
  rw [Lists, put]
  by_cases hslot : c'.slot = c.slot
  · rw [if_pos hslot, Option.some.injEq]
    constructor
    · exact fun haddress => Or.inl (Container.eq_of_slot hslot haddress.symm)
    · rintro (rfl | ⟨hne, -⟩)
      · rfl
      · exact absurd hslot hne
  · rw [if_neg hslot]
    constructor
    · exact fun h => Or.inr ⟨hslot, h⟩
    · rintro (rfl | ⟨-, h⟩)
      · exact absurd rfl hslot
      · exact h

theorem lists_put_none {slot : Slot} :
    (m.put slot none).Lists c' ↔ c'.slot ≠ slot ∧ m.Lists c' := by
  rw [Lists, put]
  by_cases hslot : c'.slot = slot <;> simp [hslot, Lists]

end Roster

/-- An operation on proper containers of proper releases. -/
def RegistryStep.OnContainers : RegistryStep → Prop
  | .registerContainer c | .unregisterContainer c => c.Proper
  | .setImageCount release _ | .listContainers release => release.Proper
  | _ => False

instance (op : RegistryStep) : Decidable op.OnContainers := by
  cases op <;> unfold RegistryStep.OnContainers <;> infer_instance

/-! ## Trees that enroll a roster -/

namespace Tree

/-- From the depth of containers on, the tree has exactly the nodes of the containers of the
roster: there are seven segments in the path of a container. -/
structure Enrolls (t : Tree) (m : Roster) : Prop where
  sound : t.Sound
  unlocked : t.locked = none
  stored : ∀ c, m.Lists c → c.Proper ∧ t.value? c.path = some c.value
  only : ∀ p, t.Has p → 7 ≤ Path.depth p → ∃ c, m.Lists c ∧ c.path = p

theorem enrolls_empty : empty.Enrolls .empty where
  sound := sound_empty
  unlocked := rfl
  stored _ h := nomatch h
  only p hp hdepth := by
    obtain ⟨c, hc⟩ := has_iff_get?.1 hp
    rw [(cell_of_empty hc).1] at hdepth
    exact absurd hdepth (by decide)

namespace Enrolls

variable {t : Tree} {m : Roster} {c : Container} {release : Release}

/-! ### Slots and nodes -/

theorem has_of_lists (h : t.Enrolls m) (hc : m.Lists c) : t.Has c.path :=
  has_iff_value?.2 ⟨_, (h.stored c hc).2⟩

/-- There is a node where a container stands if its slot is not free: perhaps the node of another
container, on another host, but one in this slot. -/
theorem has_path_iff (h : t.Enrolls m) (hc : c.Proper) : t.Has c.path ↔ m c.slot ≠ none := by
  constructor
  · intro hhas
    obtain ⟨c', hc', hpath⟩ := h.only c.path hhas (Nat.le_of_eq hc.depth_path.symm)
    have hslot := (Container.path_inj (h.stored c' hc').1 hc).1 hpath
    rw [← hslot, hc']
    exact Option.some_ne_none _
  · intro hslot
    obtain ⟨c', heq, hc'⟩ := Roster.exists_lists hslot
    rw [← (Container.path_inj (h.stored c' hc').1 hc).2 heq]
    exact h.has_of_lists hc'

theorem not_has_path (h : t.Enrolls m) (hc : c.Proper) (hfree : m c.slot = none) :
    ¬ t.Has c.path := fun hhas => (h.has_path_iff hc).1 hhas hfree

/-- Nothing is below a container. -/
theorem childPaths_path (h : t.Enrolls m) (hc : c.Proper) : t.childPaths c.path = [] := by
  rw [h.sound.childless_iff hc.isValid_path]
  intro q hq hbelow
  have hdepth := hbelow.depth_lt (Path.ne_root_of_parent hc.parent_path)
  rw [hc.depth_path] at hdepth
  obtain ⟨c', hc', rfl⟩ := h.only q hq (Nat.le_of_lt hdepth)
  rw [(h.stored c' hc').1.depth_path] at hdepth
  exact Nat.lt_irrefl _ hdepth

/-! ### Writes -/

/-- A creation adds nothing at the depth of containers but the node that it is about. -/
theorem deep_of_created (h : t.Enrolls m) {p q : String} {v : Bytes}
    (hp : Path.isValid p = true) (hlow : 2 < Path.depth p) (hhigh : Path.depth p ≤ 7)
    (hq : (t.created p v).Has q) (hdepth : 7 ≤ Path.depth q) : q = p ∨ t.Has q := by
  rcases new_of_created h.sound hp hq with hhas | rfl | hbelow
  · exact Or.inr hhas
  · exact Or.inl rfl
  · have hlt := Path.depth_lt_of_below hbelow hlow
    omega

/-- A creation leaves the containers as they are that are there. -/
theorem stored_created (h : t.Enrolls m) {p : String} {v : Bytes} (hp : Path.isValid p = true)
    (hmissing : ¬ t.Has p) (hc : m.Lists c) :
    c.Proper ∧ (t.created p v).value? c.path = some c.value := by
  obtain ⟨hproper, hvalue⟩ := h.stored c hc
  exact ⟨hproper,
    (value?_created_of_has h.sound hp hmissing v (h.has_of_lists hc)).trans hvalue⟩

theorem created (h : t.Enrolls m) (hc : c.Proper) (hfree : m c.slot = none) :
    (t.created c.path c.value).Enrolls (m.put c.slot (some c.address)) := by
  have hp := hc.isValid_path
  refine ⟨sound_created h.sound hp _, (locked_created t _ _).trans h.unlocked,
    fun c' hc' => ?_, fun p hp' hdepth => ?_⟩
  · rcases Roster.lists_put_some.1 hc' with rfl | ⟨-, hold⟩
    · exact ⟨hc, by rw [value?_created h.sound hp, if_pos rfl]⟩
    · exact h.stored_created hp (h.not_has_path hc hfree) hold
  · have hdeep := hc.depth_path
    rcases h.deep_of_created hp (by omega) (by omega) hp' hdepth with rfl | hhas
    · exact ⟨c, Roster.lists_put_some.2 (Or.inl rfl), rfl⟩
    · obtain ⟨c', hc', rfl⟩ := h.only p hhas hdepth
      refine ⟨c', Roster.lists_put_some.2 (Or.inr ⟨fun hslot => ?_, hc'⟩), rfl⟩
      rw [Roster.Lists, hslot, hfree] at hc'
      cases hc'

theorem removed (h : t.Enrolls m) (hc : c.Proper) (hhas : t.Has c.path) :
    (t.removed c.path c.release.directory).Enrolls (m.put c.slot none) := by
  refine ⟨sound_removed h.sound hhas hc.parent_path (h.childPaths_path hc), h.unlocked,
    fun c' hc' => ?_, fun p hp hdepth => ?_⟩
  · obtain ⟨hslot, hold⟩ := Roster.lists_put_none.1 hc'
    obtain ⟨hproper, hvalue⟩ := h.stored c' hold
    have hpath : c'.path ≠ c.path := mt (Container.path_inj hproper hc).1 hslot
    exact ⟨hproper, by rw [value?_removed, if_neg hpath, hvalue]⟩
  · obtain ⟨hne, hold⟩ := has_removed.1 hp
    obtain ⟨c', hc', rfl⟩ := h.only p hold hdepth
    have hslot : c'.slot ≠ c.slot :=
      mt (Container.path_inj (h.stored c' hc').1 hc).2 hne
    exact ⟨c', Roster.lists_put_none.2 ⟨hslot, hc'⟩, rfl⟩

/-- The directory of an image may be created. -/
theorem created_directory (h : t.Enrolls m) (hr : release.Proper)
    (hmissing : ¬ t.Has release.directory) (v : Bytes) :
    (t.created release.directory v).Enrolls m := by
  have hp := hr.isValid_directory
  refine ⟨sound_created h.sound hp _, (locked_created t _ _).trans h.unlocked,
    fun c hc => h.stored_created hp hmissing hc, fun p hp' hdepth => ?_⟩
  have hdeep := hr.depth_directory
  rcases h.deep_of_created hp (by omega) (by omega) hp' hdepth with rfl | hhas
  · omega
  · exact h.only p hhas hdepth

/-- The value of the directory of an image does not matter. -/
theorem written_directory (h : t.Enrolls m) (hr : release.Proper) {cell : Cell}
    (hcell : t.cells.get? release.directory = some cell) (v : Bytes) :
    (t.written release.directory cell v).Enrolls m := by
  refine ⟨sound_written h.sound hcell v, h.unlocked, fun c hc => ?_, fun p hp hdepth =>
    h.only p ((has_written hcell).1 hp) hdepth⟩
  obtain ⟨hproper, hvalue⟩ := h.stored c hc
  have hne : c.path ≠ release.directory := by
    intro heq
    have hdepth := hproper.depth_path
    rw [heq, hr.depth_directory] at hdepth
    cases hdepth
  exact ⟨hproper, by rw [value?_written, if_neg hne, hvalue]⟩

/-! ### Operations -/

theorem run_registerContainer (h : t.Enrolls m) (hc : c.Proper) :
    ∃ t', t.run ((RegistryStep.registerContainer c).action .standard).run =
        (if m c.slot = none then .ok .done else .error (.conflict c.path .exists), t') ∧
      t'.Enrolls (m.serve (.registerContainer c)) := by
  have hregister : Registry.standard.registerContainer c =
      (Action.createNew c.path c.value >>= fun _ => pure ()) := by
    rw [Registry.registerContainer, Registry.derive_eq, Entry.cell_standard]
    rfl
  have haction : (RegistryStep.registerContainer c).action .standard =
      (Action.createNew c.path c.value >>= fun _ => pure .done) := by
    show (Registry.standard.registerContainer c >>= fun _ => pure Answer.done) = _
    rw [hregister, bind_assoc]
    rfl
  rw [haction, Roster.serve]
  by_cases hfree : m c.slot = none
  · obtain ⟨n, hcreate⟩ := run_createNew_of_not_has h.unlocked hc.isValid_path
      (h.not_has_path hc hfree) c.value
    rw [if_pos hfree, if_pos hfree, run_bind_ok hcreate]
    exact ⟨_, rfl, h.created hc hfree⟩
  · have hhas := (h.has_path_iff hc).2 hfree
    rw [if_neg hfree, if_neg hfree,
      run_bind_error (run_createNew_of_has h.unlocked hc.isValid_path hhas c.value)]
    exact ⟨_, rfl, h⟩

theorem run_unregisterContainer (h : t.Enrolls m) (hc : c.Proper) :
    ∃ t', t.run ((RegistryStep.unregisterContainer c).action .standard).run =
        (if m c.slot = none then .error (.notFound c.path) else .ok .done, t') ∧
      t'.Enrolls (m.serve (.unregisterContainer c)) := by
  have haction : (RegistryStep.unregisterContainer c).action .standard =
      (Action.node c.path >>= fun _ => Action.call (.delete c.path) >>= fun _ =>
        pure .done) := by
    show (Registry.standard.unregisterContainer c >>= fun _ => pure Answer.done) = _
    rw [Registry.unregisterContainer, Entry.path_standard, pure_bind, bind_assoc]
    rfl
  rw [haction, Roster.serve]
  by_cases hfree : m c.slot = none
  · have hmissing := h.not_has_path hc hfree
    -- freeing a slot that is free changes nothing
    rw [if_pos hfree, run_bind_error (run_node_of_not_has hc.isValid_path hmissing),
      Roster.put_of_eq hfree]
    exact ⟨_, rfl, h⟩
  · have hhas := (h.has_path_iff hc).2 hfree
    obtain ⟨cell, hcell⟩ := has_iff_get?.1 hhas
    rw [if_neg hfree, run_bind_ok (run_node_of_get? hc.isValid_path hcell),
      run_bind_ok (run_call_delete h.unlocked hc.isValid_path hhas hc.parent_path
        (h.childPaths_path hc))]
    exact ⟨_, rfl, h.removed hc hhas⟩

theorem run_setImageCount (h : t.Enrolls m) (hr : release.Proper) (count : UInt32) :
    ∃ t', t.run ((RegistryStep.setImageCount release count).action .standard).run =
        (.ok .done, t') ∧ t'.Enrolls m := by
  have hp := hr.isValid_directory
  have haction : (RegistryStep.setImageCount release count).action .standard =
      (Action.put release.directory (Text.Utf8.encode (toString count.toNat)) >>= fun _ =>
        pure .done) :=
    congrArg (· >>= fun _ => pure Answer.done)
      (Registry.store_eq (Entry.cell_standard (.imageCount release count)))
  rw [haction]
  by_cases hhas : t.Has release.directory
  · obtain ⟨cell, hcell⟩ := has_iff_get?.1 hhas
    rw [run_bind_ok (run_put_of_get? h.unlocked hp hcell _)]
    exact ⟨_, rfl, h.written_directory hr hcell _⟩
  · rw [run_bind_ok (run_put_of_not_has h.unlocked hp hhas _)]
    exact ⟨_, rfl, h.created_directory hr hhas _⟩

/-! ### Listing -/

/-- The container that the node at a path stands for. -/
def containerAt (t : Tree) (release : Release) (p : String) : Option Container :=
  (t.node? p).bind (Registry.readContainer? release)

theorem containerAt_of_lists (h : t.Enrolls m) (hc : m.Lists c) :
    containerAt t c.release c.path = some c := by
  obtain ⟨hproper, hvalue⟩ := h.stored c hc
  obtain ⟨cell, hcell, hbytes⟩ := Option.map_eq_some_iff.1 hvalue
  rw [containerAt, node?, hcell, Option.map_some, Option.bind_some]
  exact hproper.readContainer?_eq rfl hbytes

/-- What is in the directory of an image are the containers of the image. -/
theorem mem_childPaths_directory_iff (h : t.Enrolls m) (hr : release.Proper) {p : String} :
    p ∈ t.childPaths release.directory ↔
      ∃ c, m.Lists c ∧ c.release = release ∧ c.path = p := by
  rw [mem_childPaths_iff h.sound hr.isValid_directory]
  constructor
  · rintro ⟨hhas, hparent⟩
    have hdepth := (Path.below_of_parent (h.sound.valid hhas) hparent).depth_lt
      release.directory_ne_root
    rw [hr.depth_directory] at hdepth
    obtain ⟨c, hc, rfl⟩ := h.only p hhas hdepth
    have hproper := (h.stored c hc).1
    have hdirectory := Option.some.inj (hproper.parent_path.symm.trans hparent)
    exact ⟨c, hc, (Release.directory_inj hproper.release hr).1 hdirectory, rfl⟩
  · rintro ⟨c, hc, rfl, rfl⟩
    exact ⟨h.has_of_lists hc, (h.stored c hc).1.parent_path⟩

/-- The nodes in the directory of an image are read as the containers of the image, in the order
of their names. -/
theorem listed (h : t.Enrolls m) (hr : release.Proper) :
    ((t.childPaths release.directory).filterMap (containerAt t release)).Pairwise
        (fun c c' => c.name < c'.name) ∧
      ∀ c, c ∈ (t.childPaths release.directory).filterMap (containerAt t release) ↔
        m.Lists c ∧ c.release = release := by
  have hread : ∀ p ∈ t.childPaths release.directory, ∀ c, containerAt t release p = some c →
      m.Lists c ∧ c.release = release ∧ c.path = p := by
    -- what is read at the path of a container is the container, so paths and containers match
    intro p hp c hc
    obtain ⟨c', hlists, rfl, rfl⟩ := (h.mem_childPaths_directory_iff hr).1 hp
    rw [h.containerAt_of_lists hlists, Option.some.injEq] at hc
    exact hc ▸ ⟨hlists, rfl, rfl⟩
  constructor
  · refine List.pairwise_filterMap.2 ?_
    refine (pairwise_childPaths h.sound hr.isValid_directory).imp_of_mem ?_
    intro p p' hp hp' hlt c hc c' hc'
    obtain ⟨-, hrelease, rfl⟩ := hread p hp c hc
    obtain ⟨-, hrelease', rfl⟩ := hread p' hp' c' hc'
    -- behind one directory the order of paths is that of names
    rw [Container.path_eq, Container.path_eq, hrelease, hrelease'] at hlt
    exact Path.lt_of_append_lt_append hlt
  · intro c
    rw [List.mem_filterMap]
    constructor
    · rintro ⟨p, hp, hc⟩
      obtain ⟨hlists, hrelease, -⟩ := hread p hp c hc
      exact ⟨hlists, hrelease⟩
    · rintro ⟨hlists, rfl⟩
      exact ⟨c.path, (h.mem_childPaths_directory_iff hr).2 ⟨c, hlists, rfl, rfl⟩,
        h.containerAt_of_lists hlists⟩

theorem run_listContainers (h : t.Enrolls m) (hr : release.Proper) :
    ∃ cs, t.run ((RegistryStep.listContainers release).action .standard).run =
        (.ok (.containers cs), t) ∧
      cs.Pairwise (fun c c' => c.name < c'.name) ∧
      ∀ c, c ∈ cs ↔ m.Lists c ∧ c.release = release := by
  have hrun : t.run ((RegistryStep.listContainers release).action .standard).run = _ :=
    run_map (Registry.standard.listContainers release) Answer.containers
  refine ⟨_, ?_, h.listed hr⟩
  rw [hrun, Registry.run_listContainers h.sound hr.isValid_directory, List.filterMap_filterMap]
  rfl

/-- An operation leads to a tree that enrolls the roster after it. -/
theorem serve (h : t.Enrolls m) {op : RegistryStep} (hop : op.OnContainers) :
    (t.run (op.action .standard).run).2.Enrolls (m.serve op) := by
  cases op with
  | registerContainer c =>
    obtain ⟨t', hrun, h'⟩ := h.run_registerContainer hop
    rw [hrun]
    exact h'
  | unregisterContainer c =>
    obtain ⟨t', hrun, h'⟩ := h.run_unregisterContainer hop
    rw [hrun]
    exact h'
  | setImageCount release count =>
    obtain ⟨t', hrun, h'⟩ := h.run_setImageCount hop count
    rw [hrun]
    exact h'
  | listContainers release =>
    obtain ⟨cs, hrun, -⟩ := h.run_listContainers hop
    rw [hrun]
    exact h
  | _ => exact hop.elim

end Enrolls

end Tree

/-! ## Runs -/

namespace RegistryStep

variable {s : Service} {m : Roster} {steps : List RegistryStep}

/-- Operations lead to a tree that enrolls the roster after them. -/
theorem enrolls_serveAll (hs : s.faults = []) (h : s.tree.Enrolls m)
    (hsteps : ∀ op ∈ steps, op.OnContainers) :
    (serveAll s steps).faults = [] ∧ (serveAll s steps).tree.Enrolls (m.after steps) := by
  induction steps generalizing s m with
  | nil => exact ⟨hs, h⟩
  | cons op rest ih =>
    obtain ⟨hop, hrest⟩ := List.forall_mem_cons.1 hsteps
    obtain ⟨-, htree, hfaults⟩ := Service.run_of_faults_eq_nil (op.action .standard).run hs
    have hserve : (serve s op).2.tree.Enrolls (m.serve op) := by
      rw [serve, htree]
      exact h.serve hop
    exact ih hfaults hserve hrest

/-- After any operations on containers, and from the start where nothing is registered,
registering a container is refused exactly if its slot is taken, and unregistering one exactly if
its slot is free. Listing an image tells, with all fields, the registered containers of the image
and no others, each once, in the order of the bytes of their names. -/
theorem containers_listed_exactly (hsteps : ∀ op ∈ steps, op.OnContainers) :
    let s := serveAll .fresh steps
    let m := Roster.empty.after steps
    (∀ c : Container, c.Proper →
      (serve s (.registerContainer c)).1 =
        (if m c.slot = none then .ok .done else .error (.conflict c.path .exists)) ∧
      (serve s (.unregisterContainer c)).1 =
        if m c.slot = none then .error (.notFound c.path) else .ok .done) ∧
    ∀ release : Release, release.Proper → ∃ cs,
      (serve s (.listContainers release)).1 = .ok (.containers cs) ∧
      cs.Pairwise (fun c c' => Text.Utf8.encode c.name < Text.Utf8.encode c'.name) ∧
      ∀ c, c ∈ cs ↔ m.Lists c ∧ c.release = release := by
  intro s m
  obtain ⟨hfaults, h⟩ : s.faults = [] ∧ s.tree.Enrolls m :=
    enrolls_serveAll rfl Tree.enrolls_empty hsteps
  have hreply (op : RegistryStep) : (serve s op).1 = (s.tree.run (op.action .standard).run).1 :=
    (Service.run_of_faults_eq_nil _ hfaults).1
  refine ⟨fun c hc => ⟨?_, ?_⟩, fun release hr => ?_⟩
  · obtain ⟨t', hrun, -⟩ := h.run_registerContainer hc
    rw [hreply, hrun]
  · obtain ⟨t', hrun, -⟩ := h.run_unregisterContainer hc
    rw [hreply, hrun]
  · obtain ⟨cs, hrun, hordered, hmem⟩ := h.run_listContainers hr
    refine ⟨cs, ?_, hordered.imp Text.Utf8.encode_lt_encode, hmem⟩
    rw [hreply, hrun]

end RegistryStep

namespace TwoImages

/-- A container of one image. -/
def container : Container := ⟨⟨⟨"d", "s", "v"⟩, "img:1"⟩, "c", 80, "h", 8080⟩

/-- The same container on another host. -/
def moved : Container := { container with host := "k" }

/-- Another port of the container. -/
def second : Container := { container with port := 81 }

/-- A container of another image with the same id and port. -/
def foreign : Container := { container with release := ⟨⟨"d", "s", "v"⟩, "img:2"⟩ }

/-- All are registered, and one is unregistered again. -/
def steps : List RegistryStep :=
  [.registerContainer container, .registerContainer second,
    .setImageCount container.release 2, .registerContainer foreign, .registerContainer moved,
    .unregisterContainer second]

/-- Only the first container is listed for its image. -/
theorem first_container_listed :
    let s := RegistryStep.serveAll .fresh steps
    (RegistryStep.serve s (.registerContainer moved)).1 =
        .error (.conflict container.path .exists) ∧
      (RegistryStep.serve s (.unregisterContainer second)).1 = .error (.notFound second.path) ∧
      ∃ cs, (RegistryStep.serve s (.listContainers container.release)).1 =
          .ok (.containers cs) ∧
        container ∈ cs ∧ moved ∉ cs ∧ second ∉ cs ∧ foreign ∉ cs := by
  obtain ⟨hcontainers, hreleases⟩ :=
    @RegistryStep.containers_listed_exactly steps (by decide)
  obtain ⟨cs, hlist, -, hmem⟩ := hreleases container.release (by decide)
  refine ⟨(hcontainers moved (by decide)).1, (hcontainers second (by decide)).2, cs, hlist, ?_⟩
  rw [hmem, hmem, hmem, hmem]
  decide

end TwoImages

end Coordination
