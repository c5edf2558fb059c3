import Coordination.Proofs.Registry.Checks
import Coordination.Proofs.Tree.Directory
import Coordination.Proofs.Tree.Effects
import Coordination.Proofs.Tree.Trace

/-!
# Changes that stay below a directory

Two trees are confined to a directory if they have the same nodes elsewhere, and in the
directory's own node at most the count of changes of the children went up. A write below a
directory that is there is confined to it: the missing ancestors of a new node end at the
directory at the latest, since everything above the directory is there, too. So is a run that
makes no writes but such; and where the directory is missing, a run that begins by reading it
ends there.
-/

namespace Coordination

theorem Cell.map_grow_zero (c : Option Cell) : c.map (Cell.grow 0) = c := by
  cases c <;> rfl

theorem Cell.map_grow_grow (m n : Nat) (c : Option Cell) :
    (c.map (Cell.grow m)).map (Cell.grow n) = c.map (Cell.grow (m + n)) := by
  cases c with
  | none => rfl
  | some c => simp [Cell.grow, Nat.add_assoc]

namespace Tree

variable {t t' t'' : Tree} {d : String}

/-- Nothing changed but below `d` and in the count of changes of the children of `d`, which
may have gone up. -/
structure ConfinedTo (d : String) (t t' : Tree) : Prop where
  elsewhere : ∀ q, ¬ Within d q → t'.node? q = t.node? q
  directory : ∃ n, t'.cells.get? d = (t.cells.get? d).map (Cell.grow n)

theorem ConfinedTo.refl (d : String) (t : Tree) : ConfinedTo d t t :=
  ⟨fun _ _ => rfl, 0, (Cell.map_grow_zero _).symm⟩

theorem ConfinedTo.trans (h : ConfinedTo d t t') (h' : ConfinedTo d t' t'') :
    ConfinedTo d t t'' := by
  obtain ⟨m, hm⟩ := h.directory
  obtain ⟨n, hn⟩ := h'.directory
  refine ⟨?_, m + n, ?_⟩
  · intro q hq
    exact (h'.elsewhere q hq).trans (h.elsewhere q hq)
  · rw [hn, hm, Cell.map_grow_grow]

/-- The directory is there before if and only if it is there afterwards. -/
theorem ConfinedTo.has (h : ConfinedTo d t t') : t'.Has d ↔ t.Has d := by
  obtain ⟨n, hn⟩ := h.directory
  rw [Has, Has, OrderedMap.contains, OrderedMap.contains, hn, Option.isSome_map]

/-! ## Writes -/

theorem node?_eq_of_children (ht : t.Sound) (ht' : t'.Sound) {q : String}
    (hcell : t'.cells.get? q = t.cells.get? q)
    (hchildren : ∀ c, Path.parent? c = some q → (t'.Has c ↔ t.Has c)) :
    t'.node? q = t.node? q := by
  rw [node?, node?, hcell]
  cases hq : t.cells.get? q with
  | none => rfl
  | some c =>
    have hvalid := ht.valid (has_iff_get?.2 ⟨c, hq⟩)
    have hsame := (childPaths_eq_iff ht ht' hvalid).2 hchildren
    simp only [Option.map_some, nodeOf, hsame]

/-- An edit of one node that touches no other cell but that of its parent, where it counts. -/
theorem confined_edit (ht : t.Sound) (ht' : t'.Sound) {p parent : String} (n : Nat)
    (hd : Path.isValid d = true) (hp : Path.isValid p = true)
    (hparent : Path.parent? p = some parent) (hbelow : Path.Below d p)
    (hcell : ∀ q, q ≠ p → t'.cells.get? q =
      if q = parent then (t.cells.get? q).map (Cell.grow n) else t.cells.get? q) :
    ConfinedTo d t t' := by
  have hwithin : Within d parent := by
    rcases (Path.below_iff_of_parent hd hp hparent).1 hbelow with hdp | hbelow
    · exact Or.inl hdp.symm
    · exact Or.inr hbelow
  have hhas {q : String} (hq : q ≠ p) : t'.Has q ↔ t.Has q := by
    rw [Has, Has, OrderedMap.contains, OrderedMap.contains, hcell q hq]
    split
    · rw [Option.isSome_map]
    · rfl
  constructor
  · intro q hq
    have hqp : q ≠ p := by
      rintro rfl
      exact hq (Or.inr hbelow)
    have hqparent : q ≠ parent := by
      rintro rfl
      exact hq hwithin
    refine node?_eq_of_children ht ht' ?_ ?_
    · rw [hcell q hqp, if_neg hqparent]
    · intro c hc
      refine hhas ?_
      rintro rfl
      exact hqparent (Option.some.inj (hc.symm.trans hparent))
  · have hdp : d ≠ p := hbelow.ne
    by_cases hdparent : d = parent
    · refine ⟨n, ?_⟩
      rw [hcell d hdp, if_pos hdparent]
    · refine ⟨0, ?_⟩
      rw [hcell d hdp, if_neg hdparent, Cell.map_grow_zero]

theorem Plants.confined {P : String → Prop} {es : List Event} (h : Plants P t es t')
    (ht : t.Sound) (hd : Path.isValid d = true)
    (hbelow : ∀ q, Path.isValid q = true → P q → Path.Below d q) : ConfinedTo d t t' := by
  induction h with
  | refl => exact .refl d t
  | plant hplants hq place v ih =>
    have hsound := hplants.sound ht
    refine ih.trans (confined_edit hsound (sound_plant hsound place v) 1 hd place.valid
      place.child (hbelow _ place.valid hq) ?_)
    intro q hne
    rw [get?_plant place.child, if_neg hne]

/-- What a new node below a directory lacks lies below the directory. -/
theorem below_of_planted (ht : t.Sound) {p q : String} (hd : t.Has d)
    (hp : Path.isValid p = true) (hbelow : Path.Below d p) (hq : Path.isValid q = true)
    (hplanted : t.Planted p q) : Path.Below d q := by
  rcases hplanted with rfl | ⟨habove, hmissing⟩
  · exact hbelow
  · rcases Path.comparable_of_below (ht.valid hd) hq hp hbelow habove with rfl | hdq | hqd
    · exact absurd hd hmissing
    · exact hdq
    · exact absurd (ht.ancestor hq hd hqd) hmissing

theorem Effect.confined {c : Call} {es : List Event} (h : Effect t c es t') (ht : t.Sound)
    (hd : t.Has d) (hc : c.IsRead ∨ Path.Below d c.path) : ConfinedTo d t t' := by
  have hvalid := ht.valid hd
  cases h with
  | get p => exact .refl d t
  | visit p enter => exact .refl d t
  | fail _ => exact .refl d t
  | @create p v _ _ hp hplants =>
    rcases hc with hread | hbelow
    · exact hread.elim
    · refine hplants.confined ht hvalid fun q hq hplanted => ?_
      exact below_of_planted ht hd hp hbelow hq hplanted
  | @set p c v there =>
    rcases hc with hread | hbelow
    · exact hread.elim
    · have hp := ht.valid (has_iff_get?.2 ⟨c, there⟩)
      obtain ⟨parent, _, _, _, _, hparent⟩ := Path.exists_parent hp hbelow.1
      refine confined_edit ht (sound_written ht there v) 0 hvalid hp hparent hbelow ?_
      intro q hq
      have hsame : (t.written p c v).cells.get? q = t.cells.get? q := by
        rw [get?_written, if_neg hq]
      rw [hsame, Cell.map_grow_zero, ite_self]
  | @delete p parent _ hparent hp hleaf =>
    rcases hc with hread | hbelow
    · exact hread.elim
    · refine confined_edit ht (sound_removed ht hp hparent hleaf) 1 hvalid (ht.valid hp)
        hparent hbelow ?_
      intro q hq
      rw [get?_removed, if_neg hq]

end Tree

/-! ## Runs -/

theorem Program.last_mem_states {α σ : Type}
    {answer : (c : Call) → σ → Except TreeError c.Reply × σ} (p : Program α) (s : σ) :
    (p.run answer s).2 ∈ p.states answer s := by
  induction p generalizing s with
  | done a => exact List.mem_cons_self
  | call c next ih => exact List.mem_cons_of_mem _ (ih _ _)

theorem Program.Keeps.forall_trace {α σ : Type} {allowed : Call → Prop} {ends : α → Prop}
    {p : Program α} (h : p.Keeps allowed ends)
    {answer : (c : Call) → σ → Except TreeError c.Reply × σ} (s : σ) :
    ∀ e ∈ p.trace answer s, allowed e.1 := by
  induction p generalizing s with
  | done a => exact List.forall_mem_nil _
  | call c next ih => exact List.forall_mem_cons.2 ⟨h.1, ih _ (h.2 _) _⟩

/-- The action begins by reading `d`, and fails if that fails. -/
def Action.Opens {α : Type} (d : String) (x : Action α) : Prop :=
  ∃ next, x.run = .call (.get d) next ∧ ∀ e, ∃ failure, next (.error e) = .done (.error failure)

theorem Action.opens_node (d : String) : (Action.node d).Opens d := by
  refine ⟨_, rfl, fun e => ?_⟩
  cases e with
  | notFound path => exact ⟨_, rfl⟩
  | alreadyExists path => exact ⟨_, rfl⟩
  | notEmpty path => exact ⟨_, rfl⟩
  | invalidPath path => exact ⟨_, rfl⟩
  | disconnected => exact ⟨_, rfl⟩
  | backend detail => exact ⟨_, rfl⟩

theorem Action.Opens.bind {α β : Type} {d : String} {x : Action α} (h : x.Opens d)
    (f : α → Action β) : (x >>= f).Opens d := by
  obtain ⟨next, hx, hfails⟩ := h
  refine ⟨fun reply => (next reply).bind (ExceptT.bindCont f), ?_, fun e => ?_⟩
  · show Program.bind x.run (ExceptT.bindCont f) = _
    rw [hx]
    rfl
  · obtain ⟨failure, hfailure⟩ := hfails e
    refine ⟨failure, ?_⟩
    show (next (.error e)).bind _ = _
    rw [hfailure]
    rfl

namespace Service

variable {α : Type} {p : Program α} {d : String} {s : Service}

theorem confined_answer (hs : s.tree.Sound) (hd : s.tree.Has d) {c : Call}
    (hc : c.IsRead ∨ Path.Below d c.path) : Tree.ConfinedTo d s.tree (s.answer c).2.tree := by
  rcases s.answer_cases c with ⟨_, htree⟩ | ⟨_, htree⟩
  · rw [htree]
    exact .refl d s.tree
  · rw [htree]
    exact (Tree.effect_answer hs c).confined hs hd hc

/-- A program that writes nothing but below a directory that is there is confined to it, from
its first tree to its last. -/
theorem confined_run {ends : α → Prop}
    (hp : p.Keeps (fun c => c.IsRead ∨ Path.Below d c.path) ends) (hs : s.tree.Sound)
    (hd : s.tree.Has d) : ∀ t ∈ s.trees p, Tree.ConfinedTo d s.tree t := by
  have hstates : ∀ s' ∈ p.states answer s,
      s'.tree.Sound ∧ Tree.ConfinedTo d s.tree s'.tree := by
    refine hp.forall_states ?_ ⟨hs, .refl d s.tree⟩
    rintro c s' hc ⟨hsound, hconfined⟩
    have hthere : s'.tree.Has d := hconfined.has.2 hd
    exact ⟨(s'.change_answer c).sound hsound,
      hconfined.trans (confined_answer hsound hthere hc)⟩
  intro t ht
  obtain ⟨s', hs', rfl⟩ := List.mem_map.1 ht
  exact (hstates s' hs').2

/-- Where the directory is missing, it is read and nothing else is done. -/
theorem run_of_opens {x : Action α} (hx : x.Opens d) (hd : ¬ s.tree.Has d) :
    (∀ t ∈ s.trees x.run, t = s.tree) ∧ ∀ e ∈ s.trace x.run, e.1 = .get d := by
  obtain ⟨next, hrun, hfails⟩ := hx
  have hanswer : ∃ e, (s.answer (.get d)).1 = .error e := by
    cases hreply : (s.answer (.get d)).1 with
    | error e => exact ⟨e, rfl⟩
    | ok n =>
      obtain ⟨c, hc, _⟩ :=
        Tree.exists_get?_of_get (congrArg Prod.fst (respond_of_answer hreply))
      exact absurd (Tree.has_iff_get?.2 ⟨c, hc⟩) hd
  obtain ⟨e, he⟩ := hanswer
  obtain ⟨failure, hfailure⟩ := hfails e
  have htree : (s.answer (.get d)).2.tree = s.tree :=
    Call.IsRead.tree (c := .get d) trivial s
  rw [trees, trace, hrun, Program.states, Program.trace, he, hfailure]
  constructor
  · intro t ht
    rcases List.mem_cons.1 ht with rfl | ht
    · rfl
    · rw [List.mem_singleton.1 ht]
      exact htree
  · intro e he
    rw [List.mem_singleton.1 he]

end Service

end Coordination
