import Coordination.Proofs.Environment.Pruning

/-!
# Which groups pruning deletes

The walks up from the removed nodes share the nodes above them, and each stops at the first
that is not empty then. A node that a deletion leaves empty is met next by the walk that
deletes, so that no walk leaves a node empty that it found with a child, nor the one that it
begins with. In the end exactly those nodes above a removed one are gone that had no value and
no child but such as are gone, too. This determines them from the leaves up, and so the order
of the removed nodes makes no difference.
-/

namespace Coordination.Tree

variable {t t' : Tree} {d : String} {begins way : String → Prop} {gs : List String}

/-! ## What is deleted -/

/-- If every node on the way has children or a walk begins at it, then exactly those nodes on
the way are deleted that have no value and no child but deleted ones. -/
theorem Prunes.mem_iff (ht : t.Sound) (h : Prunes d begins way t gs t')
    (hway : ∀ q, way q → t.childPaths q ≠ [] ∨ begins q) (q : String) :
    q ∈ gs ↔ (t.Has q ∧ Path.Below d q ∧ way q ∧ t.value? q = some []) ∧
      ∀ c ∈ t.childPaths q, c ∈ gs := by
  constructor
  · intro hq
    have hhas := h.makes.nodup_deletes.2 q hq
    refine ⟨⟨hhas, h.deleted q hq⟩, fun c hc => ?_⟩
    obtain ⟨hhasc, hparent⟩ := (mem_childPaths_iff ht (ht.valid hhas)).1 hc
    exact h.makes.mem_deletes_of_below ht hq hhasc
      (Path.below_of_parent (ht.valid hhasc) hparent)
  · rintro ⟨⟨hhas, hbelow, hq, hvalue⟩, hchildren⟩
    by_contra hnot
    have hleft := h.makes.has_deletes.2 ⟨hhas, hnot⟩
    have hempty : t'.Empty q := by
      refine ⟨List.eq_nil_iff_forall_not_mem.2 fun c hc => ?_, ?_⟩
      · obtain ⟨hhasc, hparent⟩ :=
          (mem_childPaths_iff (h.makes.sound ht).1 (ht.valid hhas)).1 hc
        obtain ⟨hhasc, hkept⟩ := h.makes.has_deletes.1 hhasc
        exact hkept (hchildren c ((mem_childPaths_iff ht (ht.valid hhas)).2 ⟨hhasc, hparent⟩))
      · rw [h.makes.value?_deletes hnot]
        exact hvalue
    obtain ⟨hempty, hbegins⟩ := h.left q hleft hbelow hempty
    exact (hway q hq).elim (fun hsome => hsome hempty.1) hbegins

/-- Two sets of nodes are equal if a node belongs to either under one condition that is the
same for both and if all of its children belong to it. -/
theorem mem_iff_of_children {A B P : String → Prop}
    (hA : ∀ q, A q ↔ P q ∧ ∀ c ∈ t.childPaths q, A c)
    (hB : ∀ q, B q ↔ P q ∧ ∀ c ∈ t.childPaths q, B c) (q : String) : A q ↔ B q := by
  induction q using t.children_induction with
  | step q ih =>
    rw [hA, hB, and_congr_right_iff]
    exact fun _ => forall₂_congr ih

/-- What is above a path but not its parent has children if the parent is there. -/
theorem childPaths_ne_nil_of_mem_ancestors (ht : t.Sound) {p g q : String}
    (hparent : Path.parent? p = some g) (hg : t.Has g) (hq : q ∈ Path.ancestors p) :
    t.childPaths q ≠ [] ∨ Path.parent? p = some q := by
  rw [Path.ancestors_of_parent hparent, List.mem_cons] at hq
  rcases hq with rfl | hq
  · exact Or.inr hparent
  · obtain ⟨hvalid, hbelow⟩ := (Path.mem_ancestors_iff (ht.valid hg)).1 hq
    left
    rw [ne_eq, ht.childless_iff hvalid]
    exact fun hnone => hnone g hg hbelow

theorem run_pruneGroups_mem_iff {s : Service} (hs : s.FaultFree) (ht : s.tree.Sound)
    (hp : Path.isValid d = true) (hd : d ≠ Path.root) {paths : List String}
    (hpaths : ∀ p ∈ paths, ∃ g, Path.parent? p = some g ∧ s.tree.Has g) :
    ∃ (gs : List String) (s' : Service),
      s.run (Registry.pruneGroups d paths).run = (.ok gs.length, s') ∧
      Makes s.tree (gs.map .delete) s'.tree ∧
      ∀ q, q ∈ gs ↔ (s.tree.Has q ∧ Path.Below d q ∧ (∃ p ∈ paths, q ∈ Path.ancestors p) ∧
        s.tree.value? q = some []) ∧ ∀ c ∈ s.tree.childPaths q, c ∈ gs := by
  have hparents : ∀ p ∈ paths, ∀ g, Path.parent? p = some g → Path.isValid g = true := by
    intro p hp g hg
    obtain ⟨g', hparent, hhas⟩ := hpaths p hp
    exact Option.some.inj (hparent.symm.trans hg) ▸ ht.valid hhas
  obtain ⟨gs, t', hrun, hprunes⟩ := run_pruneGroups_prunes hp hd hparents ht hs.unlocked
  obtain ⟨hreply, htree, _⟩ :=
    Service.run_of_faults_eq_nil (Registry.pruneGroups d paths).run hs.faults
  rw [hrun] at hreply htree
  refine ⟨gs, _, Prod.ext hreply rfl, htree ▸ hprunes.makes, hprunes.mem_iff ht ?_⟩
  rintro q ⟨p, hp, hq⟩
  obtain ⟨g, hparent, hg⟩ := hpaths p hp
  exact (childPaths_ne_nil_of_mem_ancestors ht hparent hg hq).imp_right fun h => ⟨p, hp, h⟩

/-- Where the parents of the removed paths are there, pruning below `d` deletes exactly the
nodes below `d` and above a removed path that have no value and no child that stays, and
answers their number. All other nodes keep their cells and count the children that they lost.
In whatever order the removed paths are given, the answer and the tree are the same. -/
theorem pruneGroups_exact {s : Service} (hs : s.FaultFree) (hr : s.tree.Reachable)
    (hp : Path.isValid d = true) (hd : d ≠ Path.root) {removed : List String}
    (hremoved : ∀ p ∈ removed, ∃ g, Path.parent? p = some g ∧ s.tree.Has g) :
    ∃ n s', s.run (Registry.pruneGroups d removed).run = (.ok n, s') ∧
      (∀ q, (s.tree.Has q ∧ ¬ s'.tree.Has q) ↔
        (s.tree.Has q ∧ Path.Below d q ∧ (∃ p ∈ removed, q ∈ Path.ancestors p) ∧
          s.tree.value? q = some []) ∧ ∀ c ∈ s.tree.childPaths q, ¬ s'.tree.Has c) ∧
      n = (s.tree.cells.keys.filter fun q => ¬ s'.tree.Has q).length ∧
      (∀ q, s'.tree.Has q → s'.tree.cells.get? q = (s.tree.cells.get? q).map
        (Cell.grow ((s.tree.childPaths q).countP fun c => ¬ s'.tree.Has c))) ∧
      ∀ removed', (∀ p, p ∈ removed' ↔ p ∈ removed) →
        ∃ s'', s.run (Registry.pruneGroups d removed').run = (.ok n, s'') ∧
          s''.tree = s'.tree := by
  have ht := hr.sound
  obtain ⟨gs, s', hprune, hmakes, hmem⟩ :=
    run_pruneGroups_mem_iff hs ht hp hd hremoved
  have hchild {q c : String} (hq : s.tree.Has q) (hc : c ∈ s.tree.childPaths q) :
      c ∈ gs ↔ ¬ s'.tree.Has c := by
    rw [hmakes.mem_deletes_iff]
    exact and_iff_right ((mem_childPaths_iff ht (ht.valid hq)).1 hc).1
  refine ⟨gs.length, s', hprune, fun q => ?_, hmakes.length_deletes, fun q hq => ?_,
    fun removed' hsame => ?_⟩
  · rw [← hmakes.mem_deletes_iff, hmem, and_congr_right_iff]
    exact fun hq => forall₂_congr fun c hc => hchild hq.1 hc
  · obtain ⟨hhas, hkept⟩ := hmakes.has_deletes.1 hq
    rw [hmakes.get?_deletes, if_neg hkept, hmakes.countP_deletes ht (ht.valid hhas)]
  · obtain ⟨gs', s'', hprune', hmakes', hmem'⟩ :=
      run_pruneGroups_mem_iff hs ht hp hd fun p hp => hremoved p ((hsame p).1 hp)
    simp only [hsame] at hmem'
    have hgs := mem_iff_of_children hmem hmem'
    refine ⟨s'', ?_, hmakes.eq_of_deletes ht hmakes' hgs⟩
    have hperm : gs.Perm gs' := by
      rw [List.perm_ext_iff_of_nodup hmakes.nodup_deletes.1 hmakes'.nodup_deletes.1]
      exact hgs
    rw [hprune', hperm.length_eq]

namespace Shared

/-- Two groups below one, and a variable that was also a group. -/
def service : Service :=
  ((((Service.fresh.answer (.create "/d/g/h" [])).2.answer (.create "/d/g/i" [])).2.answer
    (.create "/d/k" [1])).2.answer (.create "/d/l/m" [])).2

def removed : List String := ["/d/g/h/x", "/d/k/y", "/d/g/i/x", "/d/l/x"]

theorem reachable : service.tree.Reachable :=
  .call (.create "/d/l/m" []) (.call (.create "/d/k" [1]) (.call (.create "/d/g/i" [])
    (.call (.create "/d/g/h" []) .empty)))

/-- The first walk stops at the group that the two share, and the third deletes it. The
variable and the group with another child stay. -/
theorem pruneGroups_shared :
    (service.FaultFree ∧ service.tree.Reachable ∧ Path.isValid "/d" = true ∧
      "/d" ≠ Path.root ∧
      ∀ p ∈ removed, ∃ g, Path.parent? p = some g ∧ service.tree.Has g) ∧
    ∃ s', service.run (Registry.pruneGroups "/d" removed).run = (.ok 3, s') ∧
      s'.tree.cells.keys = ["/", "/d", "/d/k", "/d/l", "/d/l/m"] ∧
      ∃ s'', service.run (Registry.pruneGroups "/d" removed.reverse).run = (.ok 3, s'') ∧
        s''.tree = s'.tree := by
  have hs : service.FaultFree := ⟨by decide, by decide +kernel⟩
  have hremoved : ∀ p ∈ removed, ∃ g, Path.parent? p = some g ∧ service.tree.Has g := by
    have hparents : ∀ p ∈ removed, ∃ g ∈ Path.parent? p, service.tree.Has g := by decide +kernel
    exact hparents
  obtain ⟨n, s', hrun, _, _, _, horder⟩ :=
    pruneGroups_exact (d := "/d") hs reachable (by decide) (by decide) hremoved
  have hn : (service.run (Registry.pruneGroups "/d" removed).run).1.toOption = some 3 := by
    decide +kernel
  have hkeys : (service.run (Registry.pruneGroups "/d" removed).run).2.tree.cells.keys =
      ["/", "/d", "/d/k", "/d/l", "/d/l/m"] := by decide +kernel
  rw [hrun] at hn hkeys
  cases hn
  exact ⟨⟨hs, reachable, by decide, by decide, hremoved⟩, s', hrun, hkeys,
    horder removed.reverse fun p => List.mem_reverse⟩

end Shared

end Coordination.Tree
