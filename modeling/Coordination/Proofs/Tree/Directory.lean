import Coordination.Proofs.Registry.Batch

/-!
# Directories of values

A directory whose children have no children of their own holds values by name. Creating,
setting and deleting a child change the values and the revision as one expects; a write
outside of a directory and what is below it changes nothing there. A planned batch therefore
overrides the values with those to write and leaves out those to delete.
-/

namespace Coordination

namespace Tree

/-! ## Writes elsewhere -/

/-- The path is the one of `d` or lies below it. -/
def Within (d q : String) : Prop := q = d ∨ Path.Below d q

/-- Both trees are alike at `d` and below it. -/
structure Agree (d : String) (t t' : Tree) : Prop where
  revision : t'.revision? d = t.revision? d
  value : ∀ q, Within d q → t'.value? q = t.value? q

theorem Agree.trans {d : String} {t t' t'' : Tree} (h : Agree d t t') (h' : Agree d t' t'') :
    Agree d t t'' :=
  ⟨h'.revision.trans h.revision, fun q hq => (h'.value q hq).trans (h.value q hq)⟩

theorem agree_created {t : Tree} (ht : t.Sound) {d p : String} (hp : Path.isValid p = true)
    (v : Bytes) (hout : ¬ Within d p) : Agree d t (t.created p v) := by
  have hinside {q : String} (hq : Within d q) : q ≠ p ∧ ¬ Path.Below q p := by
    constructor
    · rintro rfl
      exact hout hq
    · intro hbelow
      rcases hq with rfl | hq
      · exact hout (Or.inr hbelow)
      · exact hout (Or.inr (Path.below_trans hq hbelow))
  have hvalue (q : String) (hq : Within d q) : (t.created p v).value? q = t.value? q := by
    rw [value?_created ht hp, if_neg (hinside hq).1, if_neg fun h => (hinside hq).2 h.2.1]
  refine ⟨?_, hvalue⟩
  have hhas := has_congr (hvalue d (Or.inl rfl))
  by_cases hd : t.Has d
  · have hzero : (p :: t.missingAncestors p).countP (fun q => Path.parent? q = some d) = 0 := by
      rw [List.countP_eq_zero]
      intro q hq hparent
      rw [decide_eq_true_eq] at hparent
      rcases List.mem_cons.1 hq with rfl | hq
      · exact hout (Or.inr (Path.below_of_parent hp hparent))
      · obtain ⟨hvalid, hbelow, _⟩ := (mem_missingAncestors_iff ht hp).1 hq
        exact (hinside (Or.inr (Path.below_of_parent hvalid hparent))).2 hbelow
    rw [revision?_created ht hp v hd (hinside (Or.inl rfl)).1, hzero]
    cases t.revision? d <;> rfl
  · rw [revision?_eq_none_iff.2 hd, revision?_eq_none_iff.2 (mt hhas.1 hd)]

theorem agree_removed (t : Tree) {d p parent : String} (hp : Path.isValid p = true)
    (hparent : Path.parent? p = some parent) (hout : ¬ Within d p) :
    Agree d t (t.removed p parent) := by
  have hne {q : String} (hq : Within d q) : q ≠ p := by
    rintro rfl
    exact hout hq
  refine ⟨?_, fun q hq => ?_⟩
  · rw [revision?_removed t parent (hne (Or.inl rfl)), if_neg]
    rintro rfl
    exact hout (Or.inr (Path.below_of_parent hp hparent))
  · rw [value?_removed, if_neg (hne hq)]

/-- A call changes nothing at and below a path that it does not name a path within. -/
theorem Change.agree {t t' : Tree} {c : Call} (h : Change t c t') (ht : t.Sound) {d : String}
    (hout : ¬ Within d c.path) : Agree d t t' := by
  cases h with
  | none c => exact ⟨rfl, fun q _ => rfl⟩
  | create v hp hmissing => exact agree_created ht hp v hout
  | set v hcell =>
    refine ⟨revision?_written hcell v d, fun q hq => ?_⟩
    rw [value?_written, if_neg]
    rintro rfl
    exact hout hq
  | delete hparent hp hleaf => exact agree_removed t (ht.valid hp) hparent hout

/-- The calls lead from a tree where no writes are refused to such a tree. -/
theorem Makes.sound {t t' : Tree} {calls : List Call} (h : Makes t calls t') (ht : t.Sound) :
    t'.Sound ∧ t'.locked = t.locked := by
  induction h with
  | nil t => exact ⟨ht, rfl⟩
  | @cons t t' t'' c calls reply head tail ih =>
    have hchange := change_respond t c
    rw [head] at hchange
    obtain ⟨hsound, hlocked⟩ := ih (hchange.sound ht)
    exact ⟨hsound, hlocked.trans hchange.locked⟩

theorem Makes.agree {t t' : Tree} {calls : List Call} (h : Makes t calls t') (ht : t.Sound)
    {d : String} (hout : ∀ c ∈ calls, ¬ Within d c.path) : Agree d t t' := by
  induction h with
  | nil t => exact ⟨rfl, fun q _ => rfl⟩
  | @cons t t' t'' c calls reply head tail ih =>
    obtain ⟨hc, hcalls⟩ := List.forall_mem_cons.1 hout
    have hchange := change_respond t c
    rw [head] at hchange
    exact (hchange.agree ht hc).trans (ih (hchange.sound ht) hcalls)

/-! ## A child more -/

theorem missingAncestors_eq_nil {t : Tree} {p d : String} (hparent : Path.parent? p = some d)
    (hd : t.Has d) : t.missingAncestors p = [] := by
  rw [missingAncestors, Path.ancestors_of_parent hparent]
  exact List.takeWhile_cons_of_neg (by simpa [Has] using hd)

theorem created_child {t : Tree} {p d : String} (hparent : Path.parent? p = some d)
    (hd : t.Has d) (v : Bytes) : t.created p v = (t.plant p v).1 := by
  rw [created, missingAncestors_eq_nil hparent hd]
  rfl

end Tree

/-! ## Directories -/

/-- The values of a directory by name, and its revision. -/
structure Directory where
  values : OrderedMap Bytes
  revision : Nat
  deriving DecidableEq

namespace Directory

/-- A new directory: every value was added once. -/
def fresh (values : OrderedMap Bytes) : Directory := ⟨values, values.size⟩

/-- How many writes of each kind it takes to write values and to delete names. -/
def summary (d : Directory) (update : OrderedMap Bytes) (delete : List String) :
    ChangeSummary := .count d.values update delete

/-- The directory after values were written and names deleted. -/
def change (d : Directory) (update : OrderedMap Bytes) (delete : List String) : Directory where
  values := (d.values.override update).without delete
  revision := d.revision + (d.summary update delete).created + (d.summary update delete).deleted

end Directory

namespace Tree

/-- The node at `d` is a directory of the values. -/
structure Holds (t : Tree) (d : String) (dir : Directory) : Prop where
  revision : t.revision? d = some dir.revision
  value : ∀ name, Path.IsName name → t.value? (d ++ "/" ++ name) = dir.values.get? name
  names : ∀ name v, dir.values.get? name = some v → Path.IsName name
  flat : ∀ q, t.Has q → Path.Below d q → Path.parent? q = some d

namespace Holds

variable {t t' : Tree} {d : String} {dir : Directory} {name : String}

theorem has (h : Holds t d dir) : t.Has d := has_iff_revision?.2 ⟨_, h.revision⟩

theorem of_agree (h : Holds t d dir) (hd : d ≠ Path.root) (hagree : Agree d t t') :
    Holds t' d dir where
  revision := hagree.revision.trans h.revision
  value name hname := by
    have hbelow := Path.below_append d hname.1
    rw [Path.childStart_of_ne hd] at hbelow
    exact (hagree.value _ (Or.inr hbelow)).trans (h.value name hname)
  names := h.names
  flat q hq hbelow := by
    rw [has_congr (hagree.value q (Or.inr hbelow))] at hq
    exact h.flat q hq hbelow

/-- What is put at the path of a child is put under its name. -/
theorem value_insert (h : Holds t d dir) (v : Bytes) {name' : String}
    (hname' : Path.IsName name') :
    (if d ++ "/" ++ name' = d ++ "/" ++ name then some v else t.value? (d ++ "/" ++ name')) =
      (dir.values.insert name v).get? name' := by
  rw [OrderedMap.get?_insert, h.value name' hname']
  by_cases heq : name' = name
  · rw [if_pos heq, if_pos (by rw [heq])]
  · rw [if_neg heq, if_neg fun hpath => heq (Path.append_left_cancel hpath)]

theorem names_insert (h : Holds t d dir) (hname : Path.IsName name) {v : Bytes}
    {name' : String} {v' : Bytes} (hget : (dir.values.insert name v).get? name' = some v') :
    Path.IsName name' := by
  rw [OrderedMap.get?_insert] at hget
  split at hget
  · rename_i heq
    exact heq ▸ hname
  · exact h.names name' v' hget

/-- A child that is missing can be created. -/
theorem created (h : Holds t d dir) (hp : Path.isValid d = true) (hd : d ≠ Path.root)
    (hname : Path.IsName name) (v : Bytes) :
    Holds (t.created (d ++ "/" ++ name) v) d
      ⟨dir.values.insert name v, dir.revision + 1⟩ := by
  have hparent := Path.parent?_child hp hd hname
  have hne : d ≠ d ++ "/" ++ name := (Path.below_child hd hname).ne
  rw [created_child hparent h.has]
  refine ⟨?_, fun name' hname' => ?_, fun name' v' => ?_, fun q hq hbelow => ?_⟩
  · rw [revision?_plant _ _ hne, if_pos hparent, h.revision]
    rfl
  · rw [value?_plant, h.value_insert v hname']
  · exact h.names_insert hname
  · rcases has_plant.1 hq with rfl | hhas
    · exact hparent
    · exact h.flat q hhas hbelow

/-- The value of a child can be set. -/
theorem written (h : Holds t d dir) (hname : Path.IsName name)
    {c : Cell} (hc : t.cells.get? (d ++ "/" ++ name) = some c) (v : Bytes) :
    Holds (t.written (d ++ "/" ++ name) c v) d ⟨dir.values.insert name v, dir.revision⟩ := by
  refine ⟨?_, fun name' hname' => ?_, fun name' v' => ?_, fun q hq hbelow => ?_⟩
  · rw [revision?_written hc, h.revision]
  · rw [value?_written, h.value_insert v hname']
  · exact h.names_insert hname
  · exact h.flat q ((has_written hc).1 hq) hbelow

/-- A child can be deleted. -/
theorem removed (h : Holds t d dir) (hd : d ≠ Path.root) (hname : Path.IsName name) :
    Holds (t.removed (d ++ "/" ++ name) d) d ⟨dir.values.erase name, dir.revision + 1⟩ := by
  have hne : d ≠ d ++ "/" ++ name := (Path.below_child hd hname).ne
  refine ⟨?_, fun name' hname' => ?_, fun name' v' => ?_, fun q hq hbelow => ?_⟩
  · rw [revision?_removed _ _ hne, if_pos rfl, h.revision]
    rfl
  · rw [value?_removed, OrderedMap.get?_erase, h.value name' hname']
    by_cases heq : name' = name
    · rw [if_pos heq, if_pos (by rw [heq])]
    · rw [if_neg heq, if_neg fun hpath => heq (Path.append_left_cancel hpath)]
  · rw [OrderedMap.get?_erase]
    split
    · exact fun h => nomatch h
    · exact h.names name' v'
  · exact h.flat q (has_removed.1 hq).2 hbelow

theorem has_child_iff (h : Holds t d dir) (hname : Path.IsName name) :
    t.Has (d ++ "/" ++ name) ↔ dir.values.contains name = true := by
  rw [has_iff_value?, h.value name hname, OrderedMap.contains, Option.isSome_iff_exists]

/-- The children of a directory have no children. -/
theorem childPaths_child (h : Holds t d dir) (ht : t.Sound) (hp : Path.isValid d = true)
    (hd : d ≠ Path.root) (hname : Path.IsName name) :
    t.childPaths (d ++ "/" ++ name) = [] := by
  rw [ht.childless_iff (Path.isValid_child hp hd hname)]
  intro q hq hbelow
  have hparent := h.flat q hq (Path.below_trans (Path.below_child hd hname) hbelow)
  have hvalid := ht.valid hq
  rcases (Path.below_iff_of_parent (Path.isValid_child hp hd hname) hvalid hparent).1 hbelow
    with heq | hdown
  · exact (Path.below_child hd hname).ne heq.symm
  · exact Path.not_below_self _ (Path.below_trans (Path.below_child hd hname) hdown)

/-! ## Batches of writes to a directory -/

theorem makes_creates (h : Holds t d dir) (ht : t.Sound) (hu : t.locked = none)
    (hp : Path.isValid d = true) (hd : d ≠ Path.root) {l : List (String × Bytes)}
    (hl : (l.map (·.1)).Nodup)
    (hmissing : ∀ w ∈ l, Path.IsName w.1 ∧ dir.values.contains w.1 = false) :
    ∃ t', Makes t (l.map fun w => .create (d ++ "/" ++ w.1) w.2) t' ∧
      Holds t' d ⟨dir.values.insertAll l, dir.revision + l.length⟩ := by
  induction l generalizing t dir with
  | nil => exact ⟨t, .nil t, h⟩
  | cons w rest ih =>
    obtain ⟨⟨hname, hnone⟩, hrest⟩ := List.forall_mem_cons.1 hmissing
    rw [List.map_cons, List.nodup_cons] at hl
    have hvalid := Path.isValid_child hp hd hname
    have habsent : ¬ t.Has (d ++ "/" ++ w.1) := by
      rw [h.has_child_iff hname, hnone]
      exact Bool.false_ne_true
    obtain ⟨n, hcreate⟩ := respond_create_of_not_has hu hvalid habsent w.2
    have hholds := h.created hp hd hname w.2
    have hsound := sound_created ht hvalid w.2
    have hrest' : ∀ u ∈ rest, Path.IsName u.1 ∧
        (dir.values.insert w.1 w.2).contains u.1 = false := by
      intro u hu'
      refine ⟨(hrest u hu').1, ?_⟩
      rw [Bool.eq_false_iff, ne_eq, OrderedMap.contains_insert, (hrest u hu').2]
      rintro (heq | hnot)
      · exact hl.1 (heq ▸ List.mem_map_of_mem hu')
      · cases hnot
    obtain ⟨t', hmakes, ht'⟩ :=
      ih hholds hsound ((locked_created t _ _).trans hu) hl.2 hrest'
    refine ⟨t', .cons hcreate hmakes, ?_⟩
    rw [List.length_cons, Nat.add_comm rest.length, ← Nat.add_assoc]
    exact ht'

theorem makes_sets (h : Holds t d dir) (ht : t.Sound) (hu : t.locked = none)
    (hp : Path.isValid d = true) (hd : d ≠ Path.root) {l : List (String × Bytes)}
    (hthere : ∀ w ∈ l, Path.IsName w.1 ∧ dir.values.contains w.1 = true) :
    ∃ t', Makes t (l.map fun w => .set (d ++ "/" ++ w.1) w.2) t' ∧
      Holds t' d ⟨dir.values.insertAll l, dir.revision⟩ := by
  induction l generalizing t dir with
  | nil => exact ⟨t, .nil t, h⟩
  | cons w rest ih =>
    obtain ⟨⟨hname, hsome⟩, hrest⟩ := List.forall_mem_cons.1 hthere
    obtain ⟨c, hc⟩ := has_iff_get?.1 ((h.has_child_iff hname).2 hsome)
    obtain ⟨n, hset⟩ := respond_set_of_get? hu (Path.isValid_child hp hd hname) hc w.2
    have hholds := h.written hname hc w.2
    have hrest' : ∀ u ∈ rest, Path.IsName u.1 ∧
        (dir.values.insert w.1 w.2).contains u.1 = true := fun u hu' =>
      ⟨(hrest u hu').1, OrderedMap.contains_insert.2 (Or.inr (hrest u hu').2)⟩
    obtain ⟨t', hmakes, ht'⟩ := ih hholds (sound_written ht hc w.2) hu hrest'
    exact ⟨t', .cons hset hmakes, ht'⟩

theorem makes_deletes (h : Holds t d dir) (ht : t.Sound) (hu : t.locked = none)
    (hp : Path.isValid d = true) (hd : d ≠ Path.root) {names : List String}
    (hnodup : names.Nodup)
    (hthere : ∀ name ∈ names, Path.IsName name ∧ dir.values.contains name = true) :
    ∃ t', Makes t (names.map fun name => .delete (d ++ "/" ++ name)) t' ∧
      Holds t' d ⟨dir.values.without names, dir.revision + names.length⟩ := by
  induction names generalizing t dir with
  | nil => exact ⟨t, .nil t, h⟩
  | cons name rest ih =>
    obtain ⟨⟨hname, hsome⟩, hrest⟩ := List.forall_mem_cons.1 hthere
    rw [List.nodup_cons] at hnodup
    have hhas := (h.has_child_iff hname).2 hsome
    have hparent := Path.parent?_child hp hd hname
    have hleaf := h.childPaths_child ht hp hd hname
    have hdelete := respond_delete_of_leaf hu (Path.isValid_child hp hd hname) hhas hparent hleaf
    have hholds := h.removed hd hname
    have hrest' : ∀ name' ∈ rest, Path.IsName name' ∧
        (dir.values.erase name).contains name' = true := by
      intro name' hname'
      refine ⟨(hrest name' hname').1, OrderedMap.contains_erase.2 ⟨?_, (hrest name' hname').2⟩⟩
      rintro rfl
      exact hnodup.1 hname'
    obtain ⟨t', hmakes, ht'⟩ :=
      ih hholds (sound_removed ht hhas hparent hleaf) hu hnodup.2 hrest'
    refine ⟨t', .cons hdelete hmakes, ?_⟩
    rw [List.length_cons, Nat.add_comm rest.length, ← Nat.add_assoc]
    exact ht'

/-- What is planned for a directory can be made, and changes its values as it should. -/
theorem makes_planned (h : Holds t d dir) (ht : t.Sound) (hu : t.locked = none)
    (hp : Path.isValid d = true) (hd : d ≠ Path.root) {update : OrderedMap Bytes}
    {delete : List String} (hupdate : ∀ name ∈ update.keys, Path.IsName name)
    (hdelete : ∀ name ∈ delete, Path.IsName name) (hnodup : delete.Nodup)
    (hdisjoint : ∀ name ∈ update.keys, name ∉ delete) :
    let b := t.planned (update.toList.map fun o => (d ++ "/" ++ o.1, o.2))
      (delete.map fun name => d ++ "/" ++ name)
    ∃ t', Makes t b.calls t' ∧ Holds t' d (dir.change update delete) ∧
      b.summary = dir.summary update delete := by
  have hname {o : String × Bytes} (ho : o ∈ update.toList) : Path.IsName o.1 :=
    hupdate o.1 (List.mem_map_of_mem ho)
  have hcreates : ∀ w ∈ update.toList.filter fun o => !dir.values.contains o.1,
      Path.IsName w.1 ∧ dir.values.contains w.1 = false := by
    intro w hw
    obtain ⟨hmem, hmissing⟩ := List.mem_filter.1 hw
    exact ⟨hname hmem, by simpa using hmissing⟩
  obtain ⟨t₁, hmakes₁, h₁⟩ := h.makes_creates ht hu hp hd
    ((List.filter_sublist.map _).nodup update.nodup_keys) hcreates
  obtain ⟨ht₁, hu₁⟩ := hmakes₁.sound ht
  rw [hu] at hu₁
  have hupdates : ∀ w ∈ update.toList.filter fun o => dir.values.contains o.1,
      Path.IsName w.1 ∧ (dir.values.insertAll
        (update.toList.filter fun o => !dir.values.contains o.1)).contains w.1 = true := by
    intro w hw
    obtain ⟨hmem, hthere⟩ := List.mem_filter.1 hw
    exact ⟨hname hmem, OrderedMap.contains_insertAll _ hthere⟩
  obtain ⟨t₂, hmakes₂, h₂⟩ := h₁.makes_sets ht₁ hu₁ hp hd hupdates
  obtain ⟨ht₂, hu₂⟩ := hmakes₂.sound ht₁
  rw [hu₁] at hu₂
  rw [OrderedMap.insertAll_filter dir.values update dir.values.contains] at h₂
  have hdeletes : ∀ name ∈ delete.filter fun name => dir.values.contains name,
      Path.IsName name ∧ (dir.values.override update).contains name = true := by
    intro name hmem
    obtain ⟨hdel, hthere⟩ := List.mem_filter.1 hmem
    exact ⟨hdelete name hdel, OrderedMap.contains_insertAll _ hthere⟩
  obtain ⟨t₃, hmakes₃, h₃⟩ := h₂.makes_deletes ht₂ hu₂ hp hd (hnodup.filter _) hdeletes
  rw [OrderedMap.without_filter_override hdisjoint,
    ← OrderedMap.length_filter_keys update fun name => !dir.values.contains name] at h₃
  have hupdate' := fun o (ho : o ∈ update.toList) => h.has_child_iff (hname ho)
  have hdelete' := fun name hmem => h.has_child_iff (hdelete name hmem)
  exact ⟨t₃, Tree.makes_planned (fun v => v) hupdate' hdelete' hmakes₁ hmakes₂ hmakes₃, h₃,
    summary_planned (fun v => v) hupdate' hdelete'⟩

/-! ## New directories -/

theorem of_created (ht : t.Sound) (hp : Path.isValid d = true) (hd : d ≠ Path.root)
    (hmissing : ¬ t.Has d) : Holds (t.created d []) d ⟨.empty, 0⟩ := by
  have hnothing {q : String} (hbelow : Path.Below d q) : ¬ (t.created d []).Has q := by
    rw [has_created ht hp]
    rintro (rfl | ⟨_, habove⟩ | hhas)
    · exact Path.not_below_self _ hbelow
    · exact Path.not_below_self _ (Path.below_trans hbelow habove)
    · exact hmissing (ht.ancestor hp hhas hbelow)
  refine ⟨revision?_plant_self _ d [], fun name hname => ?_, fun name v h => ?_, fun q hq h => ?_⟩
  · exact value?_eq_none_iff.2 (hnothing (Path.below_child hd hname))
  · exact nomatch h
  · exact absurd hq (hnothing h)

/-- A directory that was just created can be filled. -/
theorem makes_fresh (h : Holds t d ⟨.empty, 0⟩) (ht : t.Sound) (hu : t.locked = none)
    (hp : Path.isValid d = true) (hd : d ≠ Path.root) {values : OrderedMap Bytes}
    (hnames : ∀ name ∈ values.keys, Path.IsName name) :
    ∃ t', Makes t (values.toList.map fun w => .create (d ++ "/" ++ w.1) w.2) t' ∧
      Holds t' d (.fresh values) := by
  obtain ⟨t', hmakes, h'⟩ := h.makes_creates ht hu hp hd values.nodup_keys
    fun w hw => ⟨hnames w.1 (List.mem_map_of_mem hw), rfl⟩
  have hvalues : OrderedMap.empty.insertAll values.toList = values := values.empty_override
  have hsize : 0 + values.toList.length = values.size := Nat.zero_add _
  rw [hvalues, hsize] at h'
  exact ⟨t', hmakes, h'⟩

/-! ## Listing a directory -/

theorem childPaths_eq (h : Holds t d dir) (ht : t.Sound) (hp : Path.isValid d = true)
    (hd : d ≠ Path.root) :
    t.childPaths d = dir.values.keys.map fun name => d ++ "/" ++ name := by
  have hascend := Path.pairwise_cut dir.values.pairwise_keys d
  have hnodup := OrderedMap.nodup_of_pairwise hascend
  refine List.Perm.eq_of_pairwise ?_ (pairwise_childPaths ht hp) hascend ?_
  · intro a b _ _ hab hba
    exact absurd (String.lt_trans hab hba) (String.lt_irrefl a)
  · rw [List.perm_ext_iff_of_nodup (nodup_childPaths ht hp) hnodup]
    intro c
    rw [mem_childPaths_iff ht hp, List.mem_map]
    constructor
    · rintro ⟨hhas, hparent⟩
      obtain ⟨_, name, hname, rfl⟩ := Path.exists_name_of_parent (ht.valid hhas) hparent
      rw [Path.childStart_of_ne hd] at hhas
      have hcontains := (h.has_child_iff hname).1 hhas
      refine ⟨name, OrderedMap.contains_iff_mem_keys.1 hcontains, ?_⟩
      rw [Path.childStart_of_ne hd]
    · rintro ⟨name, hkey, rfl⟩
      have hcontains := OrderedMap.contains_iff_mem_keys.2 hkey
      obtain ⟨v, hv⟩ := Option.isSome_iff_exists.1 hcontains
      have hname := h.names name v hv
      exact ⟨(h.has_child_iff hname).2 hcontains, Path.parent?_child hp hd hname⟩

theorem filterMap_eq_self {f : String → Option String} {l : List String}
    (h : ∀ name ∈ l, f name = some name) : l.filterMap f = l := by
  induction l with
  | nil => rfl
  | cons name rest ih =>
    obtain ⟨hname, hrest⟩ := List.forall_mem_cons.1 h
    rw [List.filterMap_cons, hname, ih hrest]

/-- Listing the children of a directory gives its names in order. -/
theorem map_name_nodesBelow (h : Holds t d dir) (ht : t.Sound) (hp : Path.isValid d = true)
    (hd : d ≠ Path.root) :
    (t.nodesBelow (fun _ => false) d).map Node.name = dir.values.keys := by
  have hnode {name : String} (hkey : name ∈ dir.values.keys) :
      (t.node? (d ++ "/" ++ name)).map Node.name = some name := by
    have hcontains := OrderedMap.contains_iff_mem_keys.2 hkey
    obtain ⟨v, hv⟩ := Option.isSome_iff_exists.1 hcontains
    have hname := h.names name v hv
    obtain ⟨c, hc⟩ := has_iff_get?.1 ((h.has_child_iff hname).2 hcontains)
    rw [node?, hc]
    exact congrArg some (Path.name_child hname)
  rw [nodesBelow_false, h.childPaths_eq ht hp hd, List.filterMap_map, List.map_filterMap]
  exact filterMap_eq_self fun name hkey => hnode hkey

end Holds

end Tree

end Coordination
