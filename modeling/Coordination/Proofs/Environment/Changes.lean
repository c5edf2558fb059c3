import Coordination.Proofs.Environment.Contents

/-!
# Changes of an environment

A change is admissible if it does not both write and delete a variable, if after its writes no
name continues another with a slash, and if it deletes no name that another name continues.
What is planned for an admissible change can be made, and pruning deletes the groups that its
deletions leave empty, and nothing else.
-/

namespace Coordination

/-- The names are relative paths, and none continues another with a slash. -/
def Env.WellFormed (env : Env) : Prop :=
  (∀ x ∈ env.keys, Path.IsRelative x) ∧
    ∀ x ∈ env.keys, ∀ y ∈ env.keys, Path.startsWith (x ++ "/") y = false

instance (env : Env) : Decidable env.WellFormed := inferInstanceAs (Decidable (_ ∧ _))

theorem Env.WellFormed.mono {env env' : Env} (h : env'.WellFormed)
    (hsub : ∀ x, env.contains x = true → env'.contains x = true) : env.WellFormed := by
  have hmem {x : String} (hx : x ∈ env.keys) : x ∈ env'.keys :=
    OrderedMap.contains_iff_mem_keys.1 (hsub x (OrderedMap.contains_iff_mem_keys.2 hx))
  exact ⟨fun x hx => h.1 x (hmem hx), fun x hx y hy => h.2 x (hmem hx) y (hmem hy)⟩

/-- Names without slashes do not continue one another. -/
theorem Env.wellFormed_of_names {env : Env} (h : ∀ x ∈ env.keys, Path.IsName x) :
    env.WellFormed := by
  refine ⟨fun x hx => (h x hx).isRelative, fun x _ y hy => Bool.eq_false_iff.2 fun hstart => ?_⟩
  obtain ⟨rest, rfl⟩ := Path.exists_append_of_startsWith hstart
  exact (h _ hy).2 (by simp)

namespace EnvChange

/-- The change neither writes below a variable nor deletes what is above one, and does not
both write and delete one. -/
def Admissible (c : EnvChange) (env : Env) : Prop :=
  (∀ x ∈ c.update.keys, x ∉ c.delete.keys) ∧ Env.WellFormed (env.override c.update) ∧
    ∀ x ∈ c.delete.keys, Path.IsRelative x ∧
      ∀ y ∈ (env.override c.update).keys, Path.startsWith (x ++ "/") y = false

instance (c : EnvChange) (env : Env) : Decidable (c.Admissible env) :=
  inferInstanceAs (Decidable (_ ∧ _ ∧ _))

/-- The variables after the change: without the deleted ones, and with the written ones. -/
def applyTo (c : EnvChange) (env : Env) : Env := (env.without c.delete.keys).override c.update

/-- How many variables the change adds, overwrites and takes away. -/
def summary (c : EnvChange) (env : Env) : ChangeSummary := .count env c.update c.delete.keys

theorem get?_applyTo (c : EnvChange) (env : Env) (x : String) :
    (c.applyTo env).get? x =
      (c.update.get? x).or (if x ∈ c.delete.keys then none else env.get? x) := by
  rw [applyTo, OrderedMap.get?_override, OrderedMap.get?_without]

theorem mem_override_of_contains (c : EnvChange) {env : Env} {x : String}
    (h : env.contains x = true) : x ∈ (env.override c.update).keys :=
  OrderedMap.contains_iff_mem_keys.1 (OrderedMap.contains_insertAll _ h)

theorem mem_override {c : EnvChange} (env : Env) {x v : String}
    (h : c.update.get? x = some v) : x ∈ (env.override c.update).keys := by
  refine OrderedMap.contains_iff_mem_keys.1 ?_
  rw [OrderedMap.contains, OrderedMap.get?_override, h]
  rfl

/-- The names that a change leaves are names of before or written. -/
theorem mem_override_of_applyTo {c : EnvChange} {env : Env} {x : String}
    (h : (c.applyTo env).contains x = true) : x ∈ (env.override c.update).keys := by
  cases hx : c.update.get? x with
  | some v => exact mem_override env hx
  | none =>
    rw [OrderedMap.contains, get?_applyTo, hx, Option.none_or] at h
    split at h
    · cases h
    · exact mem_override_of_contains c h

/-- Where no name is both written and deleted, it does not matter what is done first. -/
theorem without_override {c : EnvChange} (h : ∀ x ∈ c.update.keys, x ∉ c.delete.keys)
    (env : Env) : (env.override c.update).without c.delete.keys = c.applyTo env := by
  refine OrderedMap.ext_get? fun x => ?_
  rw [get?_applyTo, OrderedMap.get?_without, OrderedMap.get?_override]
  by_cases hx : x ∈ c.delete.keys
  · have hnot : c.update.get? x = none := by
      rw [← OrderedMap.contains_eq_false_iff, Bool.eq_false_iff]
      exact fun hcontains => h x (OrderedMap.contains_iff_mem_keys.1 hcontains) hx
    rw [if_pos hx, if_pos hx, hnot]
    rfl
  · rw [if_neg hx, if_neg hx]

/-- An empty change leaves the variables as they are, and counts nothing. -/
theorem of_isEmpty {c : EnvChange} (h : c.isEmpty = true) (env : Env) :
    c.applyTo env = env ∧ c.summary env = ⟨0, 0, 0⟩ := by
  obtain ⟨⟨update, hupdate⟩, ⟨delete, hdelete⟩⟩ := c
  obtain ⟨hu, hd⟩ : update = [] ∧ delete = [] := by
    simpa [isEmpty, OrderedMap.isEmpty] using h
  subst hu hd
  exact ⟨rfl, rfl⟩

end EnvChange

namespace Tree.Contains

variable {t : Tree} {d : String} {env : Env} {idle : List String}

/-! ## Batches -/

theorem makes_creates (h : t.Contains d env []) (hd : d ≠ Path.root)
    {l : List (String × String)} (hl : (l.map (·.1)).Nodup)
    (hmissing : ∀ w ∈ l, env.contains w.1 = false) (hwf : Env.WellFormed (env.insertAll l)) :
    ∃ t', Makes t (l.map fun w => .create (d ++ "/" ++ w.1) (Text.Utf8.encode w.2)) t' ∧
      t'.Contains d (env.insertAll l) [] := by
  induction l generalizing t env with
  | nil => exact ⟨t, .nil t, h⟩
  | cons w rest ih =>
    obtain ⟨hnone, hrest⟩ := List.forall_mem_cons.1 hmissing
    rw [List.map_cons, List.nodup_cons] at hl
    have hkey : w.1 ∈ (env.insertAll (w :: rest)).keys :=
      OrderedMap.contains_iff_mem_keys.1
        (OrderedMap.contains_insertAll rest (OrderedMap.contains_insert.2 (Or.inl rfl)))
    have hkeys {y : String} (hy : env.contains y = true) :
        y ∈ (env.insertAll (w :: rest)).keys :=
      OrderedMap.contains_iff_mem_keys.1 (OrderedMap.contains_insertAll _ hy)
    have hx := hwf.1 w.1 hkey
    have hp := Path.isValid_cut h.valid hd hx
    have habsent : ¬ t.Has (d ++ "/" ++ w.1) := by
      rw [h.has_iff hd hx fun y hy => hwf.2 w.1 hkey y (hkeys hy), hnone]
      exact Bool.false_ne_true
    have habove : ∀ y, env.contains y = true →
        ¬ Path.Below (d ++ "/" ++ y) (d ++ "/" ++ w.1) := by
      intro y hy
      rw [Path.below_cut_iff hd (h.relative y hy).ne_empty hx.ne_empty,
        hwf.2 y (hkeys hy) w.1 hkey]
      exact Bool.false_ne_true
    obtain ⟨n, hcreate⟩ :=
      respond_create_of_not_has h.unlocked hp habsent (Text.Utf8.encode w.2)
    have hrest' : ∀ u ∈ rest, (env.insert w.1 w.2).contains u.1 = false := by
      intro u hu
      rw [Bool.eq_false_iff, ne_eq, OrderedMap.contains_insert, hrest u hu]
      rintro (heq | hnot)
      · exact hl.1 (heq ▸ List.mem_map_of_mem hu)
      · cases hnot
    obtain ⟨t', hmakes, ht'⟩ := ih (h.created hd hx habsent habove w.2) hl.2 hrest' hwf
    exact ⟨t', .cons hcreate hmakes, ht'⟩

theorem makes_sets (h : t.Contains d env idle) {l : List (String × String)}
    (hthere : ∀ w ∈ l, env.contains w.1 = true) :
    ∃ t', Makes t (l.map fun w => .set (d ++ "/" ++ w.1) (Text.Utf8.encode w.2)) t' ∧
      t'.Contains d (env.insertAll l) idle := by
  induction l generalizing t env with
  | nil => exact ⟨t, .nil t, h⟩
  | cons w rest ih =>
    obtain ⟨hsome, hrest⟩ := List.forall_mem_cons.1 hthere
    have hhas := h.has_variable hsome
    obtain ⟨c, hc⟩ := has_iff_get?.1 hhas
    obtain ⟨n, hset⟩ :=
      respond_set_of_get? h.unlocked (h.sound.valid hhas) hc (Text.Utf8.encode w.2)
    have hrest' : ∀ u ∈ rest, (env.insert w.1 w.2).contains u.1 = true := fun u hu =>
      OrderedMap.contains_insert.2 (Or.inr (hrest u hu))
    obtain ⟨t', hmakes, ht'⟩ := ih (h.written hsome hc w.2) hrest'
    exact ⟨t', .cons hset hmakes, ht'⟩

/-- Variables can be deleted one after another; the groups that they were in are idle then. -/
theorem makes_deletes (h : t.Contains d env idle) (hd : d ≠ Path.root) {names : List String}
    (hnodup : names.Nodup) (hthere : ∀ x ∈ names, env.contains x = true)
    (hidle : ∀ x ∈ names, ∀ g, Path.parent? (d ++ "/" ++ x) = some g → g ∈ idle) :
    ∃ t', Makes t (names.map fun x => .delete (d ++ "/" ++ x)) t' ∧
      t'.Contains d (env.without names) idle := by
  induction names generalizing t env with
  | nil => exact ⟨t, .nil t, h⟩
  | cons x rest ih =>
    obtain ⟨hx, hrest⟩ := List.forall_mem_cons.1 hthere
    obtain ⟨hgroup, hgroups⟩ := List.forall_mem_cons.1 hidle
    rw [List.nodup_cons] at hnodup
    have hhas := h.has_variable hx
    have hvalid := h.sound.valid hhas
    have hbelow := Path.below_cut hd (h.relative x hx).ne_empty
    have hleaf := h.leaf x hx
    obtain ⟨g, _, _, _, _, hparent⟩ := Path.exists_parent hvalid hbelow.1
    have hdelete := respond_delete_of_leaf h.unlocked hvalid hhas hparent hleaf
    have hcontains : (t.removed (d ++ "/" ++ x) g).Contains d (env.erase x) idle := by
      refine (h.removed_variable hd hx hparent).mono fun q hq => ?_
      rcases List.mem_cons.1 hq with rfl | hq
      · exact hgroup q hparent
      · exact hq
    have hrest' : ∀ y ∈ rest, (env.erase x).contains y = true := by
      intro y hy
      refine OrderedMap.contains_erase.2 ⟨?_, hrest y hy⟩
      rintro rfl
      exact hnodup.1 hy
    obtain ⟨t', hmakes, ht'⟩ := ih hcontains hnodup.2 hrest' hgroups
    exact ⟨t', .cons hdelete hmakes, ht'⟩

section

variable (hd : d ≠ Path.root) {c : EnvChange}

include hd

/-- The variables tell what an admissible change creates, sets and deletes. -/
theorem has_iff_of_admissible (h : t.Contains d env []) (hc : c.Admissible env) :
    (∀ o ∈ c.update.toList, (t.Has (d ++ "/" ++ o.1) ↔ env.contains o.1 = true)) ∧
      ∀ x ∈ c.delete.keys, (t.Has (d ++ "/" ++ x) ↔ env.contains x = true) := by
  obtain ⟨_, hwf, hdelete⟩ := hc
  constructor
  · intro o ho
    have hkey := EnvChange.mem_override env (OrderedMap.get?_eq_some_iff.2 ho)
    exact h.has_iff hd (hwf.1 o.1 hkey) fun y hy =>
      hwf.2 o.1 hkey y (EnvChange.mem_override_of_contains c hy)
  · intro x hx
    exact h.has_iff hd (hdelete x hx).1 fun y hy =>
      (hdelete x hx).2 y (EnvChange.mem_override_of_contains c hy)

/-- What is planned for an admissible change can be made; of the groups that it deletes from
some may be empty then. -/
theorem makes_planned (h : t.Contains d env []) (hc : c.Admissible env) :
    let b := t.planned (c.update.toList.map fun o => (d ++ "/" ++ o.1, Text.Utf8.encode o.2))
      (c.delete.keys.map fun x => d ++ "/" ++ x)
    ∃ t', Makes t b.calls t' ∧ t'.Contains d (c.applyTo env) (b.deletes.filterMap Path.parent?) ∧
      b.summary = c.summary env := by
  obtain ⟨hupdate', hdelete'⟩ := h.has_iff_of_admissible hd hc
  obtain ⟨hdisjoint, hwf, _⟩ := hc
  have hfilter := OrderedMap.insertAll_filter env c.update env.contains
  obtain ⟨t₁, hmakes₁, h₁⟩ := h.makes_creates hd
    ((List.filter_sublist.map _).nodup c.update.nodup_keys)
    (fun w hw => by simpa using (List.mem_filter.1 hw).2)
    (hwf.mono fun x hx => hfilter ▸ OrderedMap.contains_insertAll _ hx)
  obtain ⟨t₂, hmakes₂, h₂⟩ := h₁.makes_sets fun w hw =>
    OrderedMap.contains_insertAll _ (List.mem_filter.1 hw).2
  rw [hfilter] at h₂
  obtain ⟨t₃, hmakes₃, h₃⟩ := (h₂.mono fun _ hg => nomatch hg).makes_deletes hd
    (c.delete.nodup_keys.filter fun x => env.contains x)
    (fun x hx => OrderedMap.contains_insertAll _ (List.mem_filter.1 hx).2)
    fun x hx g hg => List.mem_filterMap.2 ⟨_, List.mem_map_of_mem hx, hg⟩
  rw [OrderedMap.without_filter_override hdisjoint, EnvChange.without_override hdisjoint] at h₃
  refine ⟨t₃, Tree.makes_planned _ hupdate' hdelete' hmakes₁ hmakes₂ hmakes₃, ?_,
    summary_planned _ hupdate' hdelete'⟩
  rw [planned_eq _ hupdate' hdelete']
  exact h₃

/-- Whatever an admissible change deletes was a variable, and is below none afterwards. -/
theorem not_below_of_mem_deletes (h : t.Contains d env []) (hc : c.Admissible env)
    {writes : List (String × Bytes)} {p : String}
    (hp : p ∈ (t.planned writes (c.delete.keys.map fun x => d ++ "/" ++ x)).deletes) :
    Path.isValid p = true ∧ ∀ y, (c.applyTo env).contains y = true →
      ¬ Path.Below (d ++ "/" ++ y) p := by
  obtain ⟨hmem, hhas⟩ := List.mem_filter.1 hp
  obtain ⟨x, hx, rfl⟩ := List.mem_map.1 hmem
  have hhas' : t.Has (d ++ "/" ++ x) := by simpa using hhas
  have hkey := EnvChange.mem_override_of_contains c
    (((h.has_iff_of_admissible hd hc).2 x hx).1 hhas')
  refine ⟨h.sound.valid hhas', fun y hy => ?_⟩
  have hykey := EnvChange.mem_override_of_applyTo hy
  rw [Path.below_cut_iff hd (hc.2.1.1 y hykey).ne_empty (hc.2.1.1 x hkey).ne_empty,
    hc.2.1.2 y hykey x hkey]
  exact Bool.false_ne_true

end

/-! ## Pruning -/

/-- Pruning after the deletion of paths that no variable is above leaves no group empty, and
all variables as they are. -/
theorem run_pruneGroups (hd : d ≠ Path.root) {paths : List String}
    (hpaths : ∀ p ∈ paths, Path.isValid p = true ∧
      ∀ x, env.contains x = true → ¬ Path.Below (d ++ "/" ++ x) p)
    (h : t.Contains d env (paths.filterMap Path.parent?)) :
    ∃ n t', t.run (Registry.pruneGroups d paths).run = (.ok n, t') ∧ t'.Contains d env [] := by
  have hrecords : t.Records d env fun g => g ∈ [] ∨ ∃ p ∈ paths, Path.parent? p = some g :=
    h.records.mono fun g hg => Or.inr (List.mem_filterMap.1 hg)
  obtain ⟨n, t', env', hrun, ht', hpruned, hkept⟩ :=
    hrecords.run_pruneGroups hd fun p hp => (hpaths p hp).1
  have hsame : env' = env := hpruned.eq fun x hx ⟨p, hp, hbelow⟩ => (hpaths p hp).2 x hx hbelow
  subst hsame
  refine ⟨n, t', hrun, .of_records ht' fun x hx => ?_⟩
  rw [ht'.sound.childless_iff (ht'.sound.valid (ht'.has_variable hx))]
  exact fun c hc => h.not_below_variable hx (hkept c hc)

end Tree.Contains

end Coordination
