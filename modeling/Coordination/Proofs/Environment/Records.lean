import Coordination.Proofs.Registry.Standard
import Coordination.Proofs.Tree.Revision

/-!
# What is recorded below the root of an environment

Nodes below the root of an environment are recorded as variables, each with its value, or are
groups with the empty value. A variable may have nodes below it: nothing keeps a name from
continuing another one. A group has something below it, unless it is listed as idle, which it is
from when its last node is deleted until it is pruned. Every single write below the root keeps
such a record, whichever name it is for.
-/

namespace Coordination.Tree

/-- The nodes below `d` are the variables and groups; only idle groups may be empty. -/
structure Records (t : Tree) (d : String) (env : Env) (idle : String → Prop) : Prop where
  sound : t.Sound
  unlocked : t.locked = none
  there : t.Has d
  relative : ∀ x, env.contains x = true → Path.IsRelative x
  value : ∀ x v, env.get? x = some v → t.value? (d ++ "/" ++ x) = some (Text.Utf8.encode v)
  group : ∀ q, t.Has q → Path.Below d q →
    (∃ x, env.contains x = true ∧ q = d ++ "/" ++ x) ∨
      (t.value? q = some [] ∧ (t.childPaths q ≠ [] ∨ idle q))

namespace Records

variable {t : Tree} {d : String} {env : Env} {idle : String → Prop} {x : String}

theorem valid (h : t.Records d env idle) : Path.isValid d = true := h.sound.valid h.there

theorem has_variable (h : t.Records d env idle) (hx : env.contains x = true) :
    t.Has (d ++ "/" ++ x) := by
  obtain ⟨v, hv⟩ := Option.isSome_iff_exists.1 hx
  exact has_iff_value?.2 ⟨_, h.value x v hv⟩

theorem mono {idle' : String → Prop} (h : t.Records d env idle)
    (hidle : ∀ g, idle g → idle' g) : t.Records d env idle' :=
  { h with group := fun q hq hbelow => (h.group q hq hbelow).imp_right fun hgroup =>
      ⟨hgroup.1, hgroup.2.imp_right (hidle q)⟩ }

/-! ## Single writes -/

/-- A new environment has no variables. -/
theorem of_created (ht : t.Sound) (hu : t.locked = none) (hd : Path.isValid d = true)
    (hmissing : ¬ t.Has d) (idle : String → Prop) {v : Bytes} :
    (t.created d v).Records d .empty idle where
  sound := sound_created ht hd v
  unlocked := (locked_created t d v).trans hu
  there := (has_created ht hd).2 (Or.inl rfl)
  relative _ hx := nomatch hx
  value _ _ hv := nomatch hv
  group q hq hbelow := by
    rcases (has_created ht hd).1 hq with rfl | ⟨_, habove⟩ | hhas
    · exact absurd hbelow (Path.not_below_self q)
    · exact absurd (Path.below_trans hbelow habove) (Path.not_below_self d)
    · exact absurd (ht.ancestor hd hhas hbelow) hmissing

/-- A variable can be created where no node is. -/
theorem created (h : t.Records d env idle) (hd : d ≠ Path.root) (hx : Path.IsRelative x)
    (hmissing : ¬ t.Has (d ++ "/" ++ x)) (v : String) :
    (t.created (d ++ "/" ++ x) (Text.Utf8.encode v)).Records d (env.insert x v) idle := by
  have hp := Path.isValid_cut h.valid hd hx
  have hsound := sound_created h.sound hp (Text.Utf8.encode v)
  have hvalue {q : String} (hq : t.Has q) :=
    value?_created_of_has h.sound hp hmissing (Text.Utf8.encode v) hq
  refine ⟨hsound, (locked_created t _ _).trans h.unlocked, ?_, fun y hy => ?_, fun y w hy => ?_,
    fun q hq hbelow => ?_⟩
  · exact (has_created h.sound hp).2 (Or.inr (Or.inr h.there))
  · rcases OrderedMap.contains_insert.1 hy with rfl | hy
    · exact hx
    · exact h.relative y hy
  · rw [OrderedMap.get?_insert] at hy
    split at hy
    · rename_i heq
      cases hy
      rw [heq, value?_created h.sound hp, if_pos rfl]
    · have hcontains : env.contains y = true := by rw [OrderedMap.contains, hy]; rfl
      rw [hvalue (h.has_variable hcontains), h.value y w hy]
  · by_cases hhas : t.Has q
    · rcases h.group q hhas hbelow with ⟨y, hy, heq⟩ | ⟨hempty, hstays⟩
      · exact Or.inl ⟨y, OrderedMap.contains_insert.2 (Or.inr hy), heq⟩
      · refine Or.inr ⟨(hvalue hhas).trans hempty, ?_⟩
        exact hstays.imp_left (childPaths_created_ne_nil h.sound hp _ hhas)
    · rcases (has_created h.sound hp).1 hq with hself | ⟨hvalid, hqx⟩ | hold
      · exact Or.inl ⟨x, OrderedMap.contains_insert.2 (Or.inl rfl), hself⟩
      · refine Or.inr ⟨?_, Or.inl fun hnil => ?_⟩
        · rw [value?_created h.sound hp, if_neg hqx.ne, if_pos ⟨hvalid, hqx, hhas⟩]
        · rw [hsound.childless_iff hvalid] at hnil
          exact hnil _ ((has_created h.sound hp).2 (Or.inl rfl)) hqx
      · exact absurd hold hhas

/-- The value of a node can be set, which makes a variable of it if it was a group. -/
theorem written (h : t.Records d env idle) (hx : Path.IsRelative x) {c : Cell}
    (hc : t.cells.get? (d ++ "/" ++ x) = some c) (v : String) :
    (t.written (d ++ "/" ++ x) c (Text.Utf8.encode v)).Records d (env.insert x v) idle := by
  have hsound := sound_written h.sound hc (Text.Utf8.encode v)
  have hchildren {q : String} (hq : Path.isValid q = true) :
      (t.written (d ++ "/" ++ x) c (Text.Utf8.encode v)).childPaths q = t.childPaths q :=
    (childPaths_eq_iff h.sound hsound hq).2 fun _ _ => has_written hc
  refine ⟨hsound, h.unlocked, (has_written hc).2 h.there, fun y hy => ?_, fun y w hy => ?_,
    fun q hq hbelow => ?_⟩
  · rcases OrderedMap.contains_insert.1 hy with rfl | hy
    · exact hx
    · exact h.relative y hy
  · rw [value?_written]
    rw [OrderedMap.get?_insert] at hy
    by_cases heq : y = x
    · rw [if_pos heq] at hy
      cases hy
      rw [heq, if_pos rfl]
    · rw [if_neg heq] at hy
      rw [if_neg fun hpath => heq (Path.append_left_cancel hpath), h.value y w hy]
  · rw [has_written hc] at hq
    rw [hchildren (h.sound.valid hq), value?_written]
    by_cases hself : q = d ++ "/" ++ x
    · exact Or.inl ⟨x, OrderedMap.contains_insert.2 (Or.inl rfl), hself⟩
    · rw [if_neg hself]
      rcases h.group q hq hbelow with ⟨y, hy, heq⟩ | hgroup
      · exact Or.inl ⟨y, OrderedMap.contains_insert.2 (Or.inr hy), heq⟩
      · exact Or.inr hgroup

/-- A node without children can be deleted; the group that it was in may be empty then. -/
theorem removed (h : t.Records d env idle) {p parent : String} (hp : t.Has p)
    (hparent : Path.parent? p = some parent) (hleaf : t.childPaths p = []) (hne : p ≠ d)
    {env' : Env} (henv : ∀ y, env'.get? y = if d ++ "/" ++ y = p then none else env.get? y) :
    (t.removed p parent).Records d env' fun g => g = parent ∨ (idle g ∧ g ≠ p) := by
  have hsound := sound_removed h.sound hp hparent hleaf
  have hcontains {y : String} : env'.contains y = true ↔
      d ++ "/" ++ y ≠ p ∧ env.contains y = true := by
    rw [OrderedMap.contains, henv]
    by_cases heq : d ++ "/" ++ y = p
    · rw [if_pos heq]
      exact iff_of_false Bool.false_ne_true fun hnot => hnot.1 heq
    · rw [if_neg heq]
      exact (and_iff_right heq).symm
  refine ⟨hsound, h.unlocked, has_removed.2 ⟨hne.symm, h.there⟩, fun y hy => ?_,
    fun y w hy => ?_, fun q hq hbelow => ?_⟩
  · exact h.relative y (hcontains.1 hy).2
  · rw [henv] at hy
    split at hy
    · cases hy
    · rename_i hyp
      rw [value?_removed, if_neg hyp, h.value y w hy]
  · obtain ⟨hqp, hhas⟩ := has_removed.1 hq
    rcases h.group q hhas hbelow with ⟨y, hy, heq⟩ | ⟨hempty, hstays⟩
    · exact Or.inl ⟨y, hcontains.2 ⟨heq ▸ hqp, hy⟩, heq⟩
    · refine Or.inr ⟨?_, ?_⟩
      · rw [value?_removed, if_neg hqp, hempty]
      · by_cases heq : q = parent
        · exact Or.inr (Or.inl heq)
        · exact hstays.imp (childPaths_removed_ne_nil h.sound hp hparent hleaf
            (h.sound.valid hhas) heq) fun hidle => Or.inr ⟨hidle, hqp⟩

/-- The variables that are left when the node of a path is removed. -/
theorem get?_erase_path (env : Env) (x y : String) :
    (env.erase x).get? y = if d ++ "/" ++ y = d ++ "/" ++ x then none else env.get? y := by
  rw [OrderedMap.get?_erase]
  by_cases heq : y = x
  · rw [if_pos heq, if_pos (by rw [heq])]
  · rw [if_neg heq, if_neg fun hpath => heq (Path.append_left_cancel hpath)]

end Records

end Coordination.Tree
