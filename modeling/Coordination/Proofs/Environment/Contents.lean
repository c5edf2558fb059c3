import Coordination.Proofs.Environment.Pruning

/-!
# What an environment's nodes hold

Below the root of an environment a node is a variable, which has its value and nothing below
it, or a group, which has the empty value and something below it. Names of variables are
relative paths, and a group stands wherever one of them has a slash. While variables are
deleted some groups may be empty; they are listed until they are pruned. Creating, setting and
deleting a variable keep this invariant.
-/

namespace Coordination

namespace Tree

/-- The nodes below `d` are the variables and their groups; only the listed groups may be
empty. -/
structure Contains (t : Tree) (d : String) (env : Env) (idle : List String) : Prop where
  sound : t.Sound
  unlocked : t.locked = none
  there : t.Has d
  relative : ∀ x, env.contains x = true → Path.IsRelative x
  value : ∀ x v, env.get? x = some v → t.value? (d ++ "/" ++ x) = some (Text.Utf8.encode v)
  leaf : ∀ x, env.contains x = true → t.childPaths (d ++ "/" ++ x) = []
  group : ∀ q, t.Has q → Path.Below d q →
    (∃ x, env.contains x = true ∧ q = d ++ "/" ++ x) ∨
      (t.value? q = some [] ∧ (t.childPaths q ≠ [] ∨ q ∈ idle))

namespace Contains

variable {t : Tree} {d : String} {env : Env} {idle : List String} {x : String}

/-- Variables without anything below them are recorded, and nothing is below them. -/
theorem records (h : t.Contains d env idle) : t.Records d env (· ∈ idle) :=
  ⟨h.sound, h.unlocked, h.there, h.relative, h.value, h.group⟩

theorem of_records (h : t.Records d env (· ∈ idle))
    (leaf : ∀ x, env.contains x = true → t.childPaths (d ++ "/" ++ x) = []) :
    t.Contains d env idle :=
  ⟨h.sound, h.unlocked, h.there, h.relative, h.value, leaf, h.group⟩

theorem valid (h : t.Contains d env idle) : Path.isValid d = true := h.records.valid

theorem has_variable (h : t.Contains d env idle) (hx : env.contains x = true) :
    t.Has (d ++ "/" ++ x) := h.records.has_variable hx

/-- Nothing is below a variable. -/
theorem not_below_variable (h : t.Contains d env idle) (hx : env.contains x = true)
    {q : String} (hq : t.Has q) : ¬ Path.Below (d ++ "/" ++ x) q :=
  (h.sound.childless_iff (h.sound.valid (h.has_variable hx))).1 (h.leaf x hx) q hq

/-- Where no group is empty, the nodes without children are the variables. -/
theorem childless_iff (h : t.Contains d env []) (hd : d ≠ Path.root) {q : String} :
    (t.Has q ∧ Path.Below d q ∧ t.childPaths q = []) ↔
      ∃ x, env.contains x = true ∧ q = d ++ "/" ++ x := by
  constructor
  · rintro ⟨hq, hbelow, hnil⟩
    rcases h.group q hq hbelow with hvariable | ⟨_, hchildren | hidle⟩
    · exact hvariable
    · exact absurd hnil hchildren
    · cases hidle
  · rintro ⟨x, hx, rfl⟩
    exact ⟨h.has_variable hx, Path.below_cut hd (h.relative x hx).ne_empty, h.leaf x hx⟩

/-- A name that no variable continues has a node exactly if it is a variable. -/
theorem has_iff (h : t.Contains d env []) (hd : d ≠ Path.root) (hx : Path.IsRelative x)
    (hbelow : ∀ y, env.contains y = true → Path.startsWith (x ++ "/") y = false) :
    t.Has (d ++ "/" ++ x) ↔ env.contains x = true := by
  refine ⟨fun hhas => ?_, h.has_variable⟩
  obtain ⟨q, hq, hnil, hxq⟩ := h.sound.exists_leaf hhas
  have hdx := Path.below_cut hd hx.ne_empty
  have hdq : Path.Below d q := by
    rcases hxq with rfl | hxq
    · exact hdx
    · exact Path.below_trans hdx hxq
  obtain ⟨y, hy, rfl⟩ := (h.childless_iff hd).1 ⟨hq, hdq, hnil⟩
  rcases hxq with heq | hxq
  · rw [← Path.append_left_cancel heq]
    exact hy
  · rw [Path.below_cut_iff hd hx.ne_empty (h.relative y hy).ne_empty, hbelow y hy] at hxq
    cases hxq

theorem mono {idle' : List String} (h : t.Contains d env idle)
    (hidle : ∀ g ∈ idle, g ∈ idle') : t.Contains d env idle' :=
  .of_records (h.records.mono hidle) h.leaf

/-! ## Single writes -/

/-- A new environment has no variables. -/
theorem of_created (ht : t.Sound) (hu : t.locked = none) (hd : Path.isValid d = true)
    (hmissing : ¬ t.Has d) (v : Bytes) : (t.created d v).Contains d .empty [] :=
  .of_records (.of_created ht hu hd hmissing _) fun _ hx => nomatch hx

/-- A variable can be created where no node is and no variable is above. -/
theorem created (h : t.Contains d env idle) (hd : d ≠ Path.root) (hx : Path.IsRelative x)
    (hmissing : ¬ t.Has (d ++ "/" ++ x))
    (habove : ∀ y, env.contains y = true → ¬ Path.Below (d ++ "/" ++ y) (d ++ "/" ++ x))
    (v : String) :
    (t.created (d ++ "/" ++ x) (Text.Utf8.encode v)).Contains d (env.insert x v) idle := by
  have hrecords := h.records.created hd hx hmissing v
  refine .of_records hrecords fun y hy => ?_
  have hp := Path.isValid_cut h.valid hd hx
  have hvalid := Path.isValid_cut h.valid hd (hrecords.relative y hy)
  rcases OrderedMap.contains_insert.1 hy with rfl | hy
  · exact childPaths_created_eq_nil h.sound hp _ hvalid
      (fun c hc hbelow => hmissing (h.sound.ancestor hp hc hbelow)) (Path.not_below_self _)
  · exact childPaths_created_eq_nil h.sound hp _ hvalid
      (fun c hc => h.not_below_variable hy hc) (habove y hy)

/-- The value of a variable can be set. -/
theorem written (h : t.Contains d env idle) (hx : env.contains x = true) {c : Cell}
    (hc : t.cells.get? (d ++ "/" ++ x) = some c) (v : String) :
    (t.written (d ++ "/" ++ x) c (Text.Utf8.encode v)).Contains d (env.insert x v) idle := by
  have hrecords := h.records.written (h.relative x hx) hc v
  refine .of_records hrecords fun y hy => ?_
  have hy' : env.contains y = true := by
    rcases OrderedMap.contains_insert.1 hy with rfl | hy
    · exact hx
    · exact hy
  rw [(childPaths_eq_iff h.sound hrecords.sound (h.sound.valid (h.has_variable hy'))).2
    fun _ _ => has_written hc, h.leaf y hy']

/-- A variable can be deleted; the group that it was in may be empty then. -/
theorem removed_variable (h : t.Contains d env idle) (hd : d ≠ Path.root)
    (hx : env.contains x = true) {g : String} (hparent : Path.parent? (d ++ "/" ++ x) = some g) :
    (t.removed (d ++ "/" ++ x) g).Contains d (env.erase x) (g :: idle) := by
  have hhas := h.has_variable hx
  have hne := (Path.below_cut hd (h.relative x hx).ne_empty).ne.symm
  have hrecords := h.records.removed hhas hparent (h.leaf x hx) hne
    (Records.get?_erase_path env x)
  refine .of_records (hrecords.mono fun q hq => ?_) fun y hy => ?_
  · rcases hq with rfl | ⟨hq, _⟩
    · exact List.mem_cons_self
    · exact List.mem_cons_of_mem _ hq
  · obtain ⟨_, hy'⟩ := OrderedMap.contains_erase.1 hy
    exact childPaths_removed_eq_nil h.sound hhas hparent (h.leaf x hx)
      (h.sound.valid (h.has_variable hy')) (h.leaf y hy')

end Contains

end Tree

end Coordination
