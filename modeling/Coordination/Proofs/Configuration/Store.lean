import Coordination.Proofs.Configuration.Requests
import Coordination.Proofs.Tree.Directory

/-!
# Configuration as independent maps

What clients may take the configuration tiers for: for every kind and scope either nothing or
a finite map from names to bytes with a revision, each on its own. Only reading falls back
from one tier to another.
-/

namespace Coordination

/-- What every tier holds, if it exists. -/
abbrev ConfStore := ConfKind → Scope → Option Directory

namespace ConfStore

/-- No tier exists. -/
def empty : ConfStore := fun _ _ => none

/-- The store with one tier replaced. -/
def put (m : ConfStore) (kind : ConfKind) (scope : Scope) (dir : Directory) : ConfStore :=
  fun kind' scope' => if kind' = kind ∧ scope' = scope then some dir else m kind' scope'

/-- The names of a tier in order, and its revision. -/
def list (m : ConfStore) (kind : ConfKind) (scope : Scope) :
    Except RegistryError (List String × Nat) :=
  match m kind scope with
  | none => .error (.notFound (scope.path kind))
  | some dir => .ok (dir.values.keys, dir.revision)

/-- An object of one tier. -/
def read (m : ConfStore) (kind : ConfKind) (scope : Scope) (name : String) :
    Except RegistryError ConfObject :=
  match m kind scope with
  | none => .error (.notFound (scope.path kind))
  | some dir =>
    match dir.values.get? name with
    | none => .error (.notFound (scope.objectPath kind name))
    | some data => .ok ⟨name, data, scope.tier, dir.revision⟩

/-- An object of the tier, or else of the tier behind it if there is one. -/
def get (m : ConfStore) (kind : ConfKind) (scope : Scope) (name : String) :
    Except RegistryError ConfObject :=
  match m.read kind scope name, scope.fallback? with
  | .ok o, _ => .ok o
  | .error _, some base => m.read kind base name
  | .error e, none => .error e

/-- What a store answers to a request, and the store afterwards. -/
def serve (m : ConfStore) : ConfRequest → Except RegistryError Answer × ConfStore
  | .list kind scope => ((m.list kind scope).map fun l => .names l.1 l.2, m)
  | .get kind scope name => ((m.get kind scope name).map .object, m)
  | .new kind scope objects =>
    match m kind scope with
    | some _ => (.error (.conflict (scope.path kind) .exists), m)
    | none => (.ok (.number objects.size), m.put kind scope (.fresh objects))
  | .save kind scope change expected =>
    match m kind scope with
    | none => (.error (.notFound (scope.path kind)), m)
    | some dir =>
      if dir.revision = expected then
        (.ok (.summary (dir.summary change.update change.delete.keys)),
          m.put kind scope (dir.change change.update change.delete.keys))
      else (.error (.conflict (scope.path kind) (.revision expected dir.revision)), m)
  | .delete kind scope name expected =>
    match m kind scope with
    | none => (.error (.notFound (scope.path kind)), m)
    | some dir =>
      if dir.revision = expected then
        if dir.values.contains name then
          (.ok (.number (dir.revision + 1)),
            m.put kind scope ⟨dir.values.erase name, dir.revision + 1⟩)
        else (.error (.notFound (scope.objectPath kind name)), m)
      else (.error (.conflict (scope.path kind) (.revision expected dir.revision)), m)

/-- The store after requests. -/
def after (m : ConfStore) : List ConfRequest → ConfStore
  | [] => m
  | q :: rest => (m.serve q).2.after rest

end ConfStore

namespace ConfRequest

/-- Only proper names and scopes occur, and a save does not both write and delete an object. -/
def Admissible (q : ConfRequest) : Prop :=
  q.Proper ∧
    match q with
    | .save _ _ change _ => ∀ name ∈ change.update.keys, name ∉ change.delete.keys
    | _ => True

instance (q : ConfRequest) : Decidable q.Admissible := by
  cases q <;> unfold Admissible <;> infer_instance

end ConfRequest

/-! ## Trees that represent a store -/

/-- The tree holds every tier of the store, and no other. -/
structure Tree.Represents (t : Tree) (m : ConfStore) : Prop where
  sound : t.Sound
  unlocked : t.locked = none
  absent : ∀ kind scope, scope.Named → m kind scope = none → ¬ t.Has (scope.path kind)
  present : ∀ kind scope dir, scope.Named → m kind scope = some dir →
    t.Holds (scope.path kind) dir

namespace Tree

theorem represents_empty : empty.Represents .empty where
  sound := sound_empty
  unlocked := rfl
  absent kind scope hscope _ := by
    rw [has_iff_get?, empty, OrderedMap.get?_insert, if_neg (Scope.path_ne_root kind hscope)]
    rintro ⟨_, h⟩
    cases h
  present _ _ _ _ h := by cases h

/-- What is at or below the path of a tier is no part of another tier. -/
theorem not_within_path {kind kind' : ConfKind} {scope scope' : Scope} (h : scope.Named)
    (h' : scope'.Named) (hne : ¬ (kind' = kind ∧ scope' = scope)) :
    ¬ Within (scope'.path kind') (scope.path kind) := by
  rintro (heq | hbelow)
  · obtain ⟨rfl, rfl⟩ := Scope.eq_of_path_eq h h' heq
    exact hne ⟨rfl, rfl⟩
  · exact Scope.not_path_below_path h' h hbelow

theorem not_within_objectPath {kind kind' : ConfKind} {scope scope' : Scope} {name : String}
    (h : scope.Named) (h' : scope'.Named) (hname : Path.IsName name)
    (hne : ¬ (kind' = kind ∧ scope' = scope)) :
    ¬ Within (scope'.path kind') (scope.objectPath kind name) := by
  rintro (heq | hbelow)
  · exact Scope.objectPath_ne_path h h' hname heq
  · exact hne (Scope.eq_of_path_below_objectPath h' h hname hbelow)

/-- Calls within one tier lead to a tree that holds this tier's new contents, and the other
tiers as before. -/
theorem Represents.put {t t' : Tree} {m : ConfStore} (hm : t.Represents m) {kind : ConfKind}
    {scope : Scope} {dir : Directory} {calls : List Call} (hmakes : Makes t calls t')
    (hscope : scope.Named)
    (hcalls : ∀ c ∈ calls, c.path = scope.path kind ∨
      ∃ name, Path.IsName name ∧ c.path = scope.objectPath kind name)
    (hdir : t'.Holds (scope.path kind) dir) : t'.Represents (m.put kind scope dir) := by
  obtain ⟨hsound, hlocked⟩ := hmakes.sound hm.sound
  have hagree {kind' : ConfKind} {scope' : Scope} (h' : scope'.Named)
      (hne : ¬ (kind' = kind ∧ scope' = scope)) : Agree (scope'.path kind') t t' := by
    refine hmakes.agree hm.sound fun c hc => ?_
    rcases hcalls c hc with hpath | ⟨name, hname, hpath⟩
    · rw [hpath]
      exact not_within_path hscope h' hne
    · rw [hpath]
      exact not_within_objectPath hscope h' hname hne
  refine ⟨hsound, hlocked.trans hm.unlocked, fun kind' scope' h' hnone => ?_,
    fun kind' scope' dir' h' hsome => ?_⟩
  · rw [ConfStore.put] at hnone
    split at hnone
    · cases hnone
    · rename_i hne
      rw [has_congr ((hagree h' hne).value _ (Or.inl rfl))]
      exact hm.absent kind' scope' h' hnone
  · rw [ConfStore.put] at hsome
    split at hsome
    · rename_i heq
      obtain ⟨rfl, rfl⟩ := heq
      cases hsome
      exact hdir
    · rename_i hne
      exact (hm.present kind' scope' dir' h' hsome).of_agree (Scope.path_ne_root kind' h')
        (hagree h' hne)

end Tree

end Coordination
