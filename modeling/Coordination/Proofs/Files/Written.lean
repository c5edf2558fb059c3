import Coordination.Files.Basic
import Coordination.OrderedMap.Lookup
import Coordination.Proofs.Tree.Calls

/-!
# Written files

What was written to a path is read from it, unless the path leads to a device. A file never takes
the place of a directory, so that the way to it is the same before and after the writing.
-/

namespace Coordination

namespace Files

variable {f f' : Files} {place : Place} {content : Bytes}

/-- The path leads to a device, which keeps nothing of what is written to it. -/
def LeadsToDevice (f : Files) (path : String) : Prop :=
  ∃ place d, f.find home path = .ok (place, .device d)

/-! ## Ways through directories -/

theorem item?_put {place' : Place} (item : FileItem) :
    (f.put place item).item? place' =
      if place' = [] then some .directory
      else if key place' = key place then some item else f.items.get? (key place') := by
  rw [item?, put]
  simp only [OrderedMap.get?_insert]

theorem item?_put_self (hroot : place ≠ []) (item : FileItem) :
    (f.put place item).item? place = some item := by
  rw [item?_put, if_neg hroot, if_pos rfl]

/-- What is put where there is no directory leaves all directories. -/
theorem directory_put {place' : Place} {item : FileItem}
    (hplace : f.item? place ≠ some .directory) (h : f.item? place' = some .directory) :
    (f.put place item).item? place' = some .directory := by
  have hroot : place ≠ [] := by
    rintro rfl
    exact hplace rfl
  rw [item?, if_neg hroot] at hplace
  rw [item?_put]
  by_cases hroot' : place' = []
  · rw [if_pos hroot']
  · rw [item?, if_neg hroot'] at h
    have hkey : key place' ≠ key place := by
      intro hkey
      exact hplace (hkey ▸ h)
    rw [if_neg hroot', if_neg hkey, h]

/-- A way that starts with a name leads on from the directory of this name. -/
theorem walk_cons_iff {start last : Place} {name : String} {rest : List String}
    (hpoint : name ≠ ".") (hpoints : name ≠ "..") :
    f.walk start (name :: rest) = .ok last ↔ checkName name = .ok () ∧
      f.item? (start ++ [name]) = some .directory ∧
      f.walk (start ++ [name]) rest = .ok last := by
  rw [walk, if_neg hpoint, if_neg hpoints]
  cases hname : checkName name with
  | error e => simp [bind, Except.bind]
  | ok u =>
    cases hitem : f.item? (start ++ [name]) with
    | none => simp [bind, Except.bind, hitem]
    | some item => cases item <;> simp [bind, Except.bind, hitem]

theorem walk_put {item : FileItem} (hplace : f.item? place ≠ some .directory)
    {start last : Place} {names : List String} (h : f.walk start names = .ok last) :
    (f.put place item).walk start names = .ok last := by
  induction names generalizing start with
  | nil => exact h
  | cons name rest ih =>
    by_cases hpoint : name = "."
    · rw [walk, if_pos hpoint] at h ⊢
      exact ih h
    by_cases hpoints : name = ".."
    · rw [walk, if_neg hpoint, if_pos hpoints] at h ⊢
      exact ih h
    obtain ⟨hname, hdirectory, hrest⟩ := (walk_cons_iff hpoint hpoints).1 h
    exact (walk_cons_iff hpoint hpoints).2 ⟨hname, directory_put hplace hdirectory, ih hrest⟩

/-! ## Writing and reading -/

/-- A path leads to a name in a directory if it ends with this name and its way there goes through
directories. -/
theorem locate_name_iff {base : Place} {p : FilePath} {name : String} :
    f.locate base p = .ok (place, some name) ↔ checkText p.text = .ok () ∧
      f.walk (startOf base p) p.names.dropLast = .ok place ∧
      p.names.getLast? = some name ∧ ¬ (name = "." ∨ name = "..") := by
  rw [locate]
  cases htext : checkText p.text with
  | error e => simp [bind, Except.bind]
  | ok u =>
    cases hwalk : f.walk (startOf base p) p.names.dropLast with
    | error e => simp [bind, Except.bind]
    | ok place' =>
      cases hlast : p.names.getLast? with
      | none => simp [bind, Except.bind]
      | some name' =>
        by_cases hpoints : name' = "." ∨ name' = ".."
        · have hnot : ¬ (name' = name ∧ ¬ (name = "." ∨ name = "..")) := by
            rintro ⟨rfl, h⟩
            exact h hpoints
          cases hback : f.walk place' [name'] <;>
          · simp only [bind, Except.bind, if_pos hpoints, hback]
            simpa using fun _ => not_and.1 hnot
        · simp only [bind, Except.bind, if_neg hpoints, Except.ok.injEq, Prod.mk.injEq,
            Option.some.injEq, true_and]
          constructor
          · rintro ⟨rfl, rfl⟩
            exact ⟨rfl, rfl, hpoints⟩
          · rintro ⟨rfl, rfl, -⟩
            exact ⟨rfl, rfl⟩

theorem locate_put {item : FileItem} (hplace : f.item? place ≠ some .directory)
    {base place' : Place} {p : FilePath} {name : String}
    (h : f.locate base p = .ok (place', some name)) :
    (f.put place item).locate base p = .ok (place', some name) := by
  obtain ⟨htext, hwalk, hlast⟩ := locate_name_iff.1 h
  exact locate_name_iff.2 ⟨htext, walk_put hplace hwalk, hlast⟩

theorem find_of_locate {base : Place} {path name : String} {item : FileItem}
    (hlocate : f.locate base (.ofText path) = .ok (place, some name))
    (hname : checkName name = .ok ()) (hitem : f.item? (place ++ [name]) = some item)
    (hdirectory : item ≠ .directory) (hclosed : (FilePath.ofText path).closed = false) :
    f.find base path = .ok (place ++ [name], item) := by
  rw [find]
  cases item with
  | directory => exact absurd rfl hdirectory
  | _ => simp [bind, Except.bind, hlocate, hname, hitem, hclosed]

/-- A file that is written is put at its place, but a device stays as it is. -/
theorem writeFrom_cases {base : Place} {path : String}
    (h : f.writeFrom base path content = .ok f') :
    ∃ place name, f.locate base (.ofText path) = .ok (place, some name) ∧
      checkName name = .ok () ∧ (FilePath.ofText path).closed = false ∧
      ((∃ d, f.item? (place ++ [name]) = some (.device d) ∧ f' = f) ∨
        f.item? (place ++ [name]) ≠ some .directory ∧
          f' = f.put (place ++ [name]) (.file content)) := by
  rw [writeFrom] at h
  obtain ⟨⟨place, name?⟩, hlocate, hrest⟩ := Tree.exists_of_bind_eq_ok h
  cases name? with
  | none => cases hrest
  | some name =>
    simp only at hrest
    cases hclosed : (FilePath.ofText path).closed with
    | true => simp [hclosed] at hrest
    | false =>
      rw [hclosed] at hrest
      obtain ⟨u, hname, hput⟩ := Tree.exists_of_bind_eq_ok hrest
      refine ⟨place, name, hlocate, hname, rfl, ?_⟩
      cases hitem : f.item? (place ++ [name]) with
      | none => exact Or.inr ⟨by simp, by simpa [hitem, eq_comm] using hput⟩
      | some item =>
        cases item with
        | directory => simp [hitem] at hput
        | device d =>
          refine Or.inl ⟨d, rfl, ?_⟩
          cases d with
          | full =>
            by_cases hcontent : content = []
            · simpa [hitem, hcontent, eq_comm] using hput
            · simp [hitem, hcontent] at hput
          | _ => simpa [hitem, eq_comm] using hput
        | _ => exact Or.inr ⟨by simp, by simpa [hitem, eq_comm] using hput⟩

/-- What was written to a path is read from it, unless the path leads to a device. -/
theorem read_write {path : String} (h : f.write path content = .ok f') :
    f'.read path = .ok content ∨ f'.LeadsToDevice path := by
  obtain ⟨place, name, hlocate, hname, hclosed, ⟨d, hitem, rfl⟩ | ⟨hplace, rfl⟩⟩ :=
    writeFrom_cases h
  · exact Or.inr ⟨_, d, find_of_locate hlocate hname hitem (by simp) hclosed⟩
  · have hroot : place ++ [name] ≠ [] := by simp
    have hfind := find_of_locate (locate_put hplace hlocate) hname
      (item?_put_self hroot (.file content)) (by simp) hclosed
    left
    rw [read, readFrom, hfind]
    rfl

/-- The same where missing directories are created first. -/
theorem read_writeWithDirectories {path : String}
    (h : f.writeWithDirectories path content = (.ok (), f')) :
    f'.read path = .ok content ∨ f'.LeadsToDevice path := by
  rw [writeWithDirectories] at h
  split at h
  · cases h
  · rename_i f₁ hcreate
    split at h
    · rename_i f₂ hwrite
      cases h
      exact read_write hwrite
    · cases h

end Files

end Coordination
