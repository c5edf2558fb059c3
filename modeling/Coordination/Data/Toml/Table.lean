import Coordination.Data.Basic

/-!
# TOML tables while they are read

A document builds its tables piece by piece: a header opens a table, a line adds a value to
the open table, a dotted key reaches into tables below it. A table that only came up on the
way to another may still be opened once; one that was opened, or that dotted keys built,
may not be opened, and no name is given two values.
-/

namespace Coordination.Data.Toml

/-- What a name stands for. -/
inductive Item where
  | value (d : Data)
  /-- A table. It is implicit if only its name came up so far, and dotted if a dotted key
  brought it up. -/
  | table (implicit dotted : Bool) (items : List (String × Item))
  /-- A list of tables, one for each header of its name. -/
  | tables (elements : List (List (String × Item)))
  deriving Inhabited

/-- Named items in the order in which they came up. -/
abbrev Items := List (String × Item)

namespace Items

/-- Put an item in place of the one of its name, or at the end. -/
def put (name : String) (item : Item) : Items → Items
  | [] => [(name, item)]
  | (name', item') :: rest =>
    if name' = name then (name, item) :: rest else (name', item') :: put name item rest

/-- Forget a name. -/
def remove (name : String) (items : Items) : Items := items.filter (·.1 ≠ name)

/-- Change the table at the end of a path, and answer what the change answers. The change is
told whether a dotted key built that table. Tables that are missing on the way come into
being; a dotted key must not reach into a table that was opened. -/
def changeAt {α : Type} (dotted : Bool) (change : Bool → Items → Option (α × Items)) :
    List String → Bool → Items → Option (α × Items)
  | [], isDotted, items => change isDotted items
  | name :: path, _, items =>
    match items.lookup name with
    | none => do
      let (a, inner) ← changeAt dotted change path dotted []
      some (a, items ++ [(name, .table true dotted inner)])
    | some (.value _) => none
    | some (.table implicit isDotted inner) =>
      if dotted ∧ !implicit then none
      else do
        let (a, inner) ← changeAt dotted change path isDotted inner
        some (a, put name (.table implicit isDotted inner) items)
    | some (.tables elements) =>
      match elements.getLast? with
      | none => none
      | some last => do
        let (a, last) ← changeAt dotted change path false last
        some (a, put name (.tables (elements.dropLast ++ [last])) items)

/-- Add a value under a dotted key, which must be new. -/
def addValue (path : List String) (name : String) (d : Data) (items : Items) : Option Items :=
  let add (isDotted : Bool) (items : Items) : Option (Unit × Items) :=
    if isDotted = path.isEmpty then none
    else if (items.lookup name).isSome then none
    else some ((), items ++ [(name, .value d)])
  (changeAt true add path false items).map Prod.snd

end Items

mutual

/-- The value of an item. -/
def Item.toData : Item → Data
  | .value d => d
  | .table _ _ items => .table (fieldsOf items)
  | .tables elements => .list (tablesOf elements)

/-- The fields that items stand for. -/
def fieldsOf : List (String × Item) → List (String × Data)
  | [] => []
  | (name, item) :: rest => (name, item.toData) :: fieldsOf rest

/-- The tables of a list. -/
def tablesOf : List (List (String × Item)) → List Data
  | [] => []
  | items :: rest => .table (fieldsOf items) :: tablesOf rest

end

/-- The document so far: the tables that are complete, and the open one with its path. -/
structure Draft where
  root : Items
  current : Items
  /-- The names of the path before the last one, and the last one. The open table without a
  path is the document itself. -/
  path : Option (List String × String)
  /-- Whether the open table is an element of a list. -/
  isElement : Bool

namespace Draft

/-- The document before its first line. -/
def start : Draft := ⟨[], [], none, false⟩

/-- Put the open table in its place. -/
def close (d : Draft) : Option Items :=
  match d.path with
  | none => some d.current
  | some (parents, name) =>
    let place (_ : Bool) (items : Items) : Option (Unit × Items) :=
      match items.lookup name, d.isElement with
      | none, false => some ((), items ++ [(name, .table false false d.current)])
      | none, true => some ((), items ++ [(name, .tables [d.current])])
      | some (.tables elements), true =>
        some ((), items.put name (.tables (elements ++ [d.current])))
      | some _, _ => none
    (Items.changeAt false place parents false d.root).map Prod.snd

/-- Open a table. What came up in it before its header stays in it. -/
def openTable (parents : List String) (name : String) (d : Draft) : Option Draft := do
  let take (_ : Bool) (items : Items) : Option (Items × Items) :=
    match items.lookup name with
    | none => some ([], items)
    | some (.table true false inner) => some (inner, items.remove name)
    | some _ => none
  let root ← d.close
  let (current, root) ← Items.changeAt false take parents false root
  some ⟨root, current, some (parents, name), false⟩

/-- Open a new element of a list of tables. The list itself comes into being with its first
header. -/
def openElement (parents : List String) (name : String) (d : Draft) : Option Draft := do
  let enter (_ : Bool) (items : Items) : Option (Unit × Items) :=
    match items.lookup name with
    | none => some ((), items ++ [(name, .tables [])])
    | some (.tables _) => some ((), items)
    | some _ => none
  let root ← d.close
  let (_, root) ← Items.changeAt false enter parents false root
  some ⟨root, [], some (parents, name), true⟩

/-- Add a value to the open table. -/
def addValue (parents : List String) (name : String) (value : Data) (d : Draft) :
    Option Draft :=
  (d.current.addValue parents name value).map fun current => { d with current }

/-- The complete document. -/
def finish (d : Draft) : Option Data := d.close.map fun items => .table (fieldsOf items)

end Draft

end Coordination.Data.Toml
