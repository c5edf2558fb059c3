import Coordination.Shell.Open
import Coordination.Shell.Script

/-!
# Redirections

Redirections with their words expanded, and how they change the descriptors of a process.
They are carried out in order; the first that fails is reported, and those before it are
taken back with the command.
-/

namespace Coordination.Shell

/-- A redirection with its word expanded. -/
inductive Opening where
  | file (fd : Nat) (access : Access) (path : String)
  | same (fd target : Nat)
  | close (fd : Nat)
  /-- A document, which is expanded when it is opened. -/
  | text (fd : Nat) (content : Sh String)
  deriving Inhabited

namespace Opening

/-- The descriptor that is changed. -/
def fd : Opening → Nat
  | .file fd .. => fd
  | .same fd _ => fd
  | .close fd => fd
  | .text fd _ => fd

/-- The opening that makes a descriptor the same as another one. -/
def ofTarget? (fd : Nat) (target : String) : Option Opening :=
  match target.toList with
  | ['-'] => some (.close fd)
  | [c] => if isDigit c then some (.same fd (c.toNat - '0'.toNat)) else none
  | _ => none

end Opening

namespace Sh

/-- Report that a file cannot be opened. -/
def failOpen {α : Type} (access : Access) (path : String) (e : IoError) : Sh α :=
  let missing := e = .notFound || e = .notADirectory
  if access = .input then
    fail ("cannot open " ++ path ++ ": " ++ if missing then "No such file" else reason e)
  else
    fail ("cannot create " ++ path ++ ": " ++
      if missing then "Directory nonexistent" else reason e)

/-- Carry out a redirection. -/
def openOne : Opening → Sh Unit
  | .close fd => setDescriptor fd none
  | .text fd content => do
    setDescriptor fd (some (← openText (← content)))
  | .same fd target => do
    match ← descriptor? target with
    | some number => if fd ≠ target then setDescriptor fd (some number)
    | none =>
      if fd ≠ target then fail (ofNat target ++ ": Bad file descriptor")
  | .file fd access path => do
    let there ← do
      if access = .output ∧ (← hasOption 'C') then
        pure ((← files).find (← process).place (toText path)).toOption
      else pure none
    match there.map Prod.snd with
    | some (.file _) => failOpen access path .alreadyExists
    | some (.program _) => failOpen access path .alreadyExists
    | other =>
      match ← openFile access path with
      | .ok number => setDescriptor fd (some number)
      | .error e => failOpen (if other.isSome then .input else access) path e

/-- Carry out a redirection that will be taken back. The error output is already put away
when it cannot be made the same as something else, so nobody reads about that. -/
def openKept (o : Opening) : Sh Unit := do
  match o with
  | .same 2 target =>
    if target ≠ 2 ∧ (← descriptor? target).isNone then setDescriptor 2 none
  | _ => pure ()
  openOne o

/-- Carry out redirections that will be taken back, and tell whether that succeeded. -/
def openAll (openings : List Opening) : Sh Bool := fun w =>
  match (openings.forM openKept).run w with
  | (.ok (), w) => (.ok true, w)
  | (.error .error, w) => (.ok false, w)
  | (.error e, w) => (.error e, w)

/-- Let descriptors be what they were in another process state. -/
def restoreDescriptors (openings : List Opening) (before : Process) : Sh Unit :=
  openings.reverse.forM fun o => setDescriptor o.fd (before.descriptors.lookup o.fd)

end Sh

end Coordination.Shell
