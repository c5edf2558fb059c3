import Coordination.Files.Basic
import Coordination.Shell.Octets

/-!
# Hosts

What all processes share: the files, what is open, and what the reader of the error output
has received. An open file has a position that moves when it is read or written; processes
that inherit it share the position. A pipe holds what was written to it and not yet read. It
has room for a limited number of bytes, as if its reader had left when it is full.
-/

namespace Coordination.Shell

/-- Where an open file leads. -/
inductive Channel where
  /-- To a reader who keeps nothing. -/
  | discarded
  /-- To the reader of the error output. -/
  | errors
  | file (place : Place)
  | directory (place : Place)
  | device (d : Device)
  | pipe (number : Nat)
  deriving DecidableEq, Repr, Inhabited

/-- An open file. -/
structure OpenFile where
  channel : Channel
  position : Nat
  readable : Bool
  writable : Bool
  /-- Whether everything is written to the end. -/
  appends : Bool
  deriving Repr, Inhabited

/-- Why reading or writing fails. -/
inductive StreamError where
  /-- Nothing is open there, or not for that. -/
  | badDescriptor
  | isADirectory
  | storageFull
  /-- Nobody reads the pipe any more. -/
  | brokenPipe
  deriving DecidableEq, Repr, Inhabited

namespace StreamError

/-- The wording of the error. -/
def message : StreamError → String
  | .badDescriptor => "Bad file descriptor"
  | .isADirectory => "Is a directory"
  | .storageFull => "No space left on device"
  | .brokenPipe => "Broken pipe"

end StreamError

/-- The wording of a failed access in messages of programs. -/
def reason : IoError → String
  | .notFound => "No such file or directory"
  | .permissionDenied => "Permission denied"
  | .alreadyExists => "File exists"
  | .notADirectory => "Not a directory"
  | .isADirectory => "Is a directory"
  | .invalidInput => "Invalid argument"
  | .invalidFilename => "File name too long"
  | .directoryNotEmpty => "Directory not empty"
  | .storageFull => "No space left on device"
  | .invalidData => "Invalid argument"

/-- What was written and not yet read. -/
structure Backlog where
  /-- What was written, the last part first. -/
  parts : List Bytes
  /-- The number of bytes. -/
  size : Nat
  deriving Repr, Inhabited

namespace Backlog

/-- There is nothing. -/
def empty : Backlog := ⟨[], 0⟩

/-- Only some bytes. -/
def ofBytes (bytes : Bytes) : Backlog := ⟨[bytes], bytes.length⟩

/-- Put bytes at the end. -/
def push (b : Backlog) (bytes : Bytes) : Backlog := ⟨bytes :: b.parts, b.size + bytes.length⟩

/-- All bytes in order. -/
def bytes (b : Backlog) : Bytes := b.parts.foldl (fun after part => part ++ after) []

@[simp] theorem bytes_empty : empty.bytes = [] := rfl

@[simp] theorem bytes_ofBytes (bytes : Bytes) : (ofBytes bytes).bytes = bytes := by
  simp [ofBytes, Backlog.bytes]

/-- Parts are put before what comes after all of them. -/
theorem foldl_parts (parts : List Bytes) (after : Bytes) :
    parts.foldl (fun after part => part ++ after) after =
      parts.foldl (fun after part => part ++ after) [] ++ after := by
  induction parts generalizing after with
  | nil => rfl
  | cons part rest ih =>
    rw [List.foldl_cons, List.foldl_cons, ih, ih (part ++ []), List.append_nil,
      List.append_assoc]

@[simp] theorem bytes_push (b : Backlog) (bytes : Bytes) :
    (b.push bytes).bytes = b.bytes ++ bytes := by
  rw [push, Backlog.bytes, List.foldl_cons, List.append_nil, foldl_parts]
  rfl

end Backlog

/-- What all processes share. -/
structure Host where
  files : Files
  /-- The open files by number. -/
  opened : List (Nat × OpenFile)
  /-- What the pipes hold, by number. -/
  pipes : List (Nat × Backlog)
  /-- The next number of an open file or a pipe. -/
  next : Nat
  /-- What the reader of the error output has received. -/
  errors : Backlog
  /-- The next number of a process. -/
  nextProcess : Nat
  /-- Signals that were sent to processes and not yet taken. -/
  signals : List (Nat × Nat)
  /-- The time that has passed, in microseconds. -/
  clock : Nat

namespace Host

/-- A host with files, on which nothing has run. -/
def ofFiles (files : Files) : Host where
  files
  opened := []
  pipes := []
  next := 0
  errors := .empty
  nextProcess := 1000
  signals := []
  clock := 0

/-- The number of bytes that a pipe has room for. -/
def pipeRoom : Nat := 262144

/-- Open a file, and give its number. -/
def add (h : Host) (file : OpenFile) : Nat × Host :=
  (h.next, { h with opened := (h.next, file) :: h.opened, next := h.next + 1 })

/-- Make a pipe that holds bytes, and give the numbers of its two ends. -/
def addPipe (h : Host) (bytes : Bytes) : (Nat × Nat) × Host :=
  let pipe := h.next
  let h := { h with pipes := (pipe, .ofBytes bytes) :: h.pipes, next := pipe + 1 }
  let (reading, h) := h.add ⟨.pipe pipe, 0, true, false, false⟩
  let (writing, h) := h.add ⟨.pipe pipe, 0, false, true, false⟩
  ((reading, writing), h)

/-- Move the position of an open file. -/
def moveTo (h : Host) (number position : Nat) : Host :=
  { h with opened := h.opened.map fun (n, f) =>
      if n = number then (n, { f with position }) else (n, f) }

/-- Change what a pipe holds. -/
def setPipe (h : Host) (pipe : Nat) (content : Backlog) : Host :=
  { h with pipes := h.pipes.map fun (n, held) => (n, if n = pipe then content else held) }

/-- Put bytes over the content of a file from a position on. What lies before the position
and beyond the content is filled with zeros. -/
def overlay (content : Bytes) (position : Nat) (bytes : Bytes) : Bytes :=
  content.take position ++ List.replicate (position - content.length) 0 ++ bytes ++
    content.drop (position + bytes.length)

/-- Write bytes to an open file. -/
def write (h : Host) (number : Nat) (bytes : Bytes) : Except StreamError Host :=
  match h.opened.lookup number with
  | none => .error .badDescriptor
  | some f =>
    if !f.writable then .error .badDescriptor
    else
      match f.channel with
      | .discarded => .ok h
      | .errors => .ok { h with errors := h.errors.push bytes }
      | .directory _ => .error .badDescriptor
      | .device .full => if bytes = [] then .ok h else .error .storageFull
      | .device _ => .ok h
      | .pipe pipe =>
        let held := (h.pipes.lookup pipe).getD .empty
        if pipeRoom < held.size then .error .brokenPipe
        else .ok (h.setPipe pipe (held.push bytes))
      | .file place =>
        match h.files.item? place with
        | some (.file content) =>
          let position := if f.appends then content.length else f.position
          let content := overlay content position bytes
          .ok ({ h with files := h.files.put place (.file content) }.moveTo number
            (position + bytes.length))
        | _ => .ok h

/-- All that can still be read from an open file. -/
def rest (h : Host) (number : Nat) : Except StreamError Bytes :=
  match h.opened.lookup number with
  | none => .error .badDescriptor
  | some f =>
    if !f.readable then .error .badDescriptor
    else
      match f.channel with
      | .discarded => .ok []
      | .errors => .ok []
      | .directory _ => .error .isADirectory
      | .device .null => .ok []
      | .device _ => .ok (List.replicate pipeRoom 0)
      | .pipe pipe => .ok ((h.pipes.lookup pipe).getD .empty).bytes
      | .file place =>
        match h.files.item? place with
        | some item => .ok (item.content.drop f.position)
        | none => .ok []

/-- Count bytes of an open file as read. -/
def consume (h : Host) (number count : Nat) : Host :=
  match h.opened.lookup number with
  | none => h
  | some f =>
    match f.channel with
    | .pipe pipe => 
      let left := ((h.pipes.lookup pipe).getD .empty).bytes.drop count
      h.setPipe pipe (.ofBytes left)
    | .file _ => h.moveTo number (f.position + count)
    | _ => h

end Host

end Coordination.Shell
