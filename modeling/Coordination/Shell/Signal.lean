import Coordination.Shell.Octets

/-!
# Signals

The signals by their numbers: how they are named, how the end of a process is described that
they ended, and which of them end no process.
-/

namespace Coordination.Shell

namespace Signal

/-- The names and the descriptions of the first signals, in the order of their numbers. -/
def table : List (String × String) :=
  [("HUP", "Hangup"), ("INT", "Interrupt"), ("QUIT", "Quit"), ("ILL", "Illegal instruction"),
    ("TRAP", "Trace/breakpoint trap"), ("ABRT", "Aborted"), ("BUS", "Bus error"),
    ("FPE", "Floating point exception"), ("KILL", "Killed"), ("USR1", "User defined signal 1"),
    ("SEGV", "Segmentation fault"), ("USR2", "User defined signal 2"), ("PIPE", "Broken pipe"),
    ("ALRM", "Alarm clock"), ("TERM", "Terminated"), ("STKFLT", "Stack fault"),
    ("CHLD", "Child exited"), ("CONT", "Continued"), ("STOP", "Stopped (signal)"),
    ("TSTP", "Stopped"), ("TTIN", "Stopped (tty input)"), ("TTOU", "Stopped (tty output)"),
    ("URG", "Urgent I/O condition"), ("XCPU", "CPU time limit exceeded"),
    ("XFSZ", "File size limit exceeded"), ("VTALRM", "Virtual timer expired"),
    ("PROF", "Profiling timer expired"), ("WINCH", "Window changed"), ("IO", "I/O possible"),
    ("PWR", "Power failure"), ("SYS", "Bad system call")]

/-- The number behind the last signal. -/
def count : Nat := 65

/-- The name that the shell has for a number. -/
def name (n : Nat) : String :=
  if n = 0 then "EXIT"
  else if n = 16 ∨ n = 32 ∨ n = 33 then ofNat n
  else if n = 34 then "RTMIN"
  else if n = 64 then "RTMAX"
  else if 34 < n ∧ n < 50 then "RTMIN+" ++ ofNat (n - 34)
  else if 50 ≤ n ∧ n < 64 then "RTMAX-" ++ ofNat (64 - n)
  else match table[n - 1]? with
    | some (name, _) => name
    | none => ofNat n

/-- How the end of a process is described. -/
def description (n : Nat) : String :=
  match if n = 0 then none else table[n - 1]? with
  | some (_, text) => text
  | none => "Real-time signal " ++ ofNat (n - 34)

/-- The number of a signal of a number or a name from `least` on. -/
def number? (least : Nat) (text : String) : Option Nat :=
  match decimal? text with
  | some n => if n < count then some n else none
  | none =>
    ((List.range count).drop least).find? fun n =>
      (name n).map Char.toLower = text.map Char.toLower

/-- Whether a process that does not care about a signal lives on. -/
def isHarmless (n : Nat) : Bool :=
  n = 0 || n = 17 || n = 18 || n = 19 || n = 20 || n = 21 || n = 22 || n = 23 || n = 28

/-- How a signal is named outside of the shell. -/
def label (n : Nat) : String :=
  match if n = 0 then none else table[n - 1]? with
  | some (name, _) => ofNat n ++ " (SIG" ++ name ++ ")"
  | none => ofNat n

end Signal

end Coordination.Shell
