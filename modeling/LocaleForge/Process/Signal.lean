/-!
Signals by number: their names, what is said of a process that they end, and which of them end one.
-/

namespace LocaleForge

/-- A signal. -/
structure Signal where
  number : Nat
deriving DecidableEq, Repr

namespace Signal

/-- What messages call a signal and say of a process ended by it, by number. -/
def table : List (Nat × String × String) :=
  [(1, "HUP", "Hangup"), (2, "INT", "Interrupt"), (3, "QUIT", "Quit"),
   (4, "ILL", "Illegal instruction"), (5, "TRAP", "Trace/breakpoint trap"), (6, "ABRT", "Aborted"),
   (7, "BUS", "Bus error"), (8, "FPE", "Floating point exception"), (9, "KILL", "Killed"),
   (10, "USR1", "User defined signal 1"), (11, "SEGV", "Segmentation fault"),
   (12, "USR2", "User defined signal 2"), (13, "PIPE", "Broken pipe"), (14, "ALRM", "Alarm clock"),
   (15, "TERM", "Terminated"), (16, "STKFLT", "Stack fault"), (17, "CHLD", "Child exited"),
   (18, "CONT", "Continued"), (19, "STOP", "Stopped (signal)"), (20, "TSTP", "Stopped"),
   (21, "TTIN", "Stopped (tty input)"), (22, "TTOU", "Stopped (tty output)"),
   (23, "URG", "Urgent I/O condition"), (24, "XCPU", "CPU time limit exceeded"),
   (25, "XFSZ", "File size limit exceeded"), (26, "VTALRM", "Virtual timer expired"),
   (27, "PROF", "Profiling timer expired"), (28, "WINCH", "Window changed"), (29, "IO", "I/O possible"),
   (30, "PWR", "Power failure"), (31, "SYS", "Bad system call")]

/-- One more than the largest number of a signal. -/
def bound := 65

def hangup : Signal := ⟨1⟩
def interrupt : Signal := ⟨2⟩
def quit : Signal := ⟨3⟩
def kill : Signal := ⟨9⟩
def pipe : Signal := ⟨13⟩
def terminate : Signal := ⟨15⟩

/-- The usual name, for the signals that have one. -/
def name? (s : Signal) : Option String :=
  (table.lookup s.number).map (·.1)

/-- What is said of a process that the signal has ended. -/
def description (s : Signal) : String :=
  match table.lookup s.number with
  | some (_, text) => text
  | none =>
    if 34 ≤ s.number && s.number < bound then "Real-time signal " ++ toString (s.number - 34)
    else "Unknown signal " ++ toString s.number

/-- The name in the shell's lists, where zero stands for the end of the shell. -/
def shellName (s : Signal) : String :=
  let n := s.number
  if n = 0 then "EXIT"
  else if n = 16 then "16"
  else
    match s.name? with
    | some name => name
    | none =>
      if n = 34 then "RTMIN"
      else if n = 64 then "RTMAX"
      else if 34 < n && n < 50 then "RTMIN+" ++ toString (n - 34)
      else if 50 ≤ n && n < 64 then "RTMAX-" ++ toString (64 - n)
      else toString n

/-- A process that does not handle the signal goes on. -/
def isHarmless (s : Signal) : Bool :=
  [17, 18, 19, 20, 21, 22, 23, 28].contains s.number

/-- Can be neither handled nor ignored. -/
def isForced (s : Signal) : Bool :=
  s = kill || s.number = 19

end Signal

/-- How a process ended. -/
inductive Ending where
  | exited (status : Nat)
  | signalled (s : Signal)
deriving DecidableEq, Repr

/-- The status that a shell sees. -/
def Ending.status : Ending → Nat
  | exited n => n
  | signalled s => 128 + s.number

end LocaleForge
