import HomeKeeper.Lib.CData
import HomeKeeper.Lib.Run
import Mathlib.Data.List.Basic

/-!
# `frame/master.cpp` — the workers of the frame master

`runWorkers` forks the workers of the configuration and keeps their pids in the map `pids`; three
functions go through that map: `scanThread` every four seconds, `cleanSource` for a `ul_end_one`
message and `cleanSources` at the end. Each holds `scanMutex` while it goes through, so a pass is
one step. Workers exit in between; a worker that has exited stays a zombie, which `kill` accepts,
until `waitpid` has reaped it.

`State.calls` lists the pids given to `kill` and `waitpid`, each with whether it was at that moment
the pid of a worker that was forked and not reaped (`State.Own`). What the kernel answers for any
other pid is in the event (`Answers`).
-/

namespace HomeKeeper.Frame

open CData StepSystem

/-! ## `runWorkers` -/

/-- One round of the loop of `runWorkers`: the worker's `file` and what `fork` returned. -/
structure Launch where
  file : Bytes
  pid : Int
  deriving DecidableEq, Repr

/-- The rounds of one start: `fork` returns -1 or a pid no other child has. -/
structure Launches where
  rounds : List Launch
  result : ∀ l ∈ rounds, l.pid = -1 ∨ 0 < l.pid
  distinct : rounds.Pairwise fun a b => a.pid = b.pid → a.pid = -1

abbrev Pids := Std.TreeMap Int Bytes

structure State where
  pids : Pids
  forked : List Int
  exited : List Int
  reaped : List Int
  calls : List (Int × Bool)
  finished : Bool

/-- `pids[pid] = {0, file}` after every `fork`, also after one that failed. -/
def runWorkers (ls : Launches) : State where
  pids := ls.rounds.foldl (fun m l => m.insert l.pid l.file) ∅
  forked := (ls.rounds.filter fun l => 0 < l.pid).map (·.pid)
  exited := []
  reaped := []
  calls := []
  finished := false

/-! ## One entry of a pass -/

structure Answers where
  /-- Whether `kill` succeeds on a pid that is no worker's. -/
  kill : Int → Bool
  /-- The child `waitpid (-1, ..)` picks. -/
  child : Int

/-- The pid of a worker that was forked and not reaped. -/
def State.Own (s : State) (pid : Int) : Prop := 0 < pid ∧ pid ∈ s.forked ∧ pid ∉ s.reaped

instance (s : State) (pid : Int) : Decidable (s.Own pid) := by
  unfold State.Own; infer_instance

def State.call (s : State) (pid : Int) : State :=
  { s with calls := s.calls ++ [(pid, decide (s.Own pid))] }

/-- Signal 9 arrived; `kill (-1, 9)` reaches every worker. -/
def State.die (s : State) (pid : Int) : State :=
  if pid = -1 then { s with exited := s.exited ++ s.forked }
  else { s with exited := s.exited ++ [pid] }

/-- `waitpid` on a worker that has exited. -/
def State.reap (s : State) (pid : Int) : State :=
  if s.Own pid ∧ pid ∈ s.exited then { s with reaped := s.reaped ++ [pid] } else s

def State.waitpid (s : State) (o : Answers) (pid : Int) : State :=
  (s.call pid).reap (if pid = -1 then o.child else pid)

/-- The body of the three loops: `kill`, and `waitpid` when it succeeds. With signal 0 `waitpid` is
called with `WNOHANG` and a failed `kill` erases the entry; with signal 9 it waits for the end of
the process. (Erasing the entry a range `for` stands at is undefined; `kill` fails only on a pid
that is no worker's, so the pass has gone wrong before.) -/
def touch (signal9 : Bool) (o : Answers) (s : State) (pid : Int) : State :=
  let ok := if s.Own pid then true else o.kill pid
  let s := s.call pid
  if ok then
    if signal9 then (s.die pid).waitpid o pid else s.waitpid o pid
  else if signal9 then s
  else { s with pids := s.pids.erase pid }

def pass (signal9 : Bool) (o : Answers) (entries : List (Int × Bytes)) (s : State) : State :=
  entries.foldl (fun s e => touch signal9 o s e.1) s

/-! ## The passes -/

/-- One round of `scanThread`. -/
def scan (o : Answers) (s : State) : State := pass false o s.pids.toList s

def cleanSources (o : Answers) (s : State) : State := pass true o s.pids.toList s

def cleanSource (o : Answers) (file : Bytes) (s : State) : State :=
  pass true o (s.pids.toList.filter fun e => e.2 = file) s

inductive Event where
  | exit (pid : Int)
  | scan (o : Answers)
  | endOne (file : Bytes) (o : Answers)
  | cleanAll (o : Answers)

/-- The message loop ends with `cleanSources`; the scan thread may run on until the process is
gone. -/
def step (s : State) : Event → Option State
  | .exit pid =>
    if pid ∈ s.forked ∧ pid ∉ s.exited then some { s with exited := s.exited ++ [pid] } else none
  | .scan o => some (scan o s)
  | .endOne file o => if s.finished then none else some (cleanSource o file s)
  | .cleanAll o =>
    if s.finished then none else some { cleanSources o s with finished := true }

end HomeKeeper.Frame
