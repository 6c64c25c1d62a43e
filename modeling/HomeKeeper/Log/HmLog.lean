import HomeKeeper.Lib.CData
import HomeKeeper.Lib.Run
import Mathlib.Logic.Function.Basic

/-!
# `include/hmLog.hpp` — the log queue, its printer thread and its destructor

Any number of threads push records under `logsMutex`; one thread, `printLog`, waits on `logCond`,
moves the vector out and writes it to the file, all of it under the mutex; `~hmLog` polls until
the vector is empty and cancels the printer.

A step is one call of the pthread interface, one operation on `logs`, or one turn of the
printer's loop. `pthread_cond_wait` is three steps (release and wait, wake, reacquire), so a
signal sent while the printer is elsewhere is lost, and the printer may wake without one. The
printer runs with asynchronous cancellation: once cancelled it can stop between any two steps,
and its cleanup handler unlocks the mutex whoever holds it.

`State.file` is what `logfile->write` was given. `State.written`, `State.pushed` and
`State.unlocks` are histories no function of the source reads: the records behind these lines, the
records in the order of their `push_back`, and the calls of `hmLog::unlock` with the holder at
that moment.
-/

namespace HomeKeeper.Log

open CData StepSystem

/-! ## Records -/

/-- `log_t`. -/
structure LogRecord where
  level : Int
  time : Bytes
  msg : Bytes
  deriving DecidableEq, Repr

/-- `log_str`; `operator[]` gives a null pointer for any other level, which `%s` prints as
`(null)`. -/
def logStr : Int → Bytes
  | 0 => ascii "debug"
  | 1 => ascii "info"
  | 2 => ascii "warn"
  | 3 => ascii "error"
  | 4 => ascii "fatal"
  | _ => ascii "(null)"

structure Tm where
  year : Int
  mon : Int
  mday : Int
  hour : Int
  min : Int
  sec : Int

def decimalText (n : Int) : Bytes := ascii (toString n)

def Tm.text (t : Tm) : Bytes :=
  decimalText (t.year + 1900) ++ ascii "-" ++ decimalText (t.mon + 1) ++ ascii "-"
    ++ decimalText t.mday ++ ascii " " ++ decimalText t.hour ++ ascii ":" ++ decimalText t.min
    ++ ascii ":" ++ decimalText t.sec

/-- The arguments of `insertLog` and what its library calls give it: `text` is the formatted
message, `none` when `vsnprintf` fails. -/
structure InsertLog where
  level : Int
  pid : Int
  tid : Int
  fileName : Bytes
  funcName : Bytes
  line : Int
  text : Option Bytes
  malloc : Bool
  now : Tm

/-- The record `insertLog` is about to push; `none` when it returns before the lock. -/
def InsertLog.logIn (c : InsertLog) : Option LogRecord :=
  match c.text with
  | none => none
  | some text =>
    -- `if (0 >= count_write) return;`
    if text.length = 0 then none
    else if !c.malloc then none
    else
      some
        { level := c.level
          time := snprintfS 255 c.now.text
          msg := snprintfS 10240
            (decimalText c.pid ++ ascii ":" ++ decimalText c.tid ++ ascii ":" ++ c.fileName
              ++ ascii ":" ++ c.funcName ++ ascii ":" ++ decimalText c.line ++ ascii ":" ++ text) }

/-- The line the printer hands to `logfile->write` for a record. -/
def temBuf (r : LogRecord) : Bytes :=
  snprintfS 11240 (logStr r.level ++ ascii ":" ++ r.time ++ ascii ":" ++ r.msg ++ ascii "\n")

/-! ## Threads -/

inductive Thread where
  | inserter (i : Nat)
  | printer
  | dtor
  deriving DecidableEq, Repr

inductive InsertPc where
  | idle
  | prepared (logIn : LogRecord)
  | locked (logIn : LogRecord)
  | pushed
  | signalled
  deriving DecidableEq, Repr

/-- `starting` is before `pthread_cleanup_push`; `waiting` and `woken` are inside
`pthread_cond_wait`, which holds the mutex again at `awake`. -/
inductive PrinterPc where
  | starting
  | top
  | wantLock
  | locked
  | waiting
  | woken
  | awake
  | printing (logsTemp : List LogRecord)
  | stopped
  deriving DecidableEq, Repr

/-- The `else` branch of the drain loop begins at `cancelling`. -/
inductive DtorPc where
  | notStarted
  | wantLock
  | testing
  | signalling
  | unlocking
  | sleeping
  | cancelling
  | unlockingLast
  | joining
  | left
  deriving DecidableEq, Repr

structure State where
  level : Int
  logs : List LogRecord
  logsMutex : Option Thread
  inserters : Nat → InsertPc
  printer : PrinterPc
  dtor : DtorPc
  cancelRequested : Bool
  file : List Bytes
  written : List LogRecord
  pushed : List LogRecord
  unlocks : List (Thread × Option Thread)

/-- The object is constructed and initialised, the printer thread has been created. -/
def State.start (level : Int) : State where
  level := level
  logs := []
  logsMutex := none
  inserters := fun _ => .idle
  printer := .starting
  dtor := .notStarted
  cancelRequested := false
  file := []
  written := []
  pushed := []
  unlocks := []

/-- The records the printer has moved out and not handled yet. -/
def PrinterPc.batch : PrinterPc → List LogRecord
  | .printing logsTemp => logsTemp
  | _ => []

def State.setInserter (s : State) (i : Nat) (pc : InsertPc) : State :=
  { s with inserters := Function.update s.inserters i pc }

/-- `hmLog::lock`, for a thread that gets the mutex. -/
def State.lock (s : State) (t : Thread) : State := { s with logsMutex := some t }

/-- `hmLog::unlock`. The mutex is of the default kind, which does not check its owner. -/
def State.unlock (s : State) (t : Thread) : State :=
  { s with logsMutex := none, unlocks := s.unlocks ++ [(t, s.logsMutex)] }

/-- `log_signal`: it wakes the printer if it is waiting, and is lost otherwise. -/
def State.logSignal (s : State) : State :=
  { s with printer := if s.printer = .waiting then .woken else s.printer }

/-! ## Steps -/

inductive Event where
  | insertLog (i : Nat) (call : InsertLog)
  | insertStep (i : Nat)
  | printStep
  | spuriousWake
  | cancel
  | dtorStep

/-- The next step of a call of `insertLog`. -/
def insertStep (s : State) (i : Nat) : Option State :=
  match s.inserters i with
  | .idle => none
  | .prepared r =>
    if s.logsMutex = none then some ((s.lock (.inserter i)).setInserter i (.locked r)) else none
  | .locked r =>
    some ({ s with logs := s.logs ++ [r], pushed := s.pushed ++ [r] }.setInserter i .pushed)
  | .pushed => some (s.logSignal.setInserter i .signalled)
  | .signalled => some ((s.unlock (.inserter i)).setInserter i .idle)

/-- The next step of `printLog`. -/
def printStep (s : State) : Option State :=
  match s.printer with
  | .starting => some { s with printer := .top }
  -- `pthread_testcancel`
  | .top => some { s with printer := .wantLock }
  | .wantLock =>
    if s.logsMutex = none then some { s.lock .printer with printer := .locked } else none
  -- `pthread_cond_wait` releases the mutex and waits in one step
  | .locked => some { s with logsMutex := none, printer := .waiting }
  | .waiting => none
  | .woken =>
    if s.logsMutex = none then some { s.lock .printer with printer := .awake } else none
  -- `std::move (logs)`
  | .awake => some { s with logs := [], printer := .printing s.logs }
  | .printing (r :: rest) =>
    if s.level ≤ r.level then
      some { s with
        file := s.file ++ [temBuf r],
        written := s.written ++ [r],
        printer := .printing rest }
    else some { s with printer := .printing rest }
  | .printing [] => some { s.unlock .printer with printer := .top }
  | .stopped => none

/-- The cancellation takes effect. Inside `pthread_cond_wait` the mutex is reacquired before the
handler runs; before `pthread_cleanup_push` there is no handler. -/
def cancelStep (s : State) : Option State :=
  if s.cancelRequested then
    match s.printer with
    | .starting => some { s with printer := .stopped }
    | .waiting | .woken =>
      if s.logsMutex = none then
        some { (s.lock .printer).unlock .printer with printer := .stopped }
      else none
    | .stopped => none
    -- the handler unlocks without asking who holds the mutex
    | _ => some { s.unlock .printer with printer := .stopped }
  else none

/-- The next step of `~hmLog`. -/
def dtorStep (s : State) : Option State :=
  match s.dtor with
  | .notStarted => some { s with dtor := .wantLock }
  | .wantLock => if s.logsMutex = none then some { s.lock .dtor with dtor := .testing } else none
  | .testing => some { s with dtor := if s.logs = [] then .cancelling else .signalling }
  | .signalling => some { s.logSignal with dtor := .unlocking }
  | .unlocking => some { s.unlock .dtor with dtor := .sleeping }
  | .sleeping => some { s with dtor := .wantLock }
  | .cancelling => some { s with cancelRequested := true, dtor := .unlockingLast }
  | .unlockingLast => some { s.unlock .dtor with dtor := .joining }
  | .joining => if s.printer = .stopped then some { s with dtor := .left } else none
  | .left => none

def step (s : State) : Event → Option State
  | .insertLog i call =>
    if s.inserters i = .idle then
      match call.logIn with
      | none => some s
      | some r => some (s.setInserter i (.prepared r))
    else none
  | .insertStep i => insertStep s i
  | .printStep => printStep s
  | .spuriousWake =>
    if s.printer = .waiting then some { s with printer := .woken } else none
  | .cancel => cancelStep s
  | .dtorStep => dtorStep s

/-! ## What a step can do -/

/-- Every step of the three functions, with the point it is taken from. -/
inductive Moves (s : State) : Event → State → Prop where
  | returned {i : Nat} {call : InsertLog} (hpc : s.inserters i = .idle)
      (hlog : call.logIn = none) : Moves s (.insertLog i call) s
  | prepared {i : Nat} {call : InsertLog} {r : LogRecord} (hpc : s.inserters i = .idle)
      (hlog : call.logIn = some r) :
      Moves s (.insertLog i call) (s.setInserter i (.prepared r))
  | insertLock {i : Nat} {r : LogRecord} (hpc : s.inserters i = .prepared r)
      (hfree : s.logsMutex = none) :
      Moves s (.insertStep i) ((s.lock (.inserter i)).setInserter i (.locked r))
  | insertPush {i : Nat} {r : LogRecord} (hpc : s.inserters i = .locked r) :
      Moves s (.insertStep i)
        ({ s with logs := s.logs ++ [r], pushed := s.pushed ++ [r] }.setInserter i .pushed)
  | insertSignal {i : Nat} (hpc : s.inserters i = .pushed) :
      Moves s (.insertStep i) (s.logSignal.setInserter i .signalled)
  | insertUnlock {i : Nat} (hpc : s.inserters i = .signalled) :
      Moves s (.insertStep i) ((s.unlock (.inserter i)).setInserter i .idle)
  | printerStart (hpc : s.printer = .starting) : Moves s .printStep { s with printer := .top }
  | printerTestcancel (hpc : s.printer = .top) :
      Moves s .printStep { s with printer := .wantLock }
  | printerLock (hpc : s.printer = .wantLock) (hfree : s.logsMutex = none) :
      Moves s .printStep { s.lock .printer with printer := .locked }
  | printerWait (hpc : s.printer = .locked) :
      Moves s .printStep { s with logsMutex := none, printer := .waiting }
  | printerRelock (hpc : s.printer = .woken) (hfree : s.logsMutex = none) :
      Moves s .printStep { s.lock .printer with printer := .awake }
  | printerTake (hpc : s.printer = .awake) :
      Moves s .printStep { s with logs := [], printer := .printing s.logs }
  | printerWrite {r : LogRecord} {rest : List LogRecord} (hpc : s.printer = .printing (r :: rest))
      (hlevel : s.level ≤ r.level) :
      Moves s .printStep
        { s with
          file := s.file ++ [temBuf r], written := s.written ++ [r], printer := .printing rest }
  | printerSkip {r : LogRecord} {rest : List LogRecord} (hpc : s.printer = .printing (r :: rest))
      (hlevel : ¬ s.level ≤ r.level) : Moves s .printStep { s with printer := .printing rest }
  | printerUnlock (hpc : s.printer = .printing []) :
      Moves s .printStep { s.unlock .printer with printer := .top }
  | spuriousWake (hpc : s.printer = .waiting) : Moves s .spuriousWake { s with printer := .woken }
  | cancelStarting (hpc : s.printer = .starting) (hreq : s.cancelRequested = true) :
      Moves s .cancel { s with printer := .stopped }
  | cancelWaiting (hpc : s.printer = .waiting ∨ s.printer = .woken)
      (hreq : s.cancelRequested = true) (hfree : s.logsMutex = none) :
      Moves s .cancel { (s.lock .printer).unlock .printer with printer := .stopped }
  | cancelRunning (hreq : s.cancelRequested = true) :
      Moves s .cancel { s.unlock .printer with printer := .stopped }
  | dtorStart (hpc : s.dtor = .notStarted) : Moves s .dtorStep { s with dtor := .wantLock }
  | dtorLock (hpc : s.dtor = .wantLock) (hfree : s.logsMutex = none) :
      Moves s .dtorStep { s.lock .dtor with dtor := .testing }
  | dtorNonEmpty (hpc : s.dtor = .testing) (hlogs : s.logs ≠ []) :
      Moves s .dtorStep { s with dtor := .signalling }
  | dtorEmpty (hpc : s.dtor = .testing) (hlogs : s.logs = []) :
      Moves s .dtorStep { s with dtor := .cancelling }
  | dtorSignal (hpc : s.dtor = .signalling) :
      Moves s .dtorStep { s.logSignal with dtor := .unlocking }
  | dtorUnlock (hpc : s.dtor = .unlocking) :
      Moves s .dtorStep { s.unlock .dtor with dtor := .sleeping }
  | dtorSleep (hpc : s.dtor = .sleeping) : Moves s .dtorStep { s with dtor := .wantLock }
  | dtorCancel (hpc : s.dtor = .cancelling) :
      Moves s .dtorStep { s with cancelRequested := true, dtor := .unlockingLast }
  | dtorUnlockLast (hpc : s.dtor = .unlockingLast) :
      Moves s .dtorStep { s.unlock .dtor with dtor := .joining }
  | dtorJoin (hpc : s.dtor = .joining) (hstopped : s.printer = .stopped) :
      Moves s .dtorStep { s with dtor := .left }

theorem moves_of_insertStep {s s' : State} {i : Nat} (h : insertStep s i = some s') :
    Moves s (.insertStep i) s' := by
  unfold insertStep at h
  split at h
  case h_1 => cases h
  case h_2 hpc =>
    split at h
    · cases h; exact .insertLock hpc ‹_›
    · cases h
  case h_3 hpc => cases h; exact .insertPush hpc
  case h_4 hpc => cases h; exact .insertSignal hpc
  case h_5 hpc => cases h; exact .insertUnlock hpc

theorem moves_of_printStep {s s' : State} (h : printStep s = some s') : Moves s .printStep s' := by
  unfold printStep at h
  split at h
  case h_1 hpc => cases h; exact .printerStart hpc
  case h_2 hpc => cases h; exact .printerTestcancel hpc
  case h_3 hpc =>
    split at h
    · cases h; exact .printerLock hpc ‹_›
    · cases h
  case h_4 hpc => cases h; exact .printerWait hpc
  case h_5 => cases h
  case h_6 hpc =>
    split at h
    · cases h; exact .printerRelock hpc ‹_›
    · cases h
  case h_7 hpc => cases h; exact .printerTake hpc
  case h_8 hpc =>
    split at h
    · cases h; exact .printerWrite hpc ‹_›
    · cases h; exact .printerSkip hpc ‹_›
  case h_9 hpc => cases h; exact .printerUnlock hpc
  case h_10 => cases h

theorem moves_of_cancelStep {s s' : State} (h : cancelStep s = some s') : Moves s .cancel s' := by
  unfold cancelStep at h
  split at h
  case isFalse => cases h
  case isTrue hreq =>
    -- the default branch of the match is every point where the handler is pushed and runs at once
    split at h
    · cases h; exact .cancelStarting ‹_› hreq
    · split at h
      · cases h; exact .cancelWaiting (.inl ‹_›) hreq ‹_›
      · cases h
    · split at h
      · cases h; exact .cancelWaiting (.inr ‹_›) hreq ‹_›
      · cases h
    · cases h
    · cases h; exact .cancelRunning hreq

theorem moves_of_dtorStep {s s' : State} (h : dtorStep s = some s') : Moves s .dtorStep s' := by
  unfold dtorStep at h
  split at h
  case h_1 hpc => cases h; exact .dtorStart hpc
  case h_2 hpc =>
    split at h
    · cases h; exact .dtorLock hpc ‹_›
    · cases h
  case h_3 hpc =>
    cases h
    split
    · exact .dtorEmpty hpc ‹_›
    · exact .dtorNonEmpty hpc ‹_›
  case h_4 hpc => cases h; exact .dtorSignal hpc
  case h_5 hpc => cases h; exact .dtorUnlock hpc
  case h_6 hpc => cases h; exact .dtorSleep hpc
  case h_7 hpc => cases h; exact .dtorCancel hpc
  case h_8 hpc => cases h; exact .dtorUnlockLast hpc
  case h_9 hpc =>
    split at h
    · cases h; exact .dtorJoin hpc ‹_›
    · cases h
  case h_10 => cases h

theorem moves_of_step {s s' : State} {e : Event} (h : step s e = some s') : Moves s e s' := by
  cases e with
  | insertLog i call =>
    simp only [step] at h
    split at h
    · split at h
      · cases h; exact .returned ‹_› ‹_›
      · cases h; exact .prepared ‹_› ‹_›
    · cases h
  | insertStep i => exact moves_of_insertStep h
  | printStep => exact moves_of_printStep h
  | spuriousWake =>
    simp only [step] at h
    split at h
    · cases h; exact .spuriousWake ‹_›
    · cases h
  | cancel => exact moves_of_cancelStep h
  | dtorStep => exact moves_of_dtorStep h

end HomeKeeper.Log
