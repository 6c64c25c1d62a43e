import HomeKeeper.Lib.Sync
import HomeKeeper.Log.HmLog

/-!
# No record is lost, duplicated or reordered

The records written so far, the kept ones of the printer's batch and the kept ones of `logs`,
one after the other, are the kept records in the order they were pushed (`Inv.order`). A lost
wake-up only delays: the records stay in `logs`, where the next batch or the destructor's test
finds them.

`~hmLog` tests `logs` under the mutex, and the printer holds the mutex for as long as it has a
batch (`Inv.guards`), so the test speaks for the batch too. Once no thread is in `insertLog`, the
branch that cancels the printer is entered with everything written, and nothing changes that
while the cancellation is on its way (`Settled`).
-/

namespace HomeKeeper.Log

open CData StepSystem Sync

/-- The records of a level that is printed. -/
def State.kept (s : State) (rs : List LogRecord) : List LogRecord :=
  rs.filter fun r => s.level ≤ r.level

/-! ## Critical sections -/

def InsertPc.holds : InsertPc → Bool
  | .locked _ | .pushed | .signalled => true
  | .idle | .prepared _ => false

def PrinterPc.holds : PrinterPc → Bool
  | .locked | .awake | .printing _ => true
  | .starting | .top | .wantLock | .waiting | .woken | .stopped => false

def DtorPc.holds : DtorPc → Bool
  | .testing | .signalling | .unlocking | .cancelling | .unlockingLast => true
  | .notStarted | .wantLock | .sleeping | .joining | .left => false

/-- The thread is between its `lock` and its `unlock`. -/
def State.Inside (s : State) : Thread → Prop
  | .inserter i => (s.inserters i).holds = true
  | .printer => s.printer.holds = true
  | .dtor => s.dtor.holds = true

/-- `~hmLog` has found `logs` empty and leaves its loop. -/
def DtorPc.leaving : DtorPc → Bool
  | .cancelling | .unlockingLast | .joining | .left => true
  | _ => false

/-- No step of `insertLog`. -/
def Event.quiet : Event → Bool
  | .insertLog _ _ | .insertStep _ => false
  | _ => true

theorem batch_of_not_holds {pc : PrinterPc} (h : pc.holds = false) : pc.batch = [] := by
  cases pc with
  | printing logsTemp => simp [PrinterPc.holds] at h
  | _ => rfl

/-- A signal moves the printer from one point outside its critical section to another. -/
theorem logSignal_printer (s : State) :
    s.logSignal.printer.holds = s.printer.holds ∧ s.logSignal.printer.batch = s.printer.batch
      ∧ (s.logSignal.printer = .stopped ↔ s.printer = .stopped) := by
  unfold State.logSignal
  by_cases hpc : s.printer = .waiting
  · simp [hpc, PrinterPc.holds, PrinterPc.batch]
  · simp [hpc]

/-! ## The invariant -/

structure Inv (s : State) : Prop where
  file : s.file = s.written.map temBuf
  cancel : s.cancelRequested = true → s.dtor.leaving = true
  stopped : s.printer = .stopped → s.cancelRequested = true
  guards : s.printer ≠ .stopped → Guards s.logsMutex s.Inside
  order : s.printer ≠ .stopped →
    s.written ++ s.kept s.printer.batch ++ s.kept s.logs = s.kept s.pushed

theorem inv_start (level : Int) : Inv (.start level) where
  file := rfl
  cancel := by simp [State.start]
  stopped := by simp [State.start]
  guards := by
    intro _ t ht
    cases t with
    | inserter i => simp [State.start, State.Inside, InsertPc.holds] at ht
    | printer => simp [State.start, State.Inside, PrinterPc.holds] at ht
    | dtor => simp [State.start, State.Inside, DtorPc.holds] at ht
  order := by intro _; rfl

theorem file_moves {s s' : State} {e : Event} (hs : Inv s) (h : Moves s e s') :
    s'.file = s'.written.map temBuf := by
  have hfile := hs.file
  cases h with
  | @printerWrite r rest hpc hlevel =>
    show s.file ++ [temBuf r] = (s.written ++ [r]).map temBuf
    rw [hfile, List.map_append]
    rfl
  | _ => exact hfile

theorem cancel_moves {s s' : State} {e : Event} (hs : Inv s) (h : Moves s e s') :
    s'.cancelRequested = true → s'.dtor.leaving = true := by
  have hcancel := hs.cancel
  -- a destructor before its last branch has not asked for the cancellation
  have hnot {pc : DtorPc} (hpc : s.dtor = pc) (hl : pc.leaving = false) :
      s.cancelRequested ≠ true := by
    intro hreq
    rw [← hpc, hcancel hreq] at hl
    cases hl
  cases h with
  | dtorStart hpc => exact fun hreq => absurd hreq (hnot hpc rfl)
  | dtorLock hpc => exact fun hreq => absurd hreq (hnot hpc rfl)
  | dtorNonEmpty hpc => exact fun hreq => absurd hreq (hnot hpc rfl)
  | dtorSignal hpc => exact fun hreq => absurd hreq (hnot hpc rfl)
  | dtorUnlock hpc => exact fun hreq => absurd hreq (hnot hpc rfl)
  | dtorSleep hpc => exact fun hreq => absurd hreq (hnot hpc rfl)
  | _ => first | exact hcancel | exact fun _ => rfl

theorem stopped_moves {s s' : State} {e : Event} (hs : Inv s) (h : Moves s e s') :
    s'.printer = .stopped → s'.cancelRequested = true := by
  have hstopped := hs.stopped
  cases h with
  | insertSignal hpc => exact fun h => hstopped ((logSignal_printer s).2.2.mp h)
  | dtorSignal hpc => exact fun h => hstopped ((logSignal_printer s).2.2.mp h)
  | cancelStarting hpc hreq => exact fun _ => hreq
  | cancelWaiting hpc hreq => exact fun _ => hreq
  | cancelRunning hreq => exact fun _ => hreq
  | dtorCancel hpc => exact fun _ => rfl
  | _ => first | exact hstopped | (intro hpc; cases hpc)

/-! ### Mutual exclusion -/

theorem others_of_inserter {s s' : State} {i : Nat} (hpc : s'.printer.holds = s.printer.holds)
    (hdtor : s'.dtor = s.dtor) (hins : ∀ j, j ≠ i → s'.inserters j = s.inserters j) :
    ∀ t, t ≠ .inserter i → s'.Inside t → s.Inside t := by
  intro t ht hin
  cases t with
  | inserter j =>
    rw [State.Inside, hins j (fun h => ht (congrArg _ h))] at hin
    exact hin
  | printer =>
    show s.printer.holds = true
    rw [← hpc]
    exact hin
  | dtor => rw [State.Inside, hdtor] at hin; exact hin

theorem others_of_printer {s s' : State} (hdtor : s'.dtor = s.dtor)
    (hins : s'.inserters = s.inserters) : ∀ t, t ≠ .printer → s'.Inside t → s.Inside t := by
  intro t ht hin
  cases t with
  | inserter j => rw [State.Inside, hins] at hin; exact hin
  | printer => exact absurd rfl ht
  | dtor => rw [State.Inside, hdtor] at hin; exact hin

theorem others_of_dtor {s s' : State} (hpc : s'.printer.holds = s.printer.holds)
    (hins : s'.inserters = s.inserters) : ∀ t, t ≠ .dtor → s'.Inside t → s.Inside t := by
  intro t ht hin
  cases t with
  | inserter j => rw [State.Inside, hins] at hin; exact hin
  | printer =>
    show s.printer.holds = true
    rw [← hpc]
    exact hin
  | dtor => exact absurd rfl ht

/-- A printer that runs after the step ran before it. -/
theorem running_moves {s s' : State} {e : Event} (h : Moves s e s') (hrun : s'.printer ≠ .stopped) :
    s.printer ≠ .stopped := by
  cases h with
  | insertSignal hpc => exact fun h => hrun ((logSignal_printer s).2.2.mpr h)
  | dtorSignal hpc => exact fun h => hrun ((logSignal_printer s).2.2.mpr h)
  | cancelStarting hpc hreq => exact absurd rfl hrun
  | cancelWaiting hpc hreq => exact absurd rfl hrun
  | cancelRunning hreq => exact absurd rfl hrun
  | _ => first | exact hrun | simp [*]

/-- A cancellation stops the printer. -/
theorem stopped_of_cancel {s s' : State} (h : Moves s .cancel s') : s'.printer = .stopped := by
  cases h with
  | cancelStarting hpc hreq => rfl
  | cancelWaiting hpc hreq hfree => rfl
  | cancelRunning hreq => rfl

theorem guards_moves {s s' : State} {e : Event} (hg : Guards s.logsMutex s.Inside)
    (h : Moves s e s') (he : e ≠ .cancel) : Guards s'.logsMutex s'.Inside := by
  -- the thread that moves, and where it was
  have hins (i : Nat) (pc : InsertPc) :
      ∀ j, j ≠ i → Function.update s.inserters i pc j = s.inserters j :=
    fun j hj => Function.update_of_ne hj pc s.inserters
  cases h with
  | returned hpc hlog => exact hg
  | @prepared i call r hpc hlog =>
    refine hg.keep (t := .inserter i) (others_of_inserter rfl rfl (hins i _)) ?_
    simp [State.Inside, State.setInserter, InsertPc.holds]
  | @insertLock i r hpc hfree =>
    exact hg.acquire hfree (others_of_inserter rfl rfl (hins i _))
  | @insertPush i r hpc =>
    refine hg.keep (t := .inserter i) (others_of_inserter rfl rfl (hins i _)) ?_
    simp [State.Inside, hpc, InsertPc.holds]
  | @insertSignal i hpc =>
    refine hg.keep (t := .inserter i)
      (others_of_inserter (logSignal_printer s).1 rfl (hins i _)) ?_
    simp [State.Inside, hpc, InsertPc.holds]
  | @insertUnlock i hpc =>
    refine hg.release (t := .inserter i) ?_ (others_of_inserter rfl rfl (hins i _)) ?_
    · simp [State.Inside, hpc, InsertPc.holds]
    · simp [State.Inside, State.setInserter, InsertPc.holds]
  | printerStart hpc =>
    exact hg.keep (others_of_printer rfl rfl) (by simp [State.Inside, PrinterPc.holds])
  | printerTestcancel hpc =>
    exact hg.keep (others_of_printer rfl rfl) (by simp [State.Inside, PrinterPc.holds])
  | printerLock hpc hfree => exact hg.acquire hfree (others_of_printer rfl rfl)
  | printerWait hpc =>
    exact hg.release (t := .printer) (by simp [State.Inside, hpc, PrinterPc.holds])
      (others_of_printer rfl rfl) (by simp [State.Inside, PrinterPc.holds])
  | printerRelock hpc hfree => exact hg.acquire hfree (others_of_printer rfl rfl)
  | printerTake hpc =>
    exact hg.keep (others_of_printer rfl rfl) (by simp [State.Inside, hpc, PrinterPc.holds])
  | printerWrite hpc hlevel =>
    exact hg.keep (others_of_printer rfl rfl) (by simp [State.Inside, hpc, PrinterPc.holds])
  | printerSkip hpc hlevel =>
    exact hg.keep (others_of_printer rfl rfl) (by simp [State.Inside, hpc, PrinterPc.holds])
  | printerUnlock hpc =>
    exact hg.release (t := .printer) (by simp [State.Inside, hpc, PrinterPc.holds])
      (others_of_printer rfl rfl) (by simp [State.Inside, PrinterPc.holds])
  | spuriousWake hpc =>
    exact hg.keep (others_of_printer rfl rfl) (by simp [State.Inside, PrinterPc.holds])
  | cancelStarting hpc hreq => exact absurd rfl he
  | cancelWaiting hpc hreq => exact absurd rfl he
  | cancelRunning hreq => exact absurd rfl he
  | dtorStart hpc =>
    exact hg.keep (others_of_dtor rfl rfl) (by simp [State.Inside, DtorPc.holds])
  | dtorLock hpc hfree => exact hg.acquire hfree (others_of_dtor rfl rfl)
  | dtorNonEmpty hpc hlogs =>
    exact hg.keep (others_of_dtor rfl rfl) (by simp [State.Inside, hpc, DtorPc.holds])
  | dtorEmpty hpc hlogs =>
    exact hg.keep (others_of_dtor rfl rfl) (by simp [State.Inside, hpc, DtorPc.holds])
  | dtorSignal hpc =>
    exact hg.keep (others_of_dtor (logSignal_printer s).1 rfl)
      (by simp [State.Inside, hpc, DtorPc.holds])
  | dtorUnlock hpc =>
    exact hg.release (t := .dtor) (by simp [State.Inside, hpc, DtorPc.holds])
      (others_of_dtor rfl rfl) (by simp [State.Inside, DtorPc.holds])
  | dtorSleep hpc =>
    exact hg.keep (others_of_dtor rfl rfl) (by simp [State.Inside, DtorPc.holds])
  | dtorCancel hpc =>
    exact hg.keep (others_of_dtor rfl rfl) (by simp [State.Inside, hpc, DtorPc.holds])
  | dtorUnlockLast hpc =>
    exact hg.release (t := .dtor) (by simp [State.Inside, hpc, DtorPc.holds])
      (others_of_dtor rfl rfl) (by simp [State.Inside, DtorPc.holds])
  | dtorJoin hpc hstopped =>
    exact hg.keep (others_of_dtor rfl rfl) (by simp [State.Inside, DtorPc.holds])

/-! ### Order -/

theorem order_moves {s s' : State} {e : Event}
    (ho : s.written ++ s.kept s.printer.batch ++ s.kept s.logs = s.kept s.pushed)
    (h : Moves s e s') (he : e ≠ .cancel) :
    s'.written ++ s'.kept s'.printer.batch ++ s'.kept s'.logs = s'.kept s'.pushed := by
  cases h with
  | @insertPush i r hpc =>
    show s.written ++ s.kept s.printer.batch ++ s.kept (s.logs ++ [r]) = s.kept (s.pushed ++ [r])
    unfold State.kept at ho ⊢
    rw [List.filter_append, List.filter_append, ← ho, List.append_assoc _ _ (List.filter _ [r])]
  | insertSignal hpc =>
    show s.written ++ s.kept s.logSignal.printer.batch ++ s.kept s.logs = s.kept s.pushed
    rw [(logSignal_printer s).2.1]
    exact ho
  | dtorSignal hpc =>
    show s.written ++ s.kept s.logSignal.printer.batch ++ s.kept s.logs = s.kept s.pushed
    rw [(logSignal_printer s).2.1]
    exact ho
  | printerTake hpc =>
    show s.written ++ s.kept s.logs ++ s.kept [] = s.kept s.pushed
    rw [hpc] at ho
    rw [← ho]
    simp [State.kept, PrinterPc.batch]
  | @printerWrite r rest hpc hlevel =>
    show s.written ++ [r] ++ s.kept rest ++ s.kept s.logs = s.kept s.pushed
    rw [← ho, hpc]
    simp [State.kept, PrinterPc.batch, hlevel]
  | @printerSkip r rest hpc hlevel =>
    show s.written ++ s.kept rest ++ s.kept s.logs = s.kept s.pushed
    rw [← ho, hpc]
    simp [State.kept, PrinterPc.batch, hlevel]
  | cancelStarting hpc hreq => exact absurd rfl he
  | cancelWaiting hpc hreq => exact absurd rfl he
  | cancelRunning hreq => exact absurd rfl he
  | printerStart hpc => rw [hpc] at ho; exact ho
  | printerTestcancel hpc => rw [hpc] at ho; exact ho
  | printerLock hpc hfree => rw [hpc] at ho; exact ho
  | printerWait hpc => rw [hpc] at ho; exact ho
  | printerRelock hpc hfree => rw [hpc] at ho; exact ho
  | printerUnlock hpc => rw [hpc] at ho; exact ho
  | spuriousWake hpc => rw [hpc] at ho; exact ho
  | _ => exact ho

theorem inv_step {s s' : State} {e : Event} (hs : Inv s) (h : step s e = some s') : Inv s' := by
  have hm := moves_of_step h
  have hne (hrun : s'.printer ≠ .stopped) : e ≠ .cancel := by
    intro he
    subst he
    exact hrun (stopped_of_cancel hm)
  refine ⟨file_moves hs hm, cancel_moves hs hm, stopped_moves hs hm, ?_, ?_⟩
  · exact fun hrun => guards_moves (hs.guards (running_moves hm hrun)) hm (hne hrun)
  · exact fun hrun => order_moves (hs.order (running_moves hm hrun)) hm (hne hrun)

theorem inv_run {level : Int} {es : List Event} {s : State}
    (h : run step (.start level) es = some s) : Inv s :=
  run_invariant (fun _ _ _ => inv_step) (inv_start level) h

/-! ## The destructor's exit -/

/-- Everything is written once `~hmLog` leaves its loop. -/
def Settled (s : State) : Prop :=
  s.dtor.leaving = true →
    s.logs = [] ∧ s.printer.batch = [] ∧ s.written = s.kept s.pushed

/-- The test of the destructor: it holds the mutex, so the printer has no batch. -/
theorem settled_of_empty {s : State} (hs : Inv s) (hpc : s.dtor = .testing) (hlogs : s.logs = []) :
    s.printer.batch = [] ∧ s.written = s.kept s.pushed := by
  have hrun : s.printer ≠ .stopped := by
    intro hstop
    have hleave := hs.cancel (hs.stopped hstop)
    rw [hpc] at hleave
    cases hleave
  have hbatch : s.printer.batch = [] := by
    apply batch_of_not_holds
    rw [Bool.eq_false_iff]
    intro hholds
    have hprinter : s.Inside .printer := hholds
    have hdtor : s.Inside .dtor := by simp [State.Inside, hpc, DtorPc.holds]
    exact Thread.noConfusion ((hs.guards hrun).unique hprinter hdtor)
  refine ⟨hbatch, ?_⟩
  have ho := hs.order hrun
  rw [hbatch, hlogs] at ho
  simpa [State.kept] using ho

theorem settled_step {s s' : State} {e : Event} (hs : Inv s) (hset : Settled s)
    (hquiet : e.quiet = true) (h : step s e = some s') : Settled s' := by
  intro hleave
  cases moves_of_step h with
  | returned hpc hlog => cases hquiet
  | prepared hpc hlog => cases hquiet
  | insertLock hpc hfree => cases hquiet
  | insertPush hpc => cases hquiet
  | insertSignal hpc => cases hquiet
  | insertUnlock hpc => cases hquiet
  | printerTake hpc =>
    -- the moved-out vector is empty
    obtain ⟨hlogs, -, hwritten⟩ := hset hleave
    exact ⟨rfl, hlogs, hwritten⟩
  | printerWrite hpc hlevel =>
    obtain ⟨-, hbatch, -⟩ := hset hleave
    rw [hpc] at hbatch
    cases hbatch
  | printerSkip hpc hlevel =>
    obtain ⟨-, hbatch, -⟩ := hset hleave
    rw [hpc] at hbatch
    cases hbatch
  | dtorEmpty hpc hlogs =>
    obtain ⟨hbatch, hwritten⟩ := settled_of_empty hs hpc hlogs
    exact ⟨hlogs, hbatch, hwritten⟩
  | dtorCancel hpc => exact hset (by rw [hpc]; rfl)
  | dtorUnlockLast hpc => exact hset (by rw [hpc]; rfl)
  | dtorJoin hpc hstopped => exact hset (by rw [hpc]; rfl)
  | dtorStart hpc => cases hleave
  | dtorLock hpc hfree => cases hleave
  | dtorNonEmpty hpc hlogs => cases hleave
  | dtorSignal hpc => cases hleave
  | dtorUnlock hpc => cases hleave
  | dtorSleep hpc => cases hleave
  | _ =>
    obtain ⟨hlogs, -, hwritten⟩ := hset hleave
    exact ⟨hlogs, rfl, hwritten⟩

/-- **The log is a queue.** In every state of every schedule of the printer and any number of
calls of `insertLog`, the file has the lines of the records written, and what is written, the
printer's batch and `logs` are, in this order, the kept records in the order they were pushed.
(Only a cancellation by `~hmLog` stops the printer.) And when `~hmLog` leaves its drain loop with
no `insertLog` running any more, nothing is left in the batch or in `logs`. An `insertLog` between
the last look at `logs` and the `pthread_join` is excluded by this: its record may stay in `logs`
with nobody to print it. -/
theorem log_records_in_order (level : Int) (es : List Event) (s : State)
    (hrun : run step (.start level) es = some s) :
    s.file = s.written.map temBuf
    ∧ (s.printer ≠ .stopped →
      s.written ++ s.kept s.printer.batch ++ s.kept s.logs = s.kept s.pushed)
    ∧ ∀ fs s', s.dtor.leaving = false → (∀ e ∈ fs, e.quiet = true) →
        run step s fs = some s' → s'.dtor.leaving = true →
        s'.logs = [] ∧ s'.printer.batch = [] ∧ s'.written = s'.kept s'.pushed := by
  have hs := inv_run hrun
  refine ⟨hs.file, hs.order, ?_⟩
  intro fs s' hbefore hquiet hfs hleave
  have hset : Settled s := fun h => by rw [hbefore] at h; cases h
  have hboth : Inv s' ∧ Settled s' :=
    run_invariant_of_meets (I := fun s => Inv s ∧ Settled s)
      (fun _ _ _ hi he h => ⟨inv_step hi.1 h, settled_step hi.1 hi.2 he h⟩)
      ⟨hs, hset⟩ (meets_of_forall hquiet s) hfs
  exact hboth.2 hleave

/-- A call with the message `x` at a level. -/
def callAt (level : Int) : InsertLog where
  level := level
  pid := 1
  tid := 1
  fileName := ascii "f"
  funcName := ascii "g"
  line := 1
  text := some (ascii "x")
  malloc := true
  now := ⟨120, 0, 1, 0, 0, 0⟩

/-- The first signal comes before the printer waits and is lost; the second wakes it for both
records, one of which is below the level. -/
def lostWakeSchedule : List Event :=
  [.insertLog 0 (callAt 3), .insertStep 0, .insertStep 0, .insertStep 0, .insertStep 0,
   .printStep, .printStep, .printStep, .printStep,
   .insertLog 1 (callAt 0), .insertStep 1, .insertStep 1, .insertStep 1, .insertStep 1,
   .printStep, .printStep, .printStep, .printStep, .printStep]

def drainSchedule : List Event :=
  [.dtorStep, .dtorStep, .dtorStep, .dtorStep, .dtorStep, .cancel, .dtorStep]

theorem log_records_in_order_lost_wake :
    ∃ s s', run step (.start 1) lostWakeSchedule = some s ∧ s.dtor.leaving = false
      ∧ run step s drainSchedule = some s' ∧ s'.dtor = .left ∧ s'.pushed.length = 2
      ∧ s'.logs = [] ∧ s'.printer.batch = [] ∧ s'.written = s'.kept s'.pushed := by
  have hfirst : (run step (.start 1) lostWakeSchedule).map (·.dtor.leaving) = some false := by
    decide
  have hboth : (run step (.start 1) (lostWakeSchedule ++ drainSchedule)).map
      (fun s => (s.dtor, s.pushed.length)) = some (.left, 2) := by decide
  obtain ⟨s, hs, hbefore⟩ := Option.map_eq_some_iff.mp hfirst
  obtain ⟨s', hs', hend⟩ := Option.map_eq_some_iff.mp hboth
  obtain ⟨m, hm, hdrain⟩ := run_append.mp hs'
  rw [hs, Option.some.injEq] at hm
  subst hm
  obtain ⟨hleft, hlen⟩ := Prod.mk.inj hend
  refine ⟨s, s', hs, hbefore, hdrain, hleft, hlen, ?_⟩
  exact (log_records_in_order 1 lostWakeSchedule s hs).2.2 drainSchedule s' hbefore (by decide)
    hdrain (by rw [hleft]; rfl)

end HomeKeeper.Log
