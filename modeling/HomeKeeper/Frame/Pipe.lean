import HomeKeeper.Lib.Run
import HomeKeeper.Lib.CData
import Mathlib.Logic.Function.Basic

/-!
# `U::pipe` of `common/common.cpp` — who is connected to whom

The frame master and every call of `tools` construct a `U::pipe` on the same name. The constructor
opens the FIFO behind the name; when there is none it makes one and is its owner. The destructor
of an owner unlinks the name, and so does `cleanSources` of the master, owner or not.

An unlinked FIFO lives on for those who have it open, but nobody can open it any more. So a master
that has opened the FIFO of a `tools` that came first loses its name when that `tools` ends, and
what is sent afterwards goes into another FIFO.

A FIFO is named by the process that made it: a process constructs one `U::pipe` and makes at most
one FIFO. Each system call is a step, and processes are started and killed at any time.
-/

namespace HomeKeeper.Frame.Pipe

open StepSystem CData

abbrev Pid := Nat

inductive Fifo where
  | found
  | madeBy (p : Pid)
  deriving DecidableEq, Repr

/-- Where a process is in the life of its `U::pipe`; a descriptor is `none` for `-1`. -/
inductive Pc where
  | opening
  | creating
  | reopening
  | ready (fd : Option Fifo) (owner : Bool)
  | cleaned (owner : Bool)
  | ended
  | killed (owner : Bool)
  deriving DecidableEq, Repr

structure World where
  entry : Option Fifo
  process : Pid → Pc
  queued : List (Fifo × Pid × Bytes)

/-- No process has begun; a FIFO may be left over from earlier. -/
def World.start (stale : Bool) : World :=
  ⟨if stale then some .found else none, fun _ => .opening, []⟩

inductive Event where
  | tryOpen (p : Pid) (ok : Bool)
  | mkfifo (p : Pid) (ok : Bool)
  | reopen (p : Pid) (ok : Bool)
  | senMsg (p : Pid) (msg : Bytes)
  | cleanSources (p : Pid)
  | destroy (p : Pid)
  | kill (p : Pid)
  deriving DecidableEq

/-- The process has made a FIFO, and its destructor has not run. -/
def Pc.owns : Pc → Bool
  | .reopening => true
  | .ready _ owner => owner
  | .cleaned owner => owner
  | .killed owner => owner
  | _ => false

def World.set (w : World) (p : Pid) (pc : Pc) : World :=
  { w with process := Function.update w.process p pc }

section
variable (w : World) (p : Pid) (pc : Pc)

@[simp] theorem World.set_process_self : (w.set p pc).process p = pc :=
  Function.update_self ..

variable {w p pc}

theorem World.set_process_of_ne {q : Pid} (h : q ≠ p) : (w.set p pc).process q = w.process q :=
  Function.update_of_ne h ..

theorem World.owns_set (h : pc.owns = (w.process p).owns) (q : Pid) :
    ((w.set p pc).process q).owns = (w.process q).owns := by
  by_cases hq : q = p
  · rw [hq, set_process_self, h]
  · rw [set_process_of_ne hq]

end

def step (w : World) : Event → Option World
  | .tryOpen p ok =>
    match w.process p with
    | .opening =>
      if !ok then some (w.set p (.ready none false))
      else
        match w.entry with
        | some f => some (w.set p (.ready (some f) false))
        -- `errno == 2`
        | none => some (w.set p .creating)
    | _ => none
  | .mkfifo p ok =>
    match w.process p with
    | .creating =>
      if ok && w.entry.isNone then some { w.set p .reopening with entry := some (.madeBy p) }
      else some (w.set p (.ready none false))
    | _ => none
  | .reopen p ok =>
    match w.process p with
    | .reopening => some (w.set p (.ready (if ok then w.entry else none) true))
    | _ => none
  | .senMsg p msg =>
    match w.process p with
    | .ready (some f) _ => some { w with queued := w.queued ++ [(f, p, msg)] }
    | .ready none _ => some w
    | _ => none
  | .cleanSources p =>
    match w.process p with
    | .ready _ owner => some { w.set p (.cleaned owner) with entry := none }
    | _ => none
  | .destroy p =>
    match w.process p with
    | .ready _ owner | .cleaned owner =>
      some { w.set p .ended with entry := if owner then none else w.entry }
    | _ => none
  | .kill p =>
    match w.process p with
    | .ended | .killed _ => none
    | pc => some (w.set p (.killed pc.owns))

/-! ## What a step can do -/

inductive Moves (w : World) : Event → World → Prop where
  | opened {p f} (hpc : w.process p = .opening) (hentry : w.entry = some f) :
      Moves w (.tryOpen p true) (w.set p (.ready (some f) false))
  | absent {p} (hpc : w.process p = .opening) (hentry : w.entry = none) :
      Moves w (.tryOpen p true) (w.set p .creating)
  | openFailed {p} (hpc : w.process p = .opening) :
      Moves w (.tryOpen p false) (w.set p (.ready none false))
  | made {p} (hpc : w.process p = .creating) (hentry : w.entry = none) :
      Moves w (.mkfifo p true) { w.set p .reopening with entry := some (.madeBy p) }
  | makeFailed {p ok} (hpc : w.process p = .creating) :
      Moves w (.mkfifo p ok) (w.set p (.ready none false))
  | reopened {p ok fd} (hpc : w.process p = .reopening) (hfd : ∀ f ∈ fd, w.entry = some f) :
      Moves w (.reopen p ok) (w.set p (.ready fd true))
  | sent {p msg f owner} (hpc : w.process p = .ready (some f) owner) :
      Moves w (.senMsg p msg) { w with queued := w.queued ++ [(f, p, msg)] }
  | notSent {p msg owner} (hpc : w.process p = .ready none owner) : Moves w (.senMsg p msg) w
  | cleaned {p fd owner} (hpc : w.process p = .ready fd owner) :
      Moves w (.cleanSources p) { w.set p (.cleaned owner) with entry := none }
  | destroyed {p owner} (howns : (w.process p).owns = owner) :
      Moves w (.destroy p) { w.set p .ended with entry := if owner then none else w.entry }
  | killed {p} (hpc : w.process p ≠ .ended) :
      Moves w (.kill p) (w.set p (.killed (w.process p).owns))

theorem moves_of_step {w w' : World} {e : Event} (h : step w e = some w') : Moves w e w' := by
  cases e with
  | tryOpen p ok =>
    cases hpc : w.process p with
    | opening =>
      cases ok with
      | false =>
        simp only [step, hpc, Bool.not_false, if_true, Option.some.injEq] at h
        exact h ▸ .openFailed hpc
      | true =>
        cases hentry : w.entry with
        | some f =>
          simp only [step, hpc, hentry, Bool.not_true, Bool.false_eq_true, if_false,
            Option.some.injEq] at h
          exact h ▸ .opened hpc hentry
        | none =>
          simp only [step, hpc, hentry, Bool.not_true, Bool.false_eq_true, if_false,
            Option.some.injEq] at h
          exact h ▸ .absent hpc hentry
    | _ => simp [step, hpc] at h
  | mkfifo p ok =>
    cases hpc : w.process p with
    | creating =>
      simp only [step, hpc] at h
      split at h
      · next hok =>
        rw [Bool.and_eq_true, Option.isNone_iff_eq_none] at hok
        obtain ⟨rfl, hentry⟩ := hok
        exact Option.some.inj h ▸ .made hpc hentry
      · exact Option.some.inj h ▸ .makeFailed hpc
    | _ => simp [step, hpc] at h
  | reopen p ok =>
    cases hpc : w.process p with
    | reopening =>
      simp only [step, hpc, Option.some.injEq] at h
      refine h ▸ .reopened hpc fun f hf => ?_
      split at hf
      · exact hf
      · cases hf
    | _ => simp [step, hpc] at h
  | senMsg p msg =>
    cases hpc : w.process p with
    | ready fd owner =>
      cases fd with
      | some f =>
        simp only [step, hpc, Option.some.injEq] at h
        exact h ▸ .sent hpc
      | none =>
        simp only [step, hpc, Option.some.injEq] at h
        exact h ▸ .notSent hpc
    | _ => simp [step, hpc] at h
  | cleanSources p =>
    cases hpc : w.process p with
    | ready fd owner =>
      simp only [step, hpc, Option.some.injEq] at h
      exact h ▸ .cleaned hpc
    | _ => simp [step, hpc] at h
  | destroy p =>
    cases hpc : w.process p with
    | ready fd owner =>
      simp only [step, hpc, Option.some.injEq] at h
      exact h ▸ .destroyed (by rw [hpc]; rfl)
    | cleaned owner =>
      simp only [step, hpc, Option.some.injEq] at h
      exact h ▸ .destroyed (by rw [hpc]; rfl)
    | _ => simp [step, hpc] at h
  | kill p =>
    cases hpc : w.process p with
    | ended => simp [step, hpc] at h
    | killed owner => simp [step, hpc] at h
    | _ =>
      simp only [step, hpc, Option.some.injEq] at h
      rw [← hpc] at h
      exact h ▸ .killed (by rw [hpc]; nofun)

/-! ## Before the master cleans up

Until then a name is unlinked by the owner of the FIFO behind it and by nobody else. -/

/-- The FIFO was there, or a process has made it. -/
def World.Known (stale : Bool) (w : World) : Fifo → Prop
  | .found => stale = true
  | .madeBy c => (w.process c).owns = true ∨ w.process c = .ended

structure Linked (stale : Bool) (w : World) : Prop where
  owns : ∀ p, (w.process p).owns = true ↔ w.entry = some (.madeBy p)
  found : w.entry = some .found ↔ stale = true
  fd : ∀ p f owner, w.process p = .ready (some f) owner → w.Known stale f
  queued : ∀ f p msg, (f, p, msg) ∈ w.queued → w.process p ≠ .opening

section
variable {stale : Bool} {w w' : World} {e : Event}

theorem linked_start (stale : Bool) : Linked stale (.start stale) where
  owns p := by cases stale <;> simp [World.start, Pc.owns]
  found := by cases stale <;> simp [World.start]
  fd := fun p f owner h => absurd h nofun
  queued := fun f p msg h => absurd h List.not_mem_nil

theorem Linked.owns_moves (h : Linked stale w) (hmoves : Moves w e w')
    (hclean : ∀ p, e ≠ .cleanSources p) (q : Pid) :
    (w'.process q).owns = true ↔ w'.entry = some (.madeBy q) := by
  have howns := h.owns q
  cases hmoves with
  | opened hpc hentry => rw [World.owns_set (by rw [hpc]; rfl)]; exact howns
  | absent hpc hentry => rw [World.owns_set (by rw [hpc]; rfl)]; exact howns
  | openFailed hpc => rw [World.owns_set (by rw [hpc]; rfl)]; exact howns
  | @made p hpc hentry =>
    by_cases hq : q = p
    · simp [hq, Pc.owns]
    · rw [hentry] at howns
      simp only [World.set_process_of_ne hq, howns, Option.some.injEq, Fifo.madeBy.injEq]
      exact ⟨nofun, fun hpq => absurd hpq.symm hq⟩
  | makeFailed hpc => rw [World.owns_set (by rw [hpc]; rfl)]; exact howns
  | reopened hpc hfd => rw [World.owns_set (by rw [hpc]; rfl)]; exact howns
  | sent hpc => exact howns
  | notSent hpc => exact howns
  | cleaned hpc => exact absurd rfl (hclean _)
  | @destroyed p owner howner =>
    cases owner with
    | false =>
      have hsame : Pc.ended.owns = (w.process p).owns := howner.symm
      rw [World.owns_set hsame]
      exact howns
    | true =>
      -- the name is linked to the FIFO of `p`, so nobody else owns one
      have hentry := (h.owns p).mp howner
      by_cases hq : q = p
      · simp [hq, Pc.owns]
      · rw [hentry, Option.some.injEq, Fifo.madeBy.injEq] at howns
        simp only [World.set_process_of_ne hq, howns, if_true]
        exact ⟨fun hpq => absurd hpq.symm hq, nofun⟩
  | @killed p hpc =>
    have hsame : (Pc.killed (w.process p).owns).owns = (w.process p).owns := rfl
    rw [World.owns_set hsame]
    exact howns

theorem Linked.found_moves (h : Linked stale w) (hmoves : Moves w e w')
    (hclean : ∀ p, e ≠ .cleanSources p) : w'.entry = some .found ↔ stale = true := by
  have hfound := h.found
  cases hmoves with
  | @made p hpc hentry =>
    rw [hentry] at hfound
    rw [← hfound]
    exact ⟨nofun, nofun⟩
  | cleaned hpc => exact absurd rfl (hclean _)
  | @destroyed p owner howner =>
    cases owner with
    | false => exact hfound
    | true =>
      rw [(h.owns p).mp howner] at hfound
      rw [← hfound]
      exact ⟨nofun, nofun⟩
  | _ => exact hfound

theorem known_moves {f : Fifo} (h : w.Known stale f) (hmoves : Moves w e w') :
    w'.Known stale f := by
  cases f with
  | found => exact h
  | madeBy c =>
    have hset {p : Pid} {pc : Pc} (howns : pc.owns = (w.process p).owns)
        (hended : w.process p ≠ .ended) : (w.set p pc).Known stale (.madeBy c) := by
      refine h.imp (fun hc => (World.owns_set howns c).trans hc) fun hc => ?_
      have hne : c ≠ p := fun hcp => hended (hcp ▸ hc)
      rw [World.set_process_of_ne hne]
      exact hc
    cases hmoves with
    | opened hpc hentry => exact hset (by rw [hpc]; rfl) (by rw [hpc]; nofun)
    | absent hpc hentry => exact hset (by rw [hpc]; rfl) (by rw [hpc]; nofun)
    | openFailed hpc => exact hset (by rw [hpc]; rfl) (by rw [hpc]; nofun)
    | @made p hpc hentry =>
      by_cases hc : c = p
      · exact Or.inl (by simp [hc, Pc.owns])
      · rw [World.Known, World.set_process_of_ne hc]
        exact h
    | makeFailed hpc => exact hset (by rw [hpc]; rfl) (by rw [hpc]; nofun)
    | reopened hpc hfd => exact hset (by rw [hpc]; rfl) (by rw [hpc]; nofun)
    | sent hpc => exact h
    | notSent hpc => exact h
    | cleaned hpc => exact hset (by rw [hpc]; rfl) (by rw [hpc]; nofun)
    | @destroyed p owner howner =>
      by_cases hc : c = p
      · exact Or.inr (by simp [hc])
      · rw [World.Known, World.set_process_of_ne hc]
        exact h
    | killed hpc => exact hset rfl hpc

/-- Nothing but the FIFO behind the name is opened. -/
theorem fd_moves {p : Pid} {f : Fifo} {owner : Bool} (hmoves : Moves w e w')
    (hpc : w'.process p = .ready (some f) owner) :
    (∃ owner', w.process p = .ready (some f) owner') ∨ w.entry = some f := by
  -- a process that does not move has the descriptor it had
  have hset {q : Pid} {pc : Pc} (hpc : (w.set q pc).process p = .ready (some f) owner)
      (hnew : pc = .ready (some f) owner → w.entry = some f) :
      (∃ owner', w.process p = .ready (some f) owner') ∨ w.entry = some f := by
    by_cases hpq : p = q
    · rw [hpq, World.set_process_self] at hpc
      exact Or.inr (hnew hpc)
    · rw [World.set_process_of_ne hpq] at hpc
      exact Or.inl ⟨owner, hpc⟩
  cases hmoves with
  | opened _ hentry =>
    refine hset hpc fun heq => ?_
    rw [Pc.ready.injEq, Option.some.injEq] at heq
    exact heq.1 ▸ hentry
  | absent _ _ => exact hset hpc nofun
  | openFailed _ => exact hset hpc nofun
  | made _ _ => exact hset hpc nofun
  | makeFailed _ => exact hset hpc nofun
  | reopened _ hfd =>
    refine hset hpc fun heq => hfd f ?_
    rw [Pc.ready.injEq] at heq
    exact heq.1
  | sent _ => exact Or.inl ⟨owner, hpc⟩
  | notSent _ => exact Or.inl ⟨owner, hpc⟩
  | cleaned _ => exact hset hpc nofun
  | destroyed _ => exact hset hpc nofun
  | killed _ => exact hset hpc nofun

/-- A process does not begin twice. -/
theorem ne_opening_moves {p : Pid} (hmoves : Moves w e w') (hpc : w.process p ≠ .opening) :
    w'.process p ≠ .opening := by
  have hset {q : Pid} {pc : Pc} (hnew : pc ≠ .opening) : (w.set q pc).process p ≠ .opening := by
    by_cases hpq : p = q
    · rw [hpq, World.set_process_self]
      exact hnew
    · rw [World.set_process_of_ne hpq]
      exact hpc
  cases hmoves with
  | sent _ => exact hpc
  | notSent _ => exact hpc
  | _ => exact hset nofun

/-- A message goes into the FIFO its sender has open. -/
theorem queued_moves {f : Fifo} {p : Pid} {msg : Bytes} (hmoves : Moves w e w')
    (hmem : (f, p, msg) ∈ w'.queued) :
    (f, p, msg) ∈ w.queued ∨ ∃ owner, w.process p = .ready (some f) owner := by
  cases hmoves with
  | @sent q msg' g owner hpc =>
    obtain hmem | hmem := List.mem_append.mp hmem
    · exact Or.inl hmem
    · rw [List.mem_singleton, Prod.mk.injEq, Prod.mk.injEq] at hmem
      obtain ⟨rfl, rfl, -⟩ := hmem
      exact Or.inr ⟨owner, hpc⟩
  | _ => exact Or.inl hmem

theorem Linked.known_entry (h : Linked stale w) {f : Fifo} (hf : w.entry = some f) :
    w.Known stale f := by
  cases f with
  | found => exact h.found.mp hf
  | madeBy c => exact Or.inl ((h.owns c).mpr hf)

theorem linked_step (h : Linked stale w) (hclean : ∀ p, e ≠ .cleanSources p)
    (hstep : step w e = some w') : Linked stale w' := by
  have hmoves := moves_of_step hstep
  refine ⟨h.owns_moves hmoves hclean, h.found_moves hmoves hclean, ?_, ?_⟩
  · intro p f owner hpc
    obtain ⟨owner', hpc'⟩ | hentry := fd_moves hmoves hpc
    · exact known_moves (h.fd p f owner' hpc') hmoves
    · exact known_moves (h.known_entry hentry) hmoves
  · intro f p msg hmem
    refine ne_opening_moves hmoves ?_
    obtain hmem | ⟨owner, hpc⟩ := queued_moves hmoves hmem
    · exact h.queued f p msg hmem
    · rw [hpc]
      nofun

theorem linked_run {es : List Event} (h : Linked stale w)
    (hclean : ∀ e ∈ es, ∀ p, e ≠ .cleanSources p) (hrun : run step w es = some w') :
    Linked stale w' :=
  run_invariant_of_meets (fun _ _ _ hs he => linked_step hs he) h (meets_of_forall hclean w) hrun

/-- A FIFO that is open somewhere has its name as long as the destructor of the process that made
it has not run. -/
theorem Linked.entry_iff (h : Linked stale w) {f : Fifo} (hf : w.Known stale f) :
    w.entry = some f ↔ ∀ c, f = .madeBy c → w.process c ≠ .ended := by
  cases f with
  | found => exact iff_of_true (h.found.mpr hf) nofun
  | madeBy c =>
    rw [← h.owns c]
    constructor
    · intro howns c' hc hended
      obtain rfl := Fifo.madeBy.inj hc
      rw [hended] at howns
      exact Bool.false_ne_true howns
    · exact fun hne => hf.resolve_right (hne c rfl)

/-! ## A process that begins later -/

/-- What `p` has open or has written to. -/
structure Writes (C : Fifo → Prop) (p : Pid) (w : World) : Prop where
  fd : ∀ f owner, w.process p = .ready (some f) owner → C f
  queued : ∀ f msg, (f, p, msg) ∈ w.queued → C f

theorem Linked.writes (h : Linked stale w) {p : Pid} (hnew : w.process p = .opening)
    (C : Fifo → Prop) : Writes C p w := by
  constructor
  · intro f owner hpc
    rw [hnew] at hpc
    cases hpc
  · intro f msg hmem
    exact absurd hnew (h.queued f p msg hmem)

end

/-! ## Which messages the master can read -/

/-- Before the master cleans up: the name leads to a FIFO that is open somewhere if and only if
the destructor of the process that made it has not run. So at most one of the processes that made
a FIFO still has it under the name. -/
theorem fifo_linked_iff {stale : Bool} {es : List Event} {w : World}
    (hrun : run step (.start stale) es = some w)
    (hclean : ∀ e ∈ es, ∀ p, e ≠ .cleanSources p) :
    (∀ m f owner, w.process m = .ready (some f) owner →
      (w.entry = some f ↔ ∀ c, f = .madeBy c → w.process c ≠ .ended)) ∧
    ∀ p q, (w.process p).owns = true → (w.process q).owns = true → p = q := by
  have h := linked_run (linked_start stale) hclean hrun
  refine ⟨fun m f owner hpc => h.entry_iff (h.fd m f owner hpc), fun p q hp hq => ?_⟩
  have heq := ((h.owns p).mp hp).symm.trans ((h.owns q).mp hq)
  exact Fifo.madeBy.inj (Option.some.inj heq)

/-- A `tools` with the pid 1 comes first, and the master opens its FIFO. -/
def toolsFirst : List Event :=
  [.tryOpen 1 true, .mkfifo 1 true, .reopen 1 true, .senMsg 1 (ascii "a"), .tryOpen 0 true]

def metFirst : World := (run step (.start false) toolsFirst).get (by decide)
theorem fifo_linked_iff_first :
    metFirst.process 0 = .ready (some (.madeBy 1)) false ∧
      (metFirst.entry = some (.madeBy 1) ↔
        ∀ c, Fifo.madeBy 1 = .madeBy c → metFirst.process c ≠ .ended) := by
  have hmaster : metFirst.process 0 = .ready (some (.madeBy 1)) false := by decide
  have hrun : run step (.start false) toolsFirst = some metFirst := (Option.some_get _).symm
  refine ⟨hmaster, (fifo_linked_iff hrun ?_).1 0 _ _ hmaster⟩
  simp [toolsFirst]

end HomeKeeper.Frame.Pipe
