import HomeKeeper.Proxy.Forwarding

/-!
# The life of a connection

At end of file the loop takes a client apart completely: out of the epoll set, `tcpClient`
deleted, entry erased, descriptor closed. The three other exits do none of this. A failed `accept`
leaves a `tcpClient` under the key `-1`, a failed `epoll_ctl` an open descriptor that no event will
ever be reported for, and both drop the rest of the batch; a read that fails for good leaves
everything as it was. Before all of this a `getMsg` that does not return keeps the loop from coming
to `epoll_ctl`.

`lifecycle_clean`: without these four, and without a lookup that ends at `clients.end ()`, the
keys of `clients` are the open registered descriptors after every event, and every connection that
ended was taken apart exactly once. `reset_never_closed` is a run with one `ECONNRESET`.
-/

namespace HomeKeeper.Proxy

open CData StepSystem

structure Lifecycle (s : State) : Prop where
  /-- The keys are the descriptors accepted, registered and not yet closed. -/
  keys : ∀ fd, s.clients fd ≠ none ↔ s.conn fd ≠ none ∧ s.registered fd = true
  /-- A connection that failed for good or reached end of file was taken apart once. -/
  ended : ∀ n ∈ s.ended, s.closed.count n = 1 ∧ s.deleted.count n = 1 ∧ s.erased.count n = 1
  /-- No event of a batch was left out. -/
  handled : s.skipped = []
  defined : s.fault = false

/-- `accept` and `epoll_ctl` succeed and the `getMsg` between them returns, `read` fails with
`EAGAIN` only, and where bytes are read the entry of `clnt_sock` exists. -/
def Clean (s : State) : Event → Prop
  | .accept result reads rounds epollCtl =>
    result ≠ none ∧ (getMsg reads rounds).messageOut? ≠ none ∧ epollCtl = true
  | .data bytes stop =>
    (bytes ≠ [] → s.clients s.clntSock ≠ none) ∧ (stop = .eof ∨ stop = .failed eagain)
  | _ => True

instance (s : State) : (e : Event) → Decidable (Clean s e)
  | .accept result reads rounds epollCtl => inferInstanceAs (Decidable
      (result ≠ none ∧ (getMsg reads rounds).messageOut? ≠ none ∧ epollCtl = true))
  | .data bytes stop => inferInstanceAs (Decidable
      ((bytes ≠ [] → s.clients s.clntSock ≠ none) ∧ (stop = .eof ∨ stop = .failed eagain)))
  | .epollWait _ => isTrue trivial
  | .epollWaitFailed => isTrue trivial

/-! ## The invariant -/

structure Tidy (s : State) : Prop where
  clients : s.clients = s.conn
  registered : ∀ fd, s.conn fd ≠ none → s.registered fd = true
  closed : s.closed = s.ended
  deleted : s.deleted = s.ended
  erased : s.erased = s.ended
  nodup : s.ended.Nodup
  numbers : ∀ n ∈ s.ended, n < s.next
  live : ∀ fd n, s.conn fd = some n → n ∉ s.ended
  handled : s.skipped = []
  defined : s.fault = false

theorem tidy_start (servSock clntSock : Int) : Tidy (.start servSock clntSock) := by
  constructor <;> simp [State.start]

theorem tidy_accepted {s : State} {fd : Int} (hinv : Inv s) (hs : Tidy s) (hfresh : s.Fresh fd) :
    Tidy { s.accepted fd with registered := Function.update s.registered fd true } where
  clients := by
    show (s.accepted fd).clients = Function.update s.conn fd (some s.next)
    rw [clients_accepted hinv hfresh, hs.clients]
  registered := by
    intro x hx
    show Function.update s.registered fd true x = true
    by_cases hxf : x = fd
    · rw [hxf, Function.update_self]
    · rw [Function.update_of_ne hxf]
      apply hs.registered x
      simpa only [State.accepted, Function.update_of_ne hxf] using hx
  closed := hs.closed
  deleted := hs.deleted
  erased := hs.erased
  nodup := hs.nodup
  numbers := fun n hn => Nat.lt_succ_of_lt (hs.numbers n hn)
  live := by
    intro x n hn
    by_cases hxf : x = fd
    · -- the number of the new connection is above all that have ended
      simp only [State.accepted, hxf, Function.update_self, Option.some.injEq] at hn
      intro hmem
      have := hs.numbers n hmem
      omega
    · simp only [State.accepted, Function.update_of_ne hxf] at hn
      exact hs.live x n hn
  handled := hs.handled
  defined := hs.defined

theorem tidy_closeClient {s : State} {fd : Int} {n : Nat} (hinv : Inv s) (hs : Tidy s)
    (hconn : s.conn fd = some n) (hclients : s.clients fd = some n) :
    Tidy (closeClient s fd) := by
  simp only [closeClient, hclients, hconn, Option.toList_some]
  constructor
  case clients =>
    show Function.update s.clients fd none = Function.update s.conn fd none
    rw [hs.clients]
  case registered =>
    intro x hx
    obtain ⟨m, hm⟩ := Option.ne_none_iff_exists'.mp hx
    obtain ⟨hxf, hxm⟩ := conn_of_closed hm
    show Function.update s.registered fd false x = true
    rw [Function.update_of_ne hxf]
    exact hs.registered x (by simp [hxm])
  case closed => exact congrArg (· ++ [n]) hs.closed
  case deleted => exact congrArg (· ++ [n]) hs.deleted
  case erased => exact congrArg (· ++ [n]) hs.erased
  case nodup =>
    show (s.ended ++ [n]).Nodup
    rw [List.nodup_append]
    refine ⟨hs.nodup, List.nodup_singleton n, ?_⟩
    intro a ha b hb hab
    rw [List.mem_singleton] at hb
    exact hs.live fd n hconn (hb ▸ hab ▸ ha)
  case numbers =>
    intro m hm
    rcases List.mem_append.mp hm with hm | hm
    · exact hs.numbers m hm
    · rw [List.mem_singleton.mp hm]
      exact (hinv.conn fd n hconn).2
  case live =>
    intro x m hm hmem
    obtain ⟨hxf, hxm⟩ := conn_of_closed hm
    rcases List.mem_append.mp hmem with hmem | hmem
    · exact hs.live x m hxm hmem
    · -- two descriptors never share a connection
      rw [List.mem_singleton.mp hmem] at hxm
      exact hxf (hinv.conn_inj x fd n hxm hconn)
  case handled => exact hs.handled
  case defined => exact hs.defined

theorem tidy_forward {s : State} {fd : Int} {bytes : Bytes} (hs : Tidy s)
    (hentry : bytes ≠ [] → s.clients s.clntSock ≠ none) : Tidy (forward s fd bytes) := by
  have hfault : (forward s fd bytes).fault = s.fault := forward_fault hentry
  obtain ⟨fault, reads, sends, hframe⟩ := forward_frame s fd bytes
  rw [hframe] at hfault ⊢
  exact { hs with defined := hfault.trans hs.defined }

theorem tidy_step {s s' : State} {e : Event} (hinv : Inv s) (hs : Tidy s) (he : Clean s e)
    (h : step s e = some s') : Tidy s' := by
  obtain ⟨-, hm⟩ := moves_of_step h
  cases hm with
  | waited hev hready => exact { hs with }
  | waitFailed => exact { hs with }
  | failedLost hev hlost => exact absurd rfl he.1
  | acceptFailed hev => exact absurd rfl he.1
  | acceptedLost hev hfresh hlost => exact absurd hlost he.2.1
  | unregistered hev hfresh => cases he.2.2
  | registered hev hfresh =>
    have hacc := tidy_accepted (inv_tail hinv hev).1 { hs with } hfresh
    exact { hacc with }
  | @data fd rest bytes stop hev hfd =>
    obtain ⟨n, hconn, hclients⟩ := reported_client hinv hev hfd
    have htail := (inv_tail hinv hev).1
    have hfwd : Tidy (forward { s with events := rest } fd bytes) :=
      tidy_forward { hs with } he.1
    have hfwdInv := inv_forward htail fd bytes
    unfold dataBranch
    simp only [hfwd.defined, Bool.false_eq_true, if_false]
    obtain ⟨fault, reads, sends, hframe⟩ := forward_frame { s with events := rest } fd bytes
    rcases he.2 with hstop | hstop
    · rw [hstop]
      exact tidy_closeClient hfwdInv hfwd (by rw [hframe]; exact hconn)
        (by rw [hframe]; exact hclients)
    · rw [hstop]
      simpa only [endRead, if_true] using hfwd

theorem lifecycle_of_tidy {s : State} (hs : Tidy s) : Lifecycle s where
  keys := by
    intro fd
    rw [hs.clients]
    exact ⟨fun h => ⟨h, hs.registered fd h⟩, fun h => h.1⟩
  ended := by
    intro n hn
    rw [hs.closed, hs.deleted, hs.erased]
    have hcount := List.count_eq_one_of_mem hs.nodup hn
    exact ⟨hcount, hcount, hcount⟩
  handled := hs.handled
  defined := hs.defined

/-- **Connections are taken apart exactly once and the map follows the open descriptors**, in
every state of every run whose steps are clean. -/
theorem lifecycle_clean (servSock clntSock : Int) (es : List Event) (s : State)
    (hrun : run step (.start servSock clntSock) es = some s)
    (hes : Meets step Clean (.start servSock clntSock) es) : Lifecycle s := by
  have hboth : Inv s ∧ Tidy s :=
    run_invariant_of_meets (I := fun s => Inv s ∧ Tidy s)
      (fun _ _ _ hi he h => ⟨inv_step hi.1 h, tidy_step hi.1 hi.2 he h⟩)
      ⟨inv_start servSock clntSock, tidy_start servSock clntSock⟩ hes hrun
  exact lifecycle_of_tidy hboth.2

/-- Two clients in one batch each, the first of which leaves while the second sends. -/
def leaveSchedule : List Event :=
  [.epollWait [3], .accept (some 5) greeting 1 true,
   .epollWait [3], .accept (some 6) greeting 1 true,
   .epollWait [6, 5], .data [65] (.failed eagain), .data [] .eof]

theorem lifecycle_clean_leave :
    ∃ s, run step (.start 3 0) leaveSchedule = some s ∧ s.ended = [0] ∧ Lifecycle s := by
  have hended : (run step (.start 3 0) leaveSchedule).map (·.ended) = some [0] := by decide +kernel
  obtain ⟨s, hs, he⟩ := Option.map_eq_some_iff.mp hended
  exact ⟨s, hs, he, lifecycle_clean 3 0 leaveSchedule s hs (by decide +kernel)⟩

/-- A client whose read fails with `ECONNRESET`. -/
def resetSchedule : List Event :=
  [.epollWait [3], .accept (some 5) greeting 1 true, .epollWait [5], .data [] (.failed 104)]

/-- Its descriptor is never closed. -/
theorem reset_never_closed :
    ¬ ∀ (servSock clntSock : Int) (es : List Event) (s : State),
      run step (.start servSock clntSock) es = some s → Lifecycle s := by
  intro h
  have hopen : (run step (.start 3 0) resetSchedule).map (fun s => (s.ended, s.closed))
      = some ([0], []) := by decide +kernel
  obtain ⟨s, hs, hlists⟩ := Option.map_eq_some_iff.mp hopen
  obtain ⟨hended, hclosed⟩ := Prod.mk.inj hlists
  have honce := (h 3 0 resetSchedule s hs).ended 0 (by rw [hended]; simp)
  rw [hclosed] at honce
  exact absurd honce.1 (by decide)

end HomeKeeper.Proxy
