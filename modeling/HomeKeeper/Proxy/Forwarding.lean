import HomeKeeper.Proxy.TcpServer

/-!
# Where the bytes of a client go

The data branch looks up the descriptor it has read from, and then sends to the upstream of
`clnt_sock`, the descriptor accepted last. With one client the two are the same. With more, bytes
of an earlier client go to the upstream of the last one (`bytes_reach_other_upstream`), and once
the last one has left the lookup ends at `clients.end ()`.

`forwarding_exact`: as long as every read is from the descriptor accepted last, every byte goes to
the upstream of the descriptor it came from, once and in order.
-/

namespace HomeKeeper.Proxy

open CData StepSystem

/-- Every byte read was sent once, in order and to the upstream made for its descriptor, and every
lookup of the data branch found an entry. -/
def Forwards (s : State) : Prop := s.fault = false ∧ s.sends = s.reads

instance (s : State) : Decidable (Forwards s) := by unfold Forwards; infer_instance

/-- A read that returns bytes is from the descriptor accepted last. -/
def FromLast (s : State) : Event → Prop
  | .data bytes _ => bytes ≠ [] → s.events.head? = some s.clntSock
  | _ => True

instance (s : State) (e : Event) : Decidable (FromLast s e) := by
  unfold FromLast; split <;> infer_instance

/-- Forwarding with the entry of `clnt_sock` in place. -/
theorem forward_fault {s : State} {fd : Int} {bytes : Bytes}
    (h : bytes ≠ [] → s.clients s.clntSock ≠ none) :
    (forward s fd bytes).fault = s.fault := by
  unfold forward
  split
  · rfl
  · next hnone =>
    split
    · rfl
    · next hbytes => exact absurd hnone (h hbytes)

/-- Forwarding to the upstream of the descriptor that was read. -/
theorem forward_logs {s : State} {fd : Int} {bytes : Bytes}
    (h : bytes ≠ [] → s.clients s.clntSock = s.conn fd) (hlogs : s.sends = s.reads) :
    (forward s fd bytes).fault = true
      ∨ (forward s fd bytes).sends = (forward s fd bytes).reads := by
  unfold forward
  split
  · next u hu =>
    right
    by_cases hbytes : bytes = []
    · simp [hbytes, hlogs]
    · show s.sends ++ bytes.map (some u, ·) = s.reads ++ bytes.map (s.conn fd, ·)
      rw [← h hbytes, hu, hlogs]
  · split
    · exact .inr hlogs
    · exact .inl rfl

/-- The end of a read touches no byte log, and finds the entry it erases. -/
theorem endRead_logs {s : State} {fd : Int} (h : s.clients fd ≠ none) (stop : ReadEnd) :
    (endRead s fd stop).fault = s.fault ∧ (endRead s fd stop).sends = s.sends
      ∧ (endRead s fd stop).reads = s.reads := by
  cases stop with
  | eof =>
    simp only [endRead, closeClient]
    split
    · next hnone => exact absurd hnone h
    · exact ⟨rfl, rfl, rfl⟩
  | failed errno =>
    simp only [endRead]
    split <;> exact ⟨rfl, rfl, rfl⟩

theorem forwards_data {s : State} {fd : Int} {bytes : Bytes} {n : Nat} (hs : Forwards s)
    (hconn : s.conn fd = some n) (hclients : s.clients fd = some n)
    (hlast : bytes ≠ [] → s.clntSock = fd) (stop : ReadEnd) :
    Forwards (dataBranch s fd bytes stop) := by
  obtain ⟨hfault, hlogs⟩ := hs
  have hentry : bytes ≠ [] → s.clients s.clntSock = s.conn fd := by
    intro hbytes
    rw [hlast hbytes, hclients, hconn]
  have hfwd : (forward s fd bytes).fault = false := by
    rw [forward_fault, hfault]
    intro hbytes
    rw [hentry hbytes, hconn]
    simp
  have hsent : (forward s fd bytes).sends = (forward s fd bytes).reads := by
    rcases forward_logs hentry hlogs with h | h
    · rw [hfwd] at h
      cases h
    · exact h
  obtain ⟨fault, reads, sends, hframe⟩ := forward_frame s fd bytes
  have hkept : (forward s fd bytes).clients fd ≠ none := by
    rw [hframe]
    simp [hclients]
  obtain ⟨h1, h2, h3⟩ := endRead_logs hkept stop
  unfold dataBranch
  simp only [hfwd, Bool.false_eq_true, if_false]
  exact ⟨h1.trans hfwd, by rw [h2, h3, hsent]⟩

theorem forwards_step {s s' : State} {e : Event} (hinv : Inv s) (hs : Forwards s)
    (he : FromLast s e) (h : step s e = some s') : Forwards s' := by
  obtain ⟨-, hm⟩ := moves_of_step h
  cases hm with
  | @data fd rest bytes stop hev hfd =>
    obtain ⟨n, hconn, hclients⟩ := reported_client hinv hev hfd
    apply forwards_data (s := { s with events := rest }) hs hconn hclients
    intro hbytes
    have hhead := he hbytes
    rw [hev, List.head?_cons, Option.some.injEq] at hhead
    exact hhead.symm
  | _ => exact hs

/-- **Each byte goes to its own upstream**, once and in the order read, in every run in which
bytes are read only from the descriptor accepted last. -/
theorem forwarding_exact (servSock clntSock : Int) (es : List Event) (s : State)
    (hrun : run step (.start servSock clntSock) es = some s)
    (hes : Meets step FromLast (.start servSock clntSock) es) : Forwards s := by
  have hboth : Inv s ∧ Forwards s :=
    run_invariant_of_meets (I := fun s => Inv s ∧ Forwards s)
      (fun _ _ _ hi he h => ⟨inv_step hi.1 h, forwards_step hi.1 hi.2 he h⟩)
      ⟨inv_start servSock clntSock, rfl, rfl⟩ hes hrun
  exact hboth.2

/-- A server that greets with one line. -/
def greeting : Nat → Recv := fun _ => .data ⟨ascii "220 ok\r\n", by decide, by decide⟩

/-- A client comes, sends two bytes and leaves; the next one gets the same descriptor. -/
def oneByOneSchedule : List Event :=
  [.epollWait [3], .accept (some 5) greeting 1 true, .epollWait [5], .data [65, 66] .eof,
   .epollWait [3], .accept (some 5) greeting 1 true, .epollWait [5], .data [67] (.failed eagain)]

theorem forwarding_exact_one_by_one :
    ∃ s, run step (.start 3 0) oneByOneSchedule = some s
      ∧ s.reads = [(some 0, 65), (some 0, 66), (some 1, 67)] ∧ Forwards s := by
  have hreads : (run step (.start 3 0) oneByOneSchedule).map (·.reads)
      = some [(some 0, 65), (some 0, 66), (some 1, 67)] := by decide +kernel
  obtain ⟨s, hs, hr⟩ := Option.map_eq_some_iff.mp hreads
  exact ⟨s, hs, hr, forwarding_exact 3 0 oneByOneSchedule s hs (by decide +kernel)⟩

/-- Two clients, and a byte from the first. -/
def twoClientsSchedule : List Event :=
  [.epollWait [3], .accept (some 5) greeting 1 true,
   .epollWait [3], .accept (some 6) greeting 1 true,
   .epollWait [5], .data [65] (.failed eagain)]

/-- The byte of the first client goes to the upstream of the second. -/
theorem bytes_reach_other_upstream :
    ¬ ∀ (servSock clntSock : Int) (es : List Event) (s : State),
      run step (.start servSock clntSock) es = some s → Forwards s := by
  intro h
  have hwrong : (run step (.start 3 0) twoClientsSchedule).map (fun s => decide (Forwards s))
      = some false := by decide +kernel
  obtain ⟨s, hs, hfalse⟩ := Option.map_eq_some_iff.mp hwrong
  exact of_decide_eq_false hfalse (h 3 0 twoClientsSchedule s hs)

end HomeKeeper.Proxy
