import HomeKeeper.Proxy.Greeting
import HomeKeeper.Lib.Run
import Mathlib.Data.List.Nodup
import Mathlib.Logic.Function.Basic

/-!
# `include/tcpServer.hpp` — the event loop of the proxy

`startTcpServer` accepts clients, opens one upstream connection (`tcpClient`) for each, and passes
the bytes of a client on. It keeps the upstreams in `clients`, keyed by the client's descriptor,
and the descriptor accepted last in the member `clnt_sock`.

A step is one `epoll_wait` or the handling of one event of its batch; what the kernel answers is
in the step's event. Dereferencing `clients.end ()` is undefined: the state is marked `fault` and
nothing is said about what happens after it.

Between `accept` and `epoll_ctl` the greeting of the upstream is relayed (`Proxy.Greeting`), with
the reads from the upstream in the event too. Where `getMsg` has not returned, because it waits,
goes round for ever or has touched what is not its buffer, the loop is `lost`: nothing is said about
what happens after it. The upstream that a failed `accept` left under the key `-1` is greeted like a
new one at the next failure, though its buffer is not empty then.

An upstream is named by the number of the `accept` that created it. `State.conn` is that number
for every descriptor that was accepted and not closed; together with the lists at the end of the
record it is history, the loop reads only `servSock`, `clntSock`, `clients` and the batch.

`Inv` collects what holds in every state, whatever fails: apart from the key `-1`, which a failed
`accept` leaves behind, `clients` and `conn` are the same map.
-/

namespace HomeKeeper.Proxy

open CData StepSystem

structure State where
  servSock : Int
  clntSock : Int
  clients : Int → Option Nat
  registered : Int → Bool
  events : List Int
  running : Bool
  fault : Bool
  /-- In `getMsg`, and not out of it again. -/
  lost : Bool
  conn : Int → Option Nat
  next : Nat
  skipped : List Int
  greetings : List (Int × Write)
  reads : List (Option Nat × UInt8)
  sends : List (Option Nat × UInt8)
  ended : List Nat
  closed : List Nat
  deleted : List Nat
  erased : List Nat

/-- The listening socket is set up; `clnt_sock` has not been assigned yet. -/
def State.start (servSock clntSock : Int) : State where
  servSock := servSock
  clntSock := clntSock
  clients := fun _ => none
  registered := fun _ => false
  events := []
  running := true
  fault := false
  lost := false
  conn := fun _ => none
  next := 0
  skipped := []
  greetings := []
  reads := []
  sends := []
  ended := []
  closed := []
  deleted := []
  erased := []

def eagain : Nat := 11

/-- How the read loop of a data event ends: `read` returned 0, or -1 with an `errno`. -/
inductive ReadEnd where
  | eof
  | failed (errno : Nat)
  deriving DecidableEq, Repr

/-- An `accept` comes with the reads of `getMsg` from the upstream, and the number of its rounds. -/
inductive Event where
  | epollWait (ready : List Int)
  | epollWaitFailed
  | accept (result : Option Int) (reads : Nat → Recv) (rounds : Nat) (epollCtl : Bool)
  | data (bytes : Bytes) (stop : ReadEnd)

/-! ## The accept branch -/

/-- `clnt_sock = accept (..)` and the entry of `clients` for it. -/
def State.addClient (s : State) (fd : Int) : State :=
  { s with
    clntSock := fd
    clients := if s.clients fd = none then Function.update s.clients fd (some s.next)
      else s.clients
    next := s.next + 1 }

/-- `accept` has returned `fd`, before `epoll_ctl`. -/
def State.accepted (s : State) (fd : Int) : State :=
  { s.addClient fd with conn := Function.update s.conn fd (some s.next) }

/-- The `break` behind a failed `epoll_ctl`: the rest of the batch is not looked at. -/
def State.breakBatch (s : State) : State :=
  { s with events := [], skipped := s.skipped ++ s.events }

/-- A descriptor the kernel can return from `accept`. -/
def State.Fresh (s : State) (fd : Int) : Prop := 0 ≤ fd ∧ fd ≠ s.servSock ∧ s.conn fd = none

instance (s : State) (fd : Int) : Decidable (s.Fresh fd) := by
  unfold State.Fresh; infer_instance

/-- `write (clnt_sock, message.c_str (), message.length () - 1)`. -/
def State.greet (s : State) (fd : Int) (message : Bytes) : State :=
  { s with greetings := s.greetings ++ [(fd, relay message)] }

def acceptBranch (s : State) (result : Option Int) (reads : Nat → Recv) (rounds : Nat)
    (epollCtl : Bool) : Option State :=
  match result, (getMsg reads rounds).messageOut? with
  | none, none => some { s.addClient (-1) with lost := true }
  | none, some message =>
    -- `accept` returned -1, and so does `epoll_ctl` for it
    if epollCtl then none else some ((s.addClient (-1)).greet (-1) message).breakBatch
  | some fd, none => if s.Fresh fd then some { s.accepted fd with lost := true } else none
  | some fd, some message =>
    if s.Fresh fd then
      if epollCtl then
        some { (s.accepted fd).greet fd message with
          registered := Function.update s.registered fd true }
      else some { ((s.accepted fd).greet fd message).breakBatch with ended := s.ended ++ [s.next] }
    else none

/-! ## The data branch -/

/-- The bytes read from `fd`, each sent to the upstream of `clnt_sock`. -/
def forward (s : State) (fd : Int) (bytes : Bytes) : State :=
  -- `iter = clients.find (clnt_sock)`, not the descriptor of the event
  match s.clients s.clntSock with
  | some u =>
    { s with
      reads := s.reads ++ bytes.map (s.conn fd, ·)
      sends := s.sends ++ bytes.map (some u, ·) }
  | none =>
    if bytes = [] then s
    else { s with fault := true, reads := s.reads ++ (bytes.take 1).map (s.conn fd, ·) }

/-- `str_len == 0`. -/
def closeClient (s : State) (fd : Int) : State :=
  match s.clients fd with
  | none => { s with fault := true }
  | some u =>
    { s with
      registered := Function.update s.registered fd false
      clients := Function.update s.clients fd none
      conn := Function.update s.conn fd none
      ended := s.ended ++ (s.conn fd).toList
      closed := s.closed ++ (s.conn fd).toList
      deleted := s.deleted ++ [u]
      erased := s.erased ++ (s.conn fd).toList }

/-- The end of the read loop; both branches of `str_len < 0` only leave it. -/
def endRead (s : State) (fd : Int) : ReadEnd → State
  | .eof => closeClient s fd
  | .failed errno =>
    if errno = eagain then s else { s with ended := s.ended ++ (s.conn fd).toList }

def dataBranch (s : State) (fd : Int) (bytes : Bytes) (stop : ReadEnd) : State :=
  let s' := forward s fd bytes
  if s'.fault then s' else endRead s' fd stop

/-! ## The loop -/

/-- What `epoll_wait` can report: every descriptor once, the listening socket or a registered
one. -/
def State.Reports (s : State) (ready : List Int) : Prop :=
  ready.Nodup ∧ ready.length ≤ 50 ∧ ∀ fd ∈ ready, fd = s.servSock ∨ s.registered fd = true

instance (s : State) (ready : List Int) : Decidable (s.Reports ready) := by
  unfold State.Reports; infer_instance

def step (s : State) (e : Event) : Option State :=
  if s.running = false ∨ s.fault = true ∨ s.lost = true then none
  else
    match e, s.events with
    | .epollWait ready, [] => if s.Reports ready then some { s with events := ready } else none
    | .epollWaitFailed, [] => some { s with running := false }
    | .accept result reads rounds epollCtl, fd :: rest =>
      if fd = s.servSock then acceptBranch { s with events := rest } result reads rounds epollCtl
      else none
    | .data bytes stop, fd :: rest =>
      if fd = s.servSock then none else some (dataBranch { s with events := rest } fd bytes stop)
    | _, _ => none

/-! ## What a step can do -/

inductive Moves (s : State) : Event → State → Prop where
  | waited {ready : List Int} (hev : s.events = []) (hready : s.Reports ready) :
      Moves s (.epollWait ready) { s with events := ready }
  | waitFailed : Moves s .epollWaitFailed { s with running := false }
  | failedLost {rest : List Int} {reads : Nat → Recv} {rounds : Nat} {epollCtl : Bool}
      (hev : s.events = s.servSock :: rest) (hlost : (getMsg reads rounds).messageOut? = none) :
      Moves s (.accept none reads rounds epollCtl)
        { { s with events := rest }.addClient (-1) with lost := true }
  | acceptFailed {rest : List Int} {reads : Nat → Recv} {rounds : Nat} {message : Bytes}
      (hev : s.events = s.servSock :: rest) :
      Moves s (.accept none reads rounds false)
        (({ s with events := rest }.addClient (-1)).greet (-1) message).breakBatch
  | acceptedLost {fd : Int} {rest : List Int} {reads : Nat → Recv} {rounds : Nat} {epollCtl : Bool}
      (hev : s.events = s.servSock :: rest) (hfresh : s.Fresh fd)
      (hlost : (getMsg reads rounds).messageOut? = none) :
      Moves s (.accept (some fd) reads rounds epollCtl)
        { { s with events := rest }.accepted fd with lost := true }
  | registered {fd : Int} {rest : List Int} {reads : Nat → Recv} {rounds : Nat} {message : Bytes}
      (hev : s.events = s.servSock :: rest) (hfresh : s.Fresh fd) :
      Moves s (.accept (some fd) reads rounds true)
        { ({ s with events := rest }.accepted fd).greet fd message with
          registered := Function.update s.registered fd true }
  | unregistered {fd : Int} {rest : List Int} {reads : Nat → Recv} {rounds : Nat} {message : Bytes}
      (hev : s.events = s.servSock :: rest) (hfresh : s.Fresh fd) :
      Moves s (.accept (some fd) reads rounds false)
        { (({ s with events := rest }.accepted fd).greet fd message).breakBatch with
          ended := s.ended ++ [s.next] }
  | data {fd : Int} {rest : List Int} {bytes : Bytes} {stop : ReadEnd}
      (hev : s.events = fd :: rest) (hfd : fd ≠ s.servSock) :
      Moves s (.data bytes stop) (dataBranch { s with events := rest } fd bytes stop)

/-- What the accept branch makes of the head of a batch. -/
theorem moves_of_accept {s s' : State} {rest : List Int} {result : Option Int}
    {reads : Nat → Recv} {rounds : Nat} {epollCtl : Bool} (hev : s.events = s.servSock :: rest)
    (h : acceptBranch { s with events := rest } result reads rounds epollCtl = some s') :
    Moves s (.accept result reads rounds epollCtl) s' := by
  unfold acceptBranch at h
  split at h
  case h_1 hlost =>
    cases h
    exact .failedLost hev hlost
  case h_2 =>
    cases epollCtl with
    | true => cases h
    | false =>
      cases h
      exact .acceptFailed hev
  case h_3 hlost =>
    split at h
    · next hfresh =>
      cases h
      exact .acceptedLost hev hfresh hlost
    · cases h
  case h_4 =>
    split at h
    · next hfresh =>
      cases epollCtl with
      | true =>
        cases h
        exact .registered hev hfresh
      | false =>
        cases h
        exact .unregistered hev hfresh
    · cases h

/-- A step happens only in a state without a fault, and is one of `Moves`. -/
theorem moves_of_step {s s' : State} {e : Event} (h : step s e = some s') :
    s.fault = false ∧ Moves s e s' := by
  unfold step at h
  split at h
  case isTrue => cases h
  case isFalse hgo =>
    simp only [not_or, Bool.not_eq_true] at hgo
    refine ⟨hgo.2.1, ?_⟩
    split at h
    case h_1 hev =>
      split at h
      · cases h; exact .waited hev ‹_›
      · cases h
    case h_2 hev => cases h; exact .waitFailed
    case h_3 fd rest hev =>
      split at h
      case isFalse => cases h
      case isTrue hserv =>
        subst hserv
        exact moves_of_accept hev h
    case h_4 fd rest hev =>
      split at h
      · cases h
      · cases h; exact .data hev ‹_›
    case h_5 => cases h

/-! ## The invariant of all runs -/

structure Inv (s : State) : Prop where
  clients : ∀ fd, fd ≠ -1 → s.clients fd = s.conn fd
  conn : ∀ fd n, s.conn fd = some n → 0 ≤ fd ∧ n < s.next
  conn_inj : ∀ fd fd' n, s.conn fd = some n → s.conn fd' = some n → fd = fd'
  registered : ∀ fd, s.registered fd = true → s.conn fd ≠ none
  nodup : s.events.Nodup
  reported : ∀ fd ∈ s.events, fd = s.servSock ∨ s.registered fd = true

theorem inv_start (servSock clntSock : Int) : Inv (.start servSock clntSock) := by
  constructor <;> simp [State.start]

/-- The head of the batch is taken off. -/
theorem inv_tail {s : State} {fd : Int} {rest : List Int} (hs : Inv s)
    (hev : s.events = fd :: rest) : Inv { s with events := rest } ∧ fd ∉ rest := by
  have hnodup := hs.nodup
  have hrep := hs.reported
  rw [hev] at hnodup hrep
  rw [List.nodup_cons] at hnodup
  refine ⟨⟨hs.clients, hs.conn, hs.conn_inj, hs.registered, hnodup.2, ?_⟩, hnodup.1⟩
  exact fun x hx => hrep x (List.mem_cons_of_mem fd hx)

theorem inv_breakBatch {s : State} (hs : Inv s) : Inv s.breakBatch :=
  ⟨hs.clients, hs.conn, hs.conn_inj, hs.registered, List.nodup_nil, fun _ h => by cases h⟩

/-- A failed `accept` touches the key `-1` only. -/
theorem inv_addClient_failed {s : State} (hs : Inv s) : Inv (s.addClient (-1)) := by
  refine ⟨?_, ?_, hs.conn_inj, hs.registered, hs.nodup, hs.reported⟩
  · intro fd hfd
    show (if s.clients (-1) = none then Function.update s.clients (-1) (some s.next)
      else s.clients) fd = s.conn fd
    split
    · rw [Function.update_of_ne hfd]
      exact hs.clients fd hfd
    · exact hs.clients fd hfd
  · intro fd n hn
    obtain ⟨hpos, hlt⟩ := hs.conn fd n hn
    exact ⟨hpos, Nat.lt_succ_of_lt hlt⟩

/-- A fresh descriptor has no entry, so one is made for it. -/
theorem clients_accepted {s : State} {fd : Int} (hs : Inv s) (hfresh : s.Fresh fd) :
    (s.accepted fd).clients = Function.update s.clients fd (some s.next) := by
  obtain ⟨hpos, -, hconn⟩ := hfresh
  have hne : fd ≠ -1 := by omega
  exact if_pos ((hs.clients fd hne).trans hconn)

theorem inv_accepted {s : State} {fd : Int} (hs : Inv s) (hfresh : s.Fresh fd) :
    Inv (s.accepted fd) := by
  have hclients := clients_accepted hs hfresh
  obtain ⟨hpos, -, hconn⟩ := hfresh
  have hother {x : Int} (hx : x ≠ fd) : (s.accepted fd).conn x = s.conn x :=
    Function.update_of_ne hx _ _
  have hself : (s.accepted fd).conn fd = some s.next := Function.update_self _ _ _
  refine ⟨?_, ?_, ?_, ?_, hs.nodup, hs.reported⟩
  · intro x hx
    rw [hclients]
    by_cases hxf : x = fd
    · rw [hxf, Function.update_self, hself]
    · rw [Function.update_of_ne hxf, hother hxf]
      exact hs.clients x hx
  · intro x n hn
    show 0 ≤ x ∧ n < s.next + 1
    by_cases hxf : x = fd
    · rw [hxf, hself, Option.some.injEq] at hn
      omega
    · rw [hother hxf] at hn
      have := hs.conn x n hn
      omega
  · intro x y n hx hy
    -- the new number is above all that are in use
    by_cases hxf : x = fd <;> by_cases hyf : y = fd
    · rw [hxf, hyf]
    · rw [hxf, hself, Option.some.injEq] at hx
      rw [hother hyf] at hy
      have := hs.conn y n hy
      omega
    · rw [hyf, hself, Option.some.injEq] at hy
      rw [hother hxf] at hx
      have := hs.conn x n hx
      omega
    · rw [hother hxf] at hx
      rw [hother hyf] at hy
      exact hs.conn_inj x y n hx hy
  · intro x hx
    by_cases hxf : x = fd
    · rw [hxf, hself]
      simp
    · rw [hother hxf]
      exact hs.registered x hx

theorem inv_registered {s : State} {fd : Int} (hs : Inv s) (hconn : s.conn fd ≠ none) :
    Inv { s with registered := Function.update s.registered fd true } := by
  refine ⟨hs.clients, hs.conn, hs.conn_inj, ?_, hs.nodup, ?_⟩
  · intro x hx
    show s.conn x ≠ none
    by_cases hxf : x = fd
    · rw [hxf]
      exact hconn
    · apply hs.registered x
      simpa only [Function.update_of_ne hxf] using hx
  · intro x hx
    show x = s.servSock ∨ Function.update s.registered fd true x = true
    rcases hs.reported x hx with h | h
    · exact .inl h
    · right
      by_cases hxf : x = fd
      · rw [hxf, Function.update_self]
      · rw [Function.update_of_ne hxf]
        exact h

/-- Forwarding writes the two byte logs and may fault; the rest of the state stays. -/
theorem forward_frame (s : State) (fd : Int) (bytes : Bytes) :
    ∃ fault reads sends,
      forward s fd bytes = { s with fault := fault, reads := reads, sends := sends } := by
  unfold forward
  split
  · exact ⟨s.fault, _, _, rfl⟩
  · split
    · exact ⟨s.fault, s.reads, s.sends, rfl⟩
    · exact ⟨true, _, s.sends, rfl⟩

theorem inv_forward {s : State} (hs : Inv s) (fd : Int) (bytes : Bytes) :
    Inv (forward s fd bytes) := by
  obtain ⟨fault, reads, sends, hf⟩ := forward_frame s fd bytes
  rw [hf]
  exact { hs with }

/-- A connection that is left after `fd` was closed is another one's. -/
theorem conn_of_closed {conn : Int → Option Nat} {fd x : Int} {n : Nat}
    (h : Function.update conn fd none x = some n) : x ≠ fd ∧ conn x = some n := by
  by_cases hxf : x = fd
  · rw [hxf, Function.update_self] at h
    cases h
  · exact ⟨hxf, by rwa [Function.update_of_ne hxf] at h⟩

theorem inv_closeClient {s : State} {fd : Int} (hs : Inv s) (hnot : fd ∉ s.events) :
    Inv (closeClient s fd) := by
  unfold closeClient
  split
  · exact { hs with }
  · -- every map changes at `fd` only, and no event of the batch is left for it
    refine ⟨?_, ?_, ?_, ?_, hs.nodup, ?_⟩
    · intro x hx
      by_cases hxf : x = fd
      · simp only [hxf, Function.update_self]
      · simp only [Function.update_of_ne hxf]
        exact hs.clients x hx
    · exact fun x n hn => hs.conn x n (conn_of_closed hn).2
    · exact fun x y n hx hy => hs.conn_inj x y n (conn_of_closed hx).2 (conn_of_closed hy).2
    · intro x hx
      by_cases hxf : x = fd
      · simp [hxf] at hx
      · simp only [Function.update_of_ne hxf] at hx ⊢
        exact hs.registered x hx
    · intro x hx
      have hxf : x ≠ fd := fun h => hnot (h ▸ hx)
      simp only [Function.update_of_ne hxf]
      exact hs.reported x hx

theorem inv_endRead {s : State} {fd : Int} (hs : Inv s) (hnot : fd ∉ s.events) (stop : ReadEnd) :
    Inv (endRead s fd stop) := by
  cases stop with
  | eof => exact inv_closeClient hs hnot
  | failed errno =>
    simp only [endRead]
    split
    · exact hs
    · exact { hs with }

theorem inv_step {s s' : State} {e : Event} (hs : Inv s) (h : step s e = some s') : Inv s' := by
  obtain ⟨-, hm⟩ := moves_of_step h
  cases hm with
  | waited hev hready =>
    exact ⟨hs.clients, hs.conn, hs.conn_inj, hs.registered, hready.1, hready.2.2⟩
  | waitFailed => exact { hs with }
  | failedLost hev hlost => exact { inv_addClient_failed (inv_tail hs hev).1 with }
  | acceptFailed hev =>
    have hb := inv_breakBatch (inv_addClient_failed (inv_tail hs hev).1)
    exact { hb with }
  | acceptedLost hev hfresh hlost => exact { inv_accepted (inv_tail hs hev).1 hfresh with }
  | @registered fd rest reads rounds message hev hfresh =>
    have hacc := inv_accepted (inv_tail hs hev).1 hfresh
    have hconn : ({ s with events := rest }.accepted fd).conn fd ≠ none := by
      simp [State.accepted]
    exact { inv_registered hacc hconn with }
  | unregistered hev hfresh =>
    have hb := inv_breakBatch (inv_accepted (inv_tail hs hev).1 hfresh)
    exact { hb with }
  | @data fd rest bytes stop hev hfd =>
    obtain ⟨htail, hnot⟩ := inv_tail hs hev
    unfold dataBranch
    have hfwd := inv_forward htail fd bytes
    simp only
    split
    · exact hfwd
    · obtain ⟨fault, reads, sends, hf⟩ := forward_frame { s with events := rest } fd bytes
      exact inv_endRead hfwd (by rw [hf]; exact hnot) stop

theorem inv_run {servSock clntSock : Int} {es : List Event} {s : State}
    (h : run step (.start servSock clntSock) es = some s) : Inv s :=
  run_invariant (fun _ _ _ => inv_step) (inv_start servSock clntSock) h

/-- The descriptor of a data event is open, and its entry is the upstream made for it. -/
theorem reported_client {s : State} {fd : Int} {rest : List Int} (hs : Inv s)
    (hev : s.events = fd :: rest) (hfd : fd ≠ s.servSock) :
    ∃ n, s.conn fd = some n ∧ s.clients fd = some n := by
  have hreg : s.registered fd = true := by
    rcases hs.reported fd (by rw [hev]; simp) with h | h
    · exact absurd h hfd
    · exact h
  obtain ⟨n, hn⟩ := Option.ne_none_iff_exists'.mp (hs.registered fd hreg)
  have hpos := (hs.conn fd n hn).1
  exact ⟨n, hn, (hs.clients fd (by omega)).trans hn⟩

end HomeKeeper.Proxy
