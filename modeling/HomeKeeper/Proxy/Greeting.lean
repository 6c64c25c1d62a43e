import HomeKeeper.Lib.CData

/-!
# `tcpClient::getMsg` and the relay of the greeting

When a client is accepted the proxy connects to the server and passes its greeting on. `getMsg`
reads into `char message[1024]` until the last two bytes are CR LF, and `startTcpServer` writes what
it got to the client. None of the ways in which a greeting can end is handled:

* a line: the client is written `message.length () - 1` bytes, one too few;
* the server closes: `read` returns 0 for ever, and the loop with it;
* `read` fails: `message` is empty, and its length less one is the largest `size_t`.

`read` may also fill the buffer from `recv_len` on with up to 1023 bytes each time, and the loop
looks two bytes back when there is only one, or none. An access outside of the buffer is undefined:
that is `fault`, and nothing is said about what happens after it.
-/

namespace HomeKeeper.Proxy

open CData

/-! ## `getMsg` -/

/-- The bytes of one `read`; it is called for `sizeof (message) - 1`. -/
structure Chunk where
  bytes : Bytes
  pos : 0 < bytes.length
  le : bytes.length ≤ 1023

/-- What a `read` from the server does: it returns bytes, 0 or -1, or it does not return. -/
inductive Recv where
  | data (chunk : Chunk)
  | eof
  | failed
  | blocked

inductive GetMsg where
  | reading (message : Bytes) (recvLen : Nat)
  /-- In a `read` that does not return. -/
  | waiting
  | returned (ret : Int32) (messageOut : Bytes)
  | fault
  deriving DecidableEq, Repr

/-- `message[i]`. -/
def load (message : Bytes) (i : Int) : Option UInt8 :=
  if 0 ≤ i then message[i.toNat]? else none

/-- `read` puts its bytes at `&message[off]`. -/
def store (message : Bytes) (off : Nat) (b : Bytes) : Option Bytes :=
  if off + b.length ≤ message.length then
    some (message.take off ++ b ++ message.drop (off + b.length))
  else none

/-- `messageOut = message`. -/
def messageOut (message : Bytes) : GetMsg :=
  if (0 : UInt8) ∈ message then .returned 0 (cStr message) else .fault

/-- The test behind a `read`, with `recv_len` added up. -/
def lookBack (message : Bytes) (recvLen : Nat) : GetMsg :=
  match load message ((recvLen : Int) - 2) with
  | none => .fault
  | some x =>
    if x = 13 then
      match load message ((recvLen : Int) - 1) with
      | none => .fault
      | some y => if y = 10 then messageOut message else .reading message recvLen
    else .reading message recvLen

/-- One round of `while (1)`. -/
def GetMsg.step : GetMsg → Recv → GetMsg
  | .reading message recvLen, .data chunk =>
    match store message recvLen chunk.bytes with
    | none => .fault
    | some message => lookBack message (recvLen + chunk.bytes.length)
  | .reading message recvLen, .eof => lookBack message recvLen
  | .reading _ _, .failed => .returned (-1) []
  | .reading _ _, .blocked => .waiting
  | s, _ => s

/-- `getMsg` of a new `tcpClient` after `n` rounds. -/
def getMsg (reads : Nat → Recv) : Nat → GetMsg
  | 0 => .reading (List.replicate 1024 0) 0
  | n + 1 => (getMsg reads n).step (reads n)

/-- `messageOut`, once `getMsg` has returned. -/
def GetMsg.messageOut? : GetMsg → Option Bytes
  | .returned _ messageOut => some messageOut
  | _ => none

/-! ## `startTcpServer` -/

/-- A call of `write`: the text behind the pointer and the count. -/
structure Write where
  text : Bytes
  count : Nat
  deriving DecidableEq, Repr

/-- `write (clnt_sock, message.c_str (), message.length () - 1)`, in `size_t`. -/
def relay (message : Bytes) : Write := ⟨message, (message.length + (2 ^ 64 - 1)) % 2 ^ 64⟩

/-! ## The purpose -/

/-- The bytes of the first `n` reads, if all of them returned bytes. -/
def delivered (reads : Nat → Recv) : Nat → Option Bytes
  | 0 => some []
  | n + 1 =>
    match delivered reads n, reads n with
    | some r, .data chunk => some (r ++ chunk.bytes)
    | _, _ => none

def EndsInCrlf (b : Bytes) : Prop := [13, 10] <:+ b

/-- No line was complete after any of the first `n` reads. -/
def NoLine (reads : Nat → Recv) (n : Nat) : Prop :=
  ∀ m, m ≤ n → ∀ r, delivered reads m = some r → ¬ EndsInCrlf r

/-- What the greeting of a client should do. -/
structure Greeted (reads : Nat → Recv) : Prop where
  /-- Only the bytes of `message` are touched. -/
  safe : ∀ n, getMsg reads n ≠ .fault
  /-- A line is passed on as soon as it is complete. -/
  line : ∀ n r, NoLine reads n → delivered reads (n + 1) = some r → EndsInCrlf r →
    ∃ msg, getMsg reads (n + 1) = .returned 0 msg ∧ relay msg = ⟨r, r.length⟩
  /-- When the server closes or fails nothing is. -/
  stop : ∀ n, NoLine reads n → (delivered reads n).isSome → reads n = .eof ∨ reads n = .failed →
    ∃ ret msg, getMsg reads (n + 1) = .returned ret msg ∧ (relay msg).count = 0

/-! ## One round -/

/-- The buffer when `r` has been received. -/
def filled (r : Bytes) : Bytes := r ++ List.replicate (1024 - r.length) 0

theorem length_filled {r : Bytes} (h : r.length ≤ 1024) : (filled r).length = 1024 := by
  simp only [filled, List.length_append, List.length_replicate]
  omega

theorem store_filled {r b : Bytes} (h : (r ++ b).length ≤ 1024) :
    store (filled r) r.length b = some (filled (r ++ b)) := by
  rw [List.length_append] at h
  have htake : (filled r).take r.length = r := List.take_left
  have hdrop : (filled r).drop (r.length + b.length)
      = List.replicate (1024 - (r ++ b).length) 0 := by
    unfold filled
    rw [List.drop_append, List.drop_eq_nil_of_le (by omega), List.nil_append,
      List.drop_replicate, List.length_append]
    congr 1
    omega
  unfold store
  rw [length_filled (by omega), if_pos h, htake, hdrop]
  rfl

theorem store_filled_none {r b : Bytes} (hr : r.length ≤ 1024) (h : 1024 < (r ++ b).length) :
    store (filled r) r.length b = none := by
  rw [List.length_append] at h
  unfold store
  rw [length_filled hr, if_neg (by omega)]

theorem exists_last_two {r : Bytes} (h : 2 ≤ r.length) : ∃ pre x y, r = pre ++ [x, y] := by
  rcases List.eq_nil_or_concat r with rfl | ⟨front, y, rfl⟩
  · exact absurd h (by simp)
  · rcases List.eq_nil_or_concat front with rfl | ⟨pre, x, rfl⟩
    · exact absurd h (by simp)
    · exact ⟨pre, x, y, by simp⟩

theorem endsInCrlf_append {pre : Bytes} {x y : UInt8} :
    EndsInCrlf (pre ++ [x, y]) ↔ x = 13 ∧ y = 10 := by
  constructor
  · rintro ⟨t, ht⟩
    have hlast := List.append_inj_right' ht rfl
    rw [List.cons.injEq, List.singleton_inj] at hlast
    exact ⟨hlast.1.symm, hlast.2.symm⟩
  · rintro ⟨rfl, rfl⟩
    exact ⟨pre, rfl⟩

/-- With one byte or none the test looks at what lies before the buffer. -/
theorem lookBack_short {message : Bytes} {n : Nat} (h : n < 2) : lookBack message n = .fault := by
  have hload : load message ((n : Int) - 2) = none := if_neg (by omega)
  unfold lookBack
  rw [hload]

theorem lookBack_filled {pre : Bytes} {x y : UInt8} :
    lookBack (filled (pre ++ [x, y])) (pre ++ [x, y]).length
      = if x = 13 ∧ y = 10 then messageOut (filled (pre ++ [x, y]))
        else .reading (filled (pre ++ [x, y])) (pre ++ [x, y]).length := by
  have hx : load (filled (pre ++ [x, y])) (((pre ++ [x, y]).length : Int) - 2) = some x := by
    unfold load filled
    rw [if_pos (by simp), show (((pre ++ [x, y]).length : Int) - 2).toNat = pre.length by simp]
    simp
  have hy : load (filled (pre ++ [x, y])) (((pre ++ [x, y]).length : Int) - 1) = some y := by
    unfold load filled
    rw [if_pos (by simp; omega),
      show (((pre ++ [x, y]).length : Int) - 1).toNat = pre.length + 1 by simp; omega]
    simp
  unfold lookBack
  rw [hx, hy]
  by_cases hcr : x = 13
  · by_cases hlf : y = 10
    · simp [hcr, hlf]
    · simp [hcr, hlf]
  · simp [hcr]

/-- The test after `r` was received. -/
theorem lookBack_received {r : Bytes} (h : 2 ≤ r.length) :
    (EndsInCrlf r → lookBack (filled r) r.length = messageOut (filled r))
      ∧ (¬ EndsInCrlf r → lookBack (filled r) r.length = .reading (filled r) r.length) := by
  obtain ⟨pre, x, y, rfl⟩ := exists_last_two h
  rw [lookBack_filled, endsInCrlf_append]
  exact ⟨fun hcrlf => if_pos hcrlf, fun hno => if_neg hno⟩

/-! ## What was received -/

theorem delivered_succ {reads : Nat → Recv} {n : Nat} {r : Bytes}
    (h : delivered reads (n + 1) = some r) :
    ∃ q chunk, delivered reads n = some q ∧ reads n = .data chunk ∧ r = q ++ chunk.bytes := by
  unfold delivered at h
  split at h
  · rename_i q chunk hq hread
    exact ⟨q, chunk, hq, hread, (Option.some.inj h).symm⟩
  · cases h

theorem length_delivered {reads : Nat → Recv} {n : Nat} {r : Bytes}
    (h : delivered reads n = some r) : n ≤ r.length := by
  induction n generalizing r with
  | zero => exact Nat.zero_le _
  | succ n ih =>
    obtain ⟨q, chunk, hq, -, rfl⟩ := delivered_succ h
    have hlen := ih hq
    have hpos := chunk.pos
    rw [List.length_append]
    omega

theorem delivered_of_le {reads : Nat → Recv} {m n : Nat} {r : Bytes} (hle : m ≤ n)
    (h : delivered reads n = some r) : ∃ q, delivered reads m = some q := by
  induction n generalizing r with
  | zero =>
    obtain rfl : m = 0 := by omega
    exact ⟨r, h⟩
  | succ n ih =>
    by_cases hm : m = n + 1
    · exact ⟨r, hm ▸ h⟩
    · obtain ⟨q, chunk, hq, -, -⟩ := delivered_succ h
      exact ih (by omega) hq

theorem noLine_zero (reads : Nat → Recv) : NoLine reads 0 := by
  rintro m hm r hr ⟨t, ht⟩
  obtain rfl : m = 0 := by omega
  obtain rfl : [] = r := Option.some.inj hr
  simp at ht

theorem NoLine.mono {reads : Nat → Recv} {m n : Nat} (h : NoLine reads n) (hle : m ≤ n) :
    NoLine reads m := fun k hk => h k (by omega)

/-- One more read: outside of the buffer, or what the test makes of it. -/
theorem getMsg_next {reads : Nat → Recv} {n : Nat} {q : Bytes} {chunk : Chunk}
    (hloop : getMsg reads n = .reading (filled q) q.length) (hq : q.length ≤ 1024)
    (hread : reads n = .data chunk) :
    getMsg reads (n + 1)
      = if (q ++ chunk.bytes).length ≤ 1024 then
          lookBack (filled (q ++ chunk.bytes)) (q ++ chunk.bytes).length
        else .fault := by
  show (getMsg reads n).step (reads n) = _
  rw [hloop, hread]
  by_cases hle : (q ++ chunk.bytes).length ≤ 1024
  · rw [if_pos hle, GetMsg.step, store_filled hle, List.length_append]
  · rw [if_neg hle, GetMsg.step, store_filled_none hq (by omega)]

/-- The bytes fit into the buffer, and there are two to look at. -/
def Fits (n : Nat) (r : Bytes) : Prop := r.length ≤ 1024 ∧ (0 < n → 2 ≤ r.length)

/-- As long as no line is complete and nothing went wrong, the loop goes on with what it has. -/
theorem getMsg_delivered {reads : Nat → Recv} {n : Nat} {r : Bytes} (hline : NoLine reads n)
    (h : delivered reads n = some r) (hsafe : ∀ m, m ≤ n → getMsg reads m ≠ .fault) :
    getMsg reads n = .reading (filled r) r.length ∧ Fits n r := by
  induction n generalizing r with
  | zero =>
    obtain rfl : [] = r := Option.some.inj h
    exact ⟨rfl, Nat.zero_le _, fun h0 => absurd h0 (Nat.lt_irrefl 0)⟩
  | succ n ih =>
    obtain ⟨q, chunk, hq, hread, rfl⟩ := delivered_succ h
    obtain ⟨hloop, hfits⟩ := ih (hline.mono (Nat.le_succ n)) hq fun m hm => hsafe m (by omega)
    have hnext := getMsg_next hloop hfits.1 hread
    have hnofault := hsafe (n + 1) (Nat.le_refl _)
    have hle : (q ++ chunk.bytes).length ≤ 1024 := by
      by_contra hlong
      rw [if_neg hlong] at hnext
      exact hnofault hnext
    rw [if_pos hle] at hnext
    have htwo : 2 ≤ (q ++ chunk.bytes).length := by
      by_contra hshort
      rw [lookBack_short (by omega)] at hnext
      exact hnofault hnext
    rw [hnext, (lookBack_received htwo).2 (hline (n + 1) (Nat.le_refl _) _ h)]
    exact ⟨rfl, hle, fun _ => htwo⟩

/-- Nothing goes wrong while the bytes fit. -/
theorem getMsg_of_fits {reads : Nat → Recv} {n : Nat} {r : Bytes} (hline : NoLine reads n)
    (h : delivered reads n = some r)
    (hfits : ∀ m, m ≤ n → ∀ q, delivered reads m = some q → Fits m q) :
    getMsg reads n = .reading (filled r) r.length := by
  induction n generalizing r with
  | zero =>
    obtain rfl : [] = r := Option.some.inj h
    rfl
  | succ n ih =>
    obtain ⟨q, chunk, hq, hread, rfl⟩ := delivered_succ h
    have hloop := ih (hline.mono (Nat.le_succ n)) hq fun m hm => hfits m (by omega)
    obtain ⟨hle, htwo⟩ := hfits (n + 1) (Nat.le_refl _) _ h
    rw [getMsg_next hloop (hfits n (Nat.le_succ n) q hq).1 hread, if_pos hle]
    exact (lookBack_received (htwo (Nat.succ_pos n))).2 (hline (n + 1) (Nat.le_refl _) _ h)

theorem getMsg_of_blocked {reads : Nat → Recv} {n m : Nat} {message : Bytes} {recvLen : Nat}
    (h : getMsg reads n = .reading message recvLen) (hread : reads n = .blocked) (hm : n < m) :
    getMsg reads m = .waiting := by
  induction m with
  | zero => omega
  | succ m ih =>
    show (getMsg reads m).step (reads m) = _
    by_cases hfirst : m = n
    · rw [hfirst, h, hread]
      rfl
    · rw [ih (by omega)]
      rfl

/-! ## How a greeting ends -/

section

variable {reads : Nat → Recv} {n : Nat}

/-- A complete line is written without its last byte, so it is never written as it is. -/
theorem not_greeted_of_line {r : Bytes} (hline : NoLine reads n)
    (h : delivered reads (n + 1) = some r) (hcrlf : EndsInCrlf r) : ¬ Greeted reads := by
  intro hgreeted
  obtain ⟨q, chunk, hq, hread, rfl⟩ := delivered_succ h
  obtain ⟨hloop, hfits⟩ := getMsg_delivered hline hq fun m _ => hgreeted.safe m
  obtain ⟨msg, hmsg, hrelay⟩ := hgreeted.line n _ hline h hcrlf
  -- what `getMsg` returns is part of the buffer, so it is short enough to count
  have hnext := getMsg_next hloop hfits.1 hread
  rw [hmsg] at hnext
  have hle : (q ++ chunk.bytes).length ≤ 1024 := by
    by_contra hlong
    rw [if_neg hlong] at hnext
    cases hnext
  rw [relay, Write.mk.injEq] at hrelay
  obtain ⟨rfl, hcount⟩ := hrelay
  omega

/-- A failed `read` leaves the message empty, and its length less one is not 0. -/
theorem not_greeted_of_failed (hline : NoLine reads n) {r : Bytes}
    (h : delivered reads n = some r) (hread : reads n = .failed) : ¬ Greeted reads := by
  intro hgreeted
  obtain ⟨hloop, -⟩ := getMsg_delivered hline h fun m _ => hgreeted.safe m
  obtain ⟨ret, msg, hmsg, hcount⟩ := hgreeted.stop n hline (by rw [h]; rfl) (.inr hread)
  have hnext : getMsg reads (n + 1) = .returned (-1) [] := by
    show (getMsg reads n).step (reads n) = _
    rw [hloop, hread]
    rfl
  rw [hnext] at hmsg
  obtain ⟨-, rfl⟩ := GetMsg.returned.inj hmsg
  exact absurd hcount (by decide)

/-- After the end of file the loop goes on, or it has looked before the buffer. -/
theorem not_greeted_of_eof (hline : NoLine reads n) {r : Bytes}
    (h : delivered reads n = some r) (hread : reads n = .eof) : ¬ Greeted reads := by
  intro hgreeted
  obtain ⟨hloop, hfits⟩ := getMsg_delivered hline h fun m _ => hgreeted.safe m
  obtain ⟨ret, msg, hmsg, -⟩ := hgreeted.stop n hline (by rw [h]; rfl) (.inl hread)
  have hnext : getMsg reads (n + 1) = lookBack (filled r) r.length := by
    show (getMsg reads n).step (reads n) = _
    rw [hloop, hread]
    rfl
  by_cases htwo : 2 ≤ r.length
  · rw [hnext, (lookBack_received htwo).2 (hline n (Nat.le_refl n) r h)] at hmsg
    cases hmsg
  · rw [hnext, lookBack_short (by omega)] at hmsg
    cases hmsg

/-- A server that sends for ever gets past the end of the buffer. -/
theorem not_greeted_of_endless (hline : ∀ n, NoLine reads n)
    (h : ∀ n, ∃ r, delivered reads n = some r) : ¬ Greeted reads := by
  intro hgreeted
  obtain ⟨r, hr⟩ := h 1025
  obtain ⟨-, hfits⟩ := getMsg_delivered (hline 1025) hr fun m _ => hgreeted.safe m
  have hlen := length_delivered hr
  have hle := hfits.1
  omega

/-- No line is ever complete: the first one would not have been written. -/
theorem noLine_of_greeted (h : Greeted reads) (n : Nat) : NoLine reads n := by
  induction n with
  | zero => exact noLine_zero reads
  | succ n ih =>
    intro m hm r hr hcrlf
    by_cases hlast : m = n + 1
    · subst hlast
      exact not_greeted_of_line ih hr hcrlf h
    · exact ih m (by omega) r hr hcrlf

/-- Some `read` returns no bytes. -/
theorem delivered_ends_of_greeted (h : Greeted reads) :
    ∃ n r, delivered reads n = some r ∧ delivered reads (n + 1) = none := by
  by_contra hno
  refine not_greeted_of_endless (noLine_of_greeted h) (fun n => ?_) h
  induction n with
  | zero => exact ⟨[], rfl⟩
  | succ n ih =>
    obtain ⟨r, hr⟩ := ih
    cases hnext : delivered reads (n + 1) with
    | some q => exact ⟨q, rfl⟩
    | none => exact absurd ⟨n, r, hr, hnext⟩ hno

/-- While it waits in a `read` nothing is wrong. -/
theorem greeted_of_blocked {r : Bytes} (hblocked : reads n = .blocked)
    (hr : delivered reads n = some r) (hline : NoLine reads n)
    (hfits : ∀ m, m ≤ n → ∀ q, delivered reads m = some q → Fits m q) : Greeted reads := by
  have hend (m : Nat) (hm : n < m) : ¬ (delivered reads m).isSome := by
    intro hlater
    obtain ⟨q, hq⟩ := Option.isSome_iff_exists.mp hlater
    obtain ⟨p, hp⟩ := delivered_of_le (show n + 1 ≤ m by omega) hq
    obtain ⟨-, chunk, -, hdata, -⟩ := delivered_succ hp
    rw [hblocked] at hdata
    cases hdata
  refine ⟨fun m => ?_, fun m q _ hq hcrlf => ?_, fun m _ hq hstop => ?_⟩
  · rcases Nat.lt_or_ge n m with hm | hm
    · rw [getMsg_of_blocked (getMsg_of_fits hline hr hfits) hblocked hm]
      exact GetMsg.noConfusion
    · obtain ⟨q, hq⟩ := delivered_of_le hm hr
      rw [getMsg_of_fits (hline.mono hm) hq fun k hk => hfits k (by omega)]
      exact GetMsg.noConfusion
  · rcases Nat.lt_or_ge n (m + 1) with hm | hm
    · exact absurd (by rw [hq]; rfl) (hend _ hm)
    · exact absurd hcrlf (hline _ hm q hq)
  · rcases Nat.lt_trichotomy m n with hm | rfl | hm
    · obtain ⟨p, hp⟩ := delivered_of_le (show m + 1 ≤ n by omega) hr
      obtain ⟨-, chunk, -, hdata, -⟩ := delivered_succ hp
      rw [hdata] at hstop
      rcases hstop with hstop | hstop <;> cases hstop
    · rw [hblocked] at hstop
      rcases hstop with hstop | hstop <;> cases hstop
    · exact absurd hq (hend m hm)

end

/-- **When a greeting is relayed.** `getMsg` ends in time and inside its buffer, and the client is
written the line, or nothing when there is none, if and only if the greeting does not end: a `read`
does not return, no line was complete before it, and the bytes received were at least two after the
first `read` and fitted into the buffer. -/
theorem greeted_iff (reads : Nat → Recv) :
    Greeted reads ↔ ∃ n, reads n = .blocked ∧ (delivered reads n).isSome
      ∧ NoLine reads n ∧ ∀ m, m ≤ n → ∀ r, delivered reads m = some r → Fits m r := by
  constructor
  · intro hgreeted
    have hline := noLine_of_greeted hgreeted
    obtain ⟨n, r, hr, hnone⟩ := delivered_ends_of_greeted hgreeted
    refine ⟨n, ?_, by rw [hr]; rfl, hline n, fun m hm q hq => ?_⟩
    · cases hread : reads n with
      | blocked => rfl
      | eof => exact absurd hgreeted (not_greeted_of_eof (hline n) hr hread)
      | failed => exact absurd hgreeted (not_greeted_of_failed (hline n) hr hread)
      | data chunk => simp [delivered, hr, hread] at hnone
    · exact (getMsg_delivered (hline m) hq fun k _ => hgreeted.safe k).2
  · rintro ⟨n, hblocked, hsome, hline, hfits⟩
    obtain ⟨r, hr⟩ := Option.isSome_iff_exists.mp hsome
    exact greeted_of_blocked hblocked hr hline hfits

/-- The server greets and is cut short by a byte. -/
theorem greeting_loses_newline : ¬ ∀ reads, Greeted reads := by
  intro h
  have hgreeted := h fun _ => .data ⟨ascii "220 ok\r\n", by decide, by decide⟩
  exact not_greeted_of_line (noLine_zero _) rfl ⟨ascii "220 ok", rfl⟩ hgreeted

end HomeKeeper.Proxy
