import HomeKeeper.Base64.Codec

/-!
# `include/EmailSender.hpp` — one mail and its retry loop

The object collects the fields of a mail; `SendMail` hands it to libcurl. The loop of `SendMail`
performs the transfer once and then at most five times more. All attempts read the message from
the one stream `m_strMessage`, which nothing rewinds, and the return value is decided by the
attempts that fail, not by the last one. `sendMail_ret` says what it is, `sendMail_last` when the
last attempt has delivered the message.

The text of the message is mimetic's rendering of the mail and an input here.
-/

namespace HomeKeeper.Notify

open CData Base64

/-- The members of an `EmailSender` that a mail is built from. -/
structure EmailSender where
  charset : Bytes
  userName : Bytes := []
  password : Bytes := []
  serverName : Bytes := []
  port : Bytes := []
  sendName : Bytes := []
  sendMail : Bytes := []
  recvMail : List Bytes := []
  subject : Bytes := []
  content : Bytes := []
  attachMent : List Bytes := []
  deriving DecidableEq, Repr

namespace EmailSender

/-- The constructor with its default charset. -/
def new : EmailSender := { charset := ascii "gb2312" }

def setSmtpServer (m : EmailSender) (username password servername : Bytes) : EmailSender :=
  { m with userName := username, password := password, serverName := servername,
           port := ascii "25" }

/-- `SetSendName`: the name as an encoded word. -/
def setSendName (m : EmailSender) (sendname : Bytes) : EmailSender :=
  { m with sendName := ascii "=?" ++ m.charset ++ ascii "?B?"
      ++ base64Encode sendname (UInt32.ofNat sendname.length) ++ ascii "?=" }

def setSendMail (m : EmailSender) (sendmail : Bytes) : EmailSender :=
  { m with sendMail := sendmail }

def addRecvMail (m : EmailSender) (recvmail : Bytes) : EmailSender :=
  { m with recvMail := m.recvMail ++ [recvmail] }

def setSubject (m : EmailSender) (subject : Bytes) : EmailSender := { m with subject := subject }

/-- `m_strContent` holds the text that goes into mimetic's Base64 encoder here. -/
def setBodyContent (m : EmailSender) (content : Bytes) : EmailSender :=
  { m with content := content }

def addAttachment (m : EmailSender) (filename : Bytes) : EmailSender :=
  { m with attachMent := m.attachMent ++ [filename] }

end EmailSender

/-! ## The message stream -/

/-- `m_strMessage`: what is left to read, and whether a read has run past the end, after which
every further read extracts nothing. -/
structure Stream where
  rest : Bytes
  failed : Bool
  deriving DecidableEq, Repr

/-- The stream `CreatMessage` leaves. -/
def Stream.ofMessage (message : Bytes) : Stream := ⟨message, false⟩

/-- `EmailSender::payload_source` with `size * nmemb = numBytes`. -/
def payloadSource (s : Stream) (numBytes : Nat) : Bytes × Stream :=
  if s.failed then ([], s)
  else (s.rest.take numBytes, ⟨s.rest.drop numBytes, s.rest.length < numBytes⟩)

/-- At most `calls` calls of `payload_source`, up to the first that returns 0: the bytes they
supplied. -/
def supply (size : Nat → Nat) : Nat → Stream → Bytes × Stream
  | 0, s => ([], s)
  | calls + 1, s =>
    let c := payloadSource s (size 0)
    if c.1 = [] then ([], c.2)
    else
      let r := supply (fun k => size (k + 1)) calls c.2
      (c.1 ++ r.1, r.2)

theorem supply_of_failed {s : Stream} (hs : s.failed = true) (size : Nat → Nat) (calls : Nat) :
    (supply size calls s).1 = [] := by
  cases calls with
  | zero => rfl
  | succ calls => simp [supply, payloadSource, hs]

/-- More calls than bytes drain the stream. -/
theorem supply_all {size : Nat → Nat} (hsize : ∀ k, 0 < size k) {calls : Nat} {s : Stream}
    (hs : s.failed = false) (hcalls : s.rest.length < calls) :
    (supply size calls s).1 = s.rest := by
  induction calls generalizing size s with
  | zero => omega
  | succ calls ih =>
    have hpos := hsize 0
    unfold supply
    simp only [payloadSource, hs, Bool.false_eq_true, if_false]
    by_cases hnil : s.rest.take (size 0) = []
    · rw [if_pos hnil]
      rcases List.take_eq_nil_iff.mp hnil with h | h
      · omega
      · exact h.symm
    · rw [if_neg hnil]
      by_cases hlt : s.rest.length < size 0
      · -- the read ran past the end: it returned all there was, the next returns 0
        rw [supply_of_failed (by simpa using hlt), List.append_nil,
          List.take_of_length_le (Nat.le_of_lt hlt)]
      · have hlen : s.rest ≠ [] := fun h => hnil (by rw [h, List.take_nil])
        have := List.length_pos_iff.mpr hlen
        rw [ih (fun k => hsize (k + 1)) (by simpa using hlt)
          (by simp only [List.length_drop]; omega)]
        exact List.take_append_drop _ _

/-! ## `SendMail` -/

/-- `CURLE_OK`. -/
def curleOk : Nat := 0

/-- What libcurl does in one `curl_easy_perform`: its code and the buffer sizes of its calls of
`payload_source`. A transfer that succeeds calls until the callback returns 0, one that fails
may stop after any number of calls. -/
structure Attempt where
  code : Nat
  calls : Nat
  size : Nat → Nat
  size_pos : ∀ k, 0 < size k

/-- A transfer that was performed: its code and what it was given of the message. -/
structure Transfer where
  code : Nat
  supplied : Bytes
  deriving DecidableEq, Repr

def Attempt.perform (a : Attempt) (s : Stream) : Transfer × Stream :=
  let r := supply a.size (if a.code = curleOk then s.rest.length + 1 else a.calls) s
  (⟨a.code, r.1⟩, r.2)

/-- What libcurl answers to one `SendMail`: whether `curl_easy_init` returned a handle, and the
`k`-th `curl_easy_perform` on it. -/
structure CurlOutcome where
  init : Bool
  attempt : Nat → Attempt

/-- The return value of `SendMail` and the transfers it performed, in order. -/
structure SendResult where
  ret : Bool
  performed : List Transfer
  deriving DecidableEq, Repr

/-- `while (res != CURLE_OK)`. The first number is `5 - nTimes`; at zero the next round finds
`nTimes > 5` and breaks before it touches `ret`. -/
def retryLoop (attempt : Nat → Attempt) : Nat → Nat → Bool → Stream → Bool × List Transfer
  | 0, _, ret, _ => (ret, [])
  | left + 1, res, ret, s =>
    if res = curleOk then (ret, [])
    else
      -- `ret = false` stands in every round, also in one whose transfer succeeds
      let p := (attempt (5 - left)).perform s
      let r := retryLoop attempt left p.1.code false p.2
      (r.1, p.1 :: r.2)

/-- `EmailSender::SendMail`; without a curl handle it returns `true` and does nothing. -/
def sendMail (message : Bytes) (o : CurlOutcome) : SendResult :=
  if !o.init then ⟨true, []⟩
  else
    let p := (o.attempt 0).perform (.ofMessage message)
    let r := retryLoop o.attempt 5 p.1.code true p.2
    ⟨r.1, p.1 :: r.2⟩

/-- The last transfer, `none` when there was none. -/
def SendResult.last (r : SendResult) : Option Transfer := r.performed.getLast?

theorem retryLoop_ret (attempt : Nat → Attempt) (left res : Nat) (ret : Bool) (s : Stream) :
    (retryLoop attempt left res ret s).1 = if left = 0 ∨ res = curleOk then ret else false := by
  induction left generalizing res ret s with
  | zero => simp [retryLoop]
  | succ left ih =>
    unfold retryLoop
    by_cases hres : res = curleOk
    · simp [hres]
    · simp [hres, ih]

/-- `SendMail` returns `true` exactly when it had no handle or its first transfer succeeded: a
mail that a retry delivered is reported as failed, one that was never tried as sent. -/
theorem sendMail_ret (message : Bytes) (o : CurlOutcome) :
    (sendMail message o).ret = true ↔ o.init = false ∨ (o.attempt 0).code = curleOk := by
  unfold sendMail
  cases o.init <;> simp [retryLoop_ret, Attempt.perform]

/-! ## When the message is delivered -/

/-- A successful transfer from the untouched stream uploads the whole message. -/
theorem perform_ok {a : Attempt} (hok : a.code = curleOk) (message : Bytes) :
    (a.perform (.ofMessage message)).1 = ⟨curleOk, message⟩ := by
  unfold Attempt.perform
  rw [if_pos hok]
  simp only [hok, supply_all a.size_pos (s := .ofMessage message) rfl (Nat.lt_succ_self _)]
  rfl

/-- A transfer that fails before it reads leaves the stream as it was. -/
theorem perform_unread {a : Attempt} (hok : a.code ≠ curleOk) (hcalls : a.calls = 0) (s : Stream) :
    (a.perform s).2 = s := by
  unfold Attempt.perform
  rw [if_neg hok, hcalls]
  rfl

/-- The attempt that ends the loop, when one of those left succeeds and none before it reads. -/
def Delivers (attempt : Nat → Attempt) (first : Nat) : Prop :=
  ∃ k, first ≤ k ∧ k ≤ 5 ∧ (attempt k).code = curleOk
    ∧ ∀ j, first ≤ j → j < k → (attempt j).calls = 0

/-- One attempt of a series that delivers: it succeeds on the whole message, or it leaves the
stream alone and the attempts behind it deliver. -/
theorem perform_of_delivers {attempt : Nat → Attempt} {first : Nat} {message : Bytes}
    (h : Delivers attempt first) :
    ((attempt first).perform (.ofMessage message)).1 = ⟨curleOk, message⟩
      ∨ (((attempt first).perform (.ofMessage message)).1.code ≠ curleOk
        ∧ ((attempt first).perform (.ofMessage message)).2 = .ofMessage message
        ∧ Delivers attempt (first + 1)) := by
  obtain ⟨k, hfirst, hk, hok, hbefore⟩ := h
  by_cases hres : (attempt first).code = curleOk
  · exact .inl (perform_ok hres message)
  · have hlt : first < k := by
      rcases Nat.lt_or_eq_of_le hfirst with h | h
      · exact h
      · exact absurd (h ▸ hok) hres
    refine .inr ⟨hres, perform_unread hres (hbefore first (Nat.le_refl _) hlt) _, ?_⟩
    exact ⟨k, hlt, hk, hok, fun j hj => hbefore j (by omega)⟩

theorem retryLoop_last {attempt : Nat → Attempt} {left : Nat} {t : Transfer} {ret : Bool}
    {s : Stream} {message : Bytes} (hleft : left ≤ 5)
    (h : t = ⟨curleOk, message⟩
      ∨ (t.code ≠ curleOk ∧ s = .ofMessage message ∧ Delivers attempt (6 - left))) :
    (t :: (retryLoop attempt left t.code ret s).2).getLast? = some ⟨curleOk, message⟩ := by
  induction left generalizing t ret s with
  | zero =>
    rcases h with h | ⟨-, -, k, hfirst, hk, -⟩
    · simp [retryLoop, h]
    · omega
  | succ left ih =>
    unfold retryLoop
    rcases h with h | ⟨hres, rfl, hdel⟩
    · simp [h]
    · rw [if_neg hres, List.getLast?_cons_cons]
      refine ih (by omega) ?_
      rw [show 6 - (left + 1) = 5 - left by omega] at hdel
      rw [show 6 - left = 5 - left + 1 by omega]
      exact perform_of_delivers hdel

/-- With a handle, and one success among the six attempts behind failures that read nothing of
the message, the last transfer succeeded and was given the whole message. -/
theorem sendMail_last {o : CurlOutcome} (hinit : o.init = true) (hok : Delivers o.attempt 0)
    (message : Bytes) : (sendMail message o).last = some ⟨curleOk, message⟩ := by
  unfold sendMail SendResult.last
  rw [hinit]
  exact retryLoop_last (Nat.le_refl 5) (perform_of_delivers hok)

end HomeKeeper.Notify
