import HomeKeeper.Notify.EmailSender

/-!
# What `SendMail` reports

`SendMail` should return `true` when one of its attempts has uploaded the message. Two slips are in
the way. Without a curl handle nothing is tried and `ret` still has its initial value `true`; and a
retry that succeeds does not take back the `ret = false` of its round.

A third one hides the second: nothing rewinds `m_strMessage`, so a retry uploads only what the
attempts before it left in the stream. When they have taken a byte, the successful retry has not
delivered the message and `false` is the right answer (`supplied_of_touched`).

`send_mail_reports_iff` says exactly when the answer is right.
-/

namespace HomeKeeper.Notify

open CData

/-- Some attempt returned `CURLE_OK` and was given the complete message. -/
def SendResult.Delivered (r : SendResult) (message : Bytes) : Prop :=
  ∃ t ∈ r.performed, t.code = curleOk ∧ t.supplied = message

/-- The attempt that ends the loop is a retry, and those before it have taken nothing of the
message. -/
def RetryDelivers (message : Bytes) (attempt : Nat → Attempt) : Prop :=
  ∃ k, 1 ≤ k ∧ k ≤ 5 ∧ (attempt k).code = curleOk
    ∧ ∀ j, j < k → (attempt j).code ≠ curleOk ∧ ((attempt j).calls = 0 ∨ message = [])

/-! ## The stream across attempts -/

theorem length_supply_le (size : Nat → Nat) (calls : Nat) (s : Stream) :
    (supply size calls s).1.length + (supply size calls s).2.rest.length ≤ s.rest.length := by
  induction calls generalizing size s with
  | zero => simp [supply]
  | succ calls ih =>
    have hchunk : (payloadSource s (size 0)).1.length + (payloadSource s (size 0)).2.rest.length
        ≤ s.rest.length := by
      unfold payloadSource
      split
      · simp
      · simp only [List.length_take, List.length_drop]
        omega
    unfold supply
    simp only
    split
    · simp only [List.length_nil]
      omega
    · have hrest := ih (fun k => size (k + 1)) (payloadSource s (size 0)).2
      simp only [List.length_append]
      omega

/-- The first call takes a byte when there is one. -/
theorem supply_takes {size : Nat → Nat} (hsize : ∀ k, 0 < size k) {calls : Nat} {message : Bytes}
    (hcalls : 0 < calls) (hmessage : message ≠ []) :
    (supply size calls (.ofMessage message)).2.rest.length < message.length := by
  obtain ⟨calls, rfl⟩ : ∃ n, calls = n + 1 := ⟨calls - 1, by omega⟩
  have hpos := hsize 0
  have hlen := List.length_pos_iff.mpr hmessage
  have hsource : payloadSource (.ofMessage message) (size 0)
      = (message.take (size 0), ⟨message.drop (size 0), message.length < size 0⟩) := rfl
  have htake : message.take (size 0) ≠ [] := by
    rw [ne_eq, List.take_eq_nil_iff]
    rintro (h | h)
    · omega
    · exact hmessage h
  unfold supply
  simp only [hsource]
  rw [if_neg htake]
  have hrest := length_supply_le (fun k => size (k + 1)) calls
    ⟨message.drop (size 0), decide (message.length < size 0)⟩
  simp only [List.length_drop] at hrest ⊢
  omega

/-- From a stream that has lost a byte no attempt gets the whole message. -/
theorem supplied_of_touched {attempt : Nat → Attempt} {message : Bytes} {left res : Nat}
    {ret : Bool} {s : Stream} (hs : s.rest.length < message.length) :
    ∀ t ∈ (retryLoop attempt left res ret s).2, t.supplied ≠ message := by
  induction left generalizing res ret s with
  | zero => simp [retryLoop]
  | succ left ih =>
    have hlen := length_supply_le (attempt (5 - left)).size
      (if (attempt (5 - left)).code = curleOk then s.rest.length + 1
       else (attempt (5 - left)).calls)
      s
    unfold retryLoop
    split
    · simp
    · intro t ht
      rcases List.mem_cons.mp ht with rfl | ht
      · intro hsupplied
        have : (supply (attempt (5 - left)).size _ s).1.length = message.length :=
          congrArg List.length hsupplied
        omega
      · refine ih ?_ t ht
        show (supply (attempt (5 - left)).size _ s).2.rest.length < message.length
        omega

/-- The stream still supplies the whole message: nothing was taken, or there is nothing to take. -/
def Stream.Holds (s : Stream) (message : Bytes) : Prop :=
  s = .ofMessage message ∨ (message = [] ∧ s.rest = [])

theorem perform_of_holds {a : Attempt} {s : Stream} {message : Bytes} (hs : s.Holds message)
    (hok : a.code = curleOk) : (a.perform s).1 = ⟨curleOk, message⟩ := by
  rcases hs with rfl | ⟨rfl, hrest⟩
  · exact perform_ok hok message
  · have hlen := length_supply_le a.size (if a.code = curleOk then s.rest.length + 1 else a.calls) s
    have hnil : (a.perform s).1.supplied = [] := by
      apply List.length_eq_zero_iff.mp
      show (supply a.size _ s).1.length = 0
      rw [hrest, List.length_nil] at hlen
      rw [hrest, List.length_nil]
      omega
    rw [← hok, ← hnil]
    rfl

/-- After a failed attempt: the stream is as good as before when the attempt took nothing. -/
theorem holds_perform {a : Attempt} {s : Stream} {message : Bytes} (hs : s.Holds message)
    (hfail : a.code ≠ curleOk) (hcalls : a.calls = 0 ∨ message = []) :
    (a.perform s).2.Holds message := by
  by_cases hmessage : message = []
  · right
    have hrest : s.rest = [] := by
      rcases hs with rfl | ⟨-, hrest⟩
      · exact hmessage
      · exact hrest
    have hlen := length_supply_le a.size (if a.code = curleOk then s.rest.length + 1 else a.calls) s
    refine ⟨hmessage, List.length_eq_zero_iff.mp ?_⟩
    show (supply a.size _ s).2.rest.length = 0
    rw [hrest, List.length_nil] at hlen
    rw [hrest, List.length_nil]
    omega
  · have hzero := hcalls.resolve_right hmessage
    rw [perform_unread hfail hzero]
    exact hs

/-! ## The loop -/

/-- Among the attempts from `first` on, the one that succeeds gets the whole message. -/
def DeliversFrom (message : Bytes) (attempt : Nat → Attempt) (first : Nat) : Prop :=
  ∃ k, first ≤ k ∧ k ≤ 5 ∧ (attempt k).code = curleOk
    ∧ ∀ j, first ≤ j → j < k → (attempt j).code ≠ curleOk ∧ ((attempt j).calls = 0 ∨ message = [])

theorem deliversFrom_of_ok {message : Bytes} {attempt : Nat → Attempt} {first : Nat}
    (hfirst : first ≤ 5) (hok : (attempt first).code = curleOk) :
    DeliversFrom message attempt first :=
  ⟨first, Nat.le_refl _, hfirst, hok, fun j h1 h2 => by omega⟩

theorem deliversFrom_of_fail {message : Bytes} {attempt : Nat → Attempt} {first : Nat}
    (hfail : (attempt first).code ≠ curleOk) :
    DeliversFrom message attempt first
      ↔ ((attempt first).calls = 0 ∨ message = []) ∧ DeliversFrom message attempt (first + 1) := by
  constructor
  · rintro ⟨k, hfirst, hk, hok, hbefore⟩
    have hlt : first < k := by
      rcases Nat.lt_or_eq_of_le hfirst with h | h
      · exact h
      · exact absurd (h ▸ hok) hfail
    refine ⟨(hbefore first (Nat.le_refl _) hlt).2, k, hlt, hk, hok, ?_⟩
    exact fun j hj => hbefore j (by omega)
  · rintro ⟨hcalls, k, hfirst, hk, hok, hbefore⟩
    refine ⟨k, by omega, hk, hok, ?_⟩
    intro j hj hjk
    rcases Nat.lt_or_eq_of_le hj with h | h
    · exact hbefore j h hjk
    · exact h ▸ ⟨hfail, hcalls⟩

theorem retryLoop_delivers_iff {attempt : Nat → Attempt} {message : Bytes} {left res : Nat}
    {ret : Bool} {s : Stream} (hleft : left ≤ 6) (hs : s.Holds message) (hres : res ≠ curleOk) :
    (∃ t ∈ (retryLoop attempt left res ret s).2, t.code = curleOk ∧ t.supplied = message)
      ↔ DeliversFrom message attempt (6 - left) := by
  induction left generalizing res ret s with
  | zero =>
    constructor
    · simp [retryLoop]
    · rintro ⟨k, hfirst, hk, -⟩
      omega
  | succ left ih =>
    rw [show 6 - (left + 1) = 5 - left by omega]
    unfold retryLoop
    rw [if_neg hres]
    simp only [List.mem_cons, exists_eq_or_imp]
    by_cases hok : (attempt (5 - left)).code = curleOk
    · -- the loop ends here, with the whole message
      have hperform := perform_of_holds hs hok
      refine ⟨fun _ => deliversFrom_of_ok (by omega) hok, fun _ => .inl ?_⟩
      rw [hperform]
      exact ⟨rfl, rfl⟩
    · have hcode : ((attempt (5 - left)).perform s).1.code ≠ curleOk := hok
      rw [deliversFrom_of_fail hok, or_iff_right fun h => hcode h.1]
      by_cases hcalls : (attempt (5 - left)).calls = 0 ∨ message = []
      · rw [ih (by omega) (holds_perform hs hok hcalls) hcode, and_iff_right hcalls,
          show 6 - left = 5 - left + 1 by omega]
      · -- the attempt has taken a byte, and what is left is never the whole message
        rw [not_or] at hcalls
        obtain ⟨hcalls, hmessage⟩ := hcalls
        have hs' : s = .ofMessage message := hs.resolve_right fun h => hmessage h.1
        have htouched : ((attempt (5 - left)).perform s).2.rest.length < message.length := by
          rw [hs']
          unfold Attempt.perform
          rw [if_neg hok]
          exact supply_takes (attempt (5 - left)).size_pos (by omega) hmessage
        constructor
        · rintro ⟨t, ht, -, hsupplied⟩
          exact absurd hsupplied (supplied_of_touched htouched t ht)
        · rintro ⟨h | h, -⟩
          · exact absurd h hcalls
          · exact absurd h hmessage

/-- The transfers do not depend on `ret`. -/
theorem retryLoop_performed (attempt : Nat → Attempt) (left res : Nat) (ret ret' : Bool)
    (s : Stream) :
    (retryLoop attempt left res ret s).2 = (retryLoop attempt left res ret' s).2 := by
  cases left with
  | zero => rfl
  | succ left =>
    unfold retryLoop
    split <;> rfl

/-- The first attempt is the loop's round before the first. -/
theorem performed_eq {o : CurlOutcome} (hinit : o.init = true) (message : Bytes) :
    (sendMail message o).performed
      = (retryLoop o.attempt 6 (curleOk + 1) true (.ofMessage message)).2 := by
  unfold sendMail
  rw [hinit]
  simp only [Bool.not_true, Bool.false_eq_true, if_false]
  rw [retryLoop_performed o.attempt 5 _ true false]
  rfl

theorem delivered_iff {o : CurlOutcome} (hinit : o.init = true) (message : Bytes) :
    (sendMail message o).Delivered message ↔ DeliversFrom message o.attempt 0 := by
  unfold SendResult.Delivered
  rw [performed_eq hinit]
  exact retryLoop_delivers_iff (Nat.le_refl 6) (.inl rfl) (by decide)

theorem deliversFrom_zero (message : Bytes) (attempt : Nat → Attempt) :
    DeliversFrom message attempt 0
      ↔ (attempt 0).code = curleOk ∨ RetryDelivers message attempt := by
  constructor
  · rintro ⟨k, -, hk, hok, hbefore⟩
    rcases Nat.eq_zero_or_pos k with rfl | hpos
    · exact .inl hok
    · exact .inr ⟨k, hpos, hk, hok, fun j hj => hbefore j (Nat.zero_le j) hj⟩
  · rintro (hok | ⟨k, -, hk, hok, hbefore⟩)
    · exact deliversFrom_of_ok (by omega) hok
    · exact ⟨k, Nat.zero_le k, hk, hok, fun j _ hj => hbefore j hj⟩

/-- **When the answer of `SendMail` is right.** It is `true` exactly if some attempt succeeded and
was given the complete message, if and only if there is a curl handle and it is not a retry that
delivers the message. -/
theorem send_mail_reports_iff (message : Bytes) (o : CurlOutcome) :
    ((sendMail message o).ret = true ↔ (sendMail message o).Delivered message)
      ↔ o.init = true ∧ ¬ RetryDelivers message o.attempt := by
  cases hinit : o.init with
  | false =>
    -- nothing is performed, and the answer is `true`
    have hret : (sendMail message o).ret = true := (sendMail_ret message o).mpr (.inl hinit)
    have hnone : ¬ (sendMail message o).Delivered message := by
      simp [SendResult.Delivered, sendMail, hinit]
    simp [hret, hnone]
  | true =>
    rw [sendMail_ret, delivered_iff hinit, deliversFrom_zero, hinit]
    simp only [Bool.true_eq_false, false_or, true_and]
    constructor
    · intro h hretry
      have hfirst : (o.attempt 0).code = curleOk := h.mpr (.inr hretry)
      obtain ⟨k, hpos, -, -, hbefore⟩ := hretry
      exact (hbefore 0 hpos).1 hfirst
    · intro h
      rw [or_iff_left h]

/-- The first attempt fails before it reads, the second one succeeds. -/
def secondTime : CurlOutcome :=
  ⟨true, fun k => ⟨if k = 1 then curleOk else 7, 0, fun _ => 16, fun _ => Nat.succ_pos 15⟩⟩

/-- The mail was delivered by the second attempt and `SendMail` returns `false`. -/
theorem delivered_mail_reported_failed :
    ¬ ∀ (message : Bytes) (o : CurlOutcome),
      ((sendMail message o).ret = true ↔ (sendMail message o).Delivered message) := by
  intro h
  have hret : (sendMail (ascii "m") secondTime).ret = false := by decide
  have hdelivered : (sendMail (ascii "m") secondTime).Delivered (ascii "m") :=
    ⟨⟨curleOk, ascii "m"⟩, by decide, rfl, rfl⟩
  have htrue := (h _ _).mpr hdelivered
  rw [hret] at htrue
  cases htrue

end HomeKeeper.Notify
