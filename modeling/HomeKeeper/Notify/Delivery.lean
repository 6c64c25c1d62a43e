import HomeKeeper.Notify.Pairing

/-!
# What a set flag says about delivery

`sendEmail` flags a row when `result` is true after the mail loop. The loop computes
`result = sendMail.SendMail () | result` from `result = true`, so no failure is ever seen there
(the loop of `sendFile` has `&` in that place), and three failures below it are silent anyway:
`SendMail` without a curl handle, a retry from the stream an earlier attempt has read from, and
an error while the recipients are fetched.

`flagged_rows_delivered` is what remains: along the runs in which none of these failures happens
a flagged row was delivered to every recipient. `lost_mail_is_flagged` is a run that flags a row
no mail about which ever left.
-/

namespace HomeKeeper.Notify

open CData StepSystem

/-- The last transfer of the mail returned `CURLE_OK` and was given the complete message. -/
def MailLog.Delivered (m : MailLog) : Prop := m.result.last = some ⟨curleOk, m.message⟩

instance (m : MailLog) : Decidable m.Delivered :=
  inferInstanceAs (Decidable (m.result.last = some ⟨curleOk, m.message⟩))

/-- Every flag was set behind a delivered mail about its row to every row of `emailInfo`. -/
def Delivery (w : World) : Prop :=
  ∀ f ∈ w.flagSets, ∀ r ∈ w.ipInfo.rows, r.recId = f.recId →
    ∀ e ∈ w.emailInfo, ∃ m ∈ f.loop.mails, m.recipient = e ∧ m.About r.ip ∧ m.Delivered

instance (w : World) : Decidable (Delivery w) := by unfold Delivery; infer_instance

/-! ## The condition on the steps -/

/-- The recipients are fetched without an error, and each mail gets a handle and succeeds within
its six attempts, behind failures that took nothing from the message. -/
def Event.Reliable : Event → Prop
  | .emailRead fetches => ∀ o ∈ fetches, o = .ok
  | .emailMail _ o => o.init = true ∧ Delivers o.attempt 0
  | _ => True

/-! ## The invariant -/

/-- The object has read the recipients, or still has them in its result set. -/
def TblEmailInfo.Complete (em : TblEmailInfo) (table : List EmailInfo) : Prop :=
  em.emailInfos ++ em.pending = table

/-- Every recipient of the table has its mail delivered or is still to come. -/
def SendEmailPc.Covers (table : List EmailInfo) : SendEmailPc → Prop
  | .initing => True
  | .polling em _ => em.Complete table
  | .reading em _ _ _ => em.Complete table
  | .mailing em _ _ _ todo mails _ =>
    em.Complete table
      ∧ ∀ e ∈ table, e ∈ todo ∨ ∃ m ∈ mails, m.recipient = e ∧ m.Delivered

structure Delivering (w : World) : Prop where
  covers : w.sendEmail.Covers w.emailInfo
  flags : ∀ f ∈ w.flagSets, ∀ e ∈ w.emailInfo,
    ∃ m ∈ f.loop.mails, m.recipient = e ∧ m.Delivered

theorem delivering_start (table : IpTable) (emailInfo : List EmailInfo) :
    Delivering (World.start table emailInfo) where
  covers := trivial
  flags := by simp [World.start]

theorem complete_getRes {em : TblEmailInfo} {table : List EmailInfo}
    {fetches : List FetchOutcome} (hem : em.Complete table) (hok : ∀ o ∈ fetches, o = .ok) :
    (em.getRes fetches).1 = table ∧ (em.getRes fetches).2.Complete table := by
  rw [TblEmailInfo.getRes_ok hok]
  exact ⟨hem, (List.append_nil _).trans hem⟩

theorem emailInfo_moves {w w' : World} {e : Event} (h : Moves w e w') :
    w'.emailInfo = w.emailInfo := by
  cases h <;> rfl

theorem covers_moves {w w' : World} {e : Event} (hw : w.sendEmail.Covers w.emailInfo)
    (he : e.Reliable) (h : Moves w e w') : w'.sendEmail.Covers w.emailInfo := by
  cases h with
  | emailInit email ip hpc =>
    simp only
    split
    · exact List.nil_append _
    · trivial
  | emailFetchFailed hpc hpre => rw [hpc] at hw; exact hw
  | emailNothing hpc => rw [hpc] at hw; exact hw
  | emailTake hpc hinfos hflag => rw [hpc] at hw; exact hw
  | emailRead hpc =>
    rw [hpc] at hw
    obtain ⟨hres, hcomplete⟩ := complete_getRes hw he
    refine ⟨hcomplete, fun e he => .inl ?_⟩
    rw [hres]
    exact he
  | @emailMail message o em t info more e todo mails result hpc =>
    rw [hpc] at hw
    obtain ⟨hcomplete, hcovers⟩ := hw
    refine ⟨hcomplete, fun x hx => ?_⟩
    rcases hcovers x hx with hx | ⟨m, hm, hmx⟩
    · rcases List.mem_cons.mp hx with rfl | hx
      · -- the mail of this round is the one for `x`
        refine .inr ⟨_, List.mem_append_right _ (List.mem_singleton_self _), rfl, ?_⟩
        exact sendMail_last he.1 he.2 message
      · exact .inl hx
    · exact .inr ⟨m, List.mem_append_left _ hm, hmx⟩
  | emailFlag hpc => rw [hpc] at hw; exact hw.1
  | emailBreak hpc => trivial
  | _ => exact hw

theorem delivering_step {w w' : World} {e : Event} (hw : Delivering w) (he : e.Reliable)
    (h : step w e = some w') : Delivering w' := by
  have hm := moves_of_step h
  have hcovers := covers_moves hw.covers he hm
  rw [← emailInfo_moves hm] at hcovers
  refine ⟨hcovers, ?_⟩
  cases hm with
  | @emailFlag execute commit em t info more mails hpc =>
    cases execute with
    | false => exact hw.flags
    | true =>
      intro f hf x hx
      rcases List.mem_append.mp hf with hf | hf
      · exact hw.flags f hf x hx
      · rw [List.mem_singleton.mp hf]
        have hdone := hw.covers
        rw [hpc] at hdone
        rcases hdone.2 x hx with htodo | hmail
        · simp at htodo
        · exact hmail
  | _ => exact hw.flags

theorem delivering_run {table : IpTable} {emailInfo : List EmailInfo} {es : List Event} {w : World}
    (hes : ∀ e ∈ es, e.Reliable) (h : run step (World.start table emailInfo) es = some w) :
    Delivering w :=
  run_invariant_of_meets (fun _ _ _ hs he => delivering_step hs he)
    (delivering_start table emailInfo) (meets_of_forall hes _) h

/-! ## Flagged rows -/

/-- **A flag is set only behind delivered mails, as long as nothing fails silently.** In every
state reached by reliable steps each flagged row has been mailed to every recipient, and the last
transfer of each of these mails succeeded with the complete message. -/
theorem flagged_rows_delivered (table : IpTable) (emailInfo : List EmailInfo) (es : List Event)
    (w : World) (hrun : run step (World.start table emailInfo) es = some w)
    (hes : ∀ e ∈ es, e.Reliable) : Delivery w := by
  intro f hf r hr hid e he
  obtain ⟨m, hm, hrecipient, hdelivered⟩ := (delivering_run hes hrun).flags f hf e he
  obtain ⟨-, -, hmails⟩ := ranFor_flagged (paired_run hrun) hf hr hid.symm
  exact ⟨m, hm, hrecipient, hmails m hm, hdelivered⟩

/-- The address one is inserted and `sendEmail` runs one iteration about it. -/
def oneMailSchedule (a : Address) (o : CurlOutcome) : List Event :=
  [.getIpInit true, .getIpPoll (.address a) ⟨true, true, []⟩, .getIpInsert true 0,
   .emailInit true true, .emailPoll ⟨true, true, []⟩, .emailRead [],
   .emailMail (ascii "m") o, .emailFinish true true]

theorem flagged_rows_delivered_one :
    ∃ w, run step (World.start IpTable.empty [oneRecipient])
        (oneMailSchedule addressOne (.always curleOk)) = some w
      ∧ w.flagSets.length = 1 ∧ Delivery w := by
  have hlen : (run step (World.start IpTable.empty [oneRecipient])
      (oneMailSchedule addressOne (.always curleOk))).map (·.flagSets.length) = some 1 := by decide
  obtain ⟨w, hw, hflags⟩ := Option.map_eq_some_iff.mp hlen
  refine ⟨w, hw, hflags, flagged_rows_delivered _ _ _ w hw ?_⟩
  intro e he
  simp only [oneMailSchedule, List.mem_cons, List.not_mem_nil, or_false] at he
  rcases he with rfl | rfl | rfl | rfl | rfl | rfl | rfl | rfl
  case inr.inr.inr.inr.inr.inr.inl => exact ⟨rfl, 0, by simp [CurlOutcome.always]⟩
  case inr.inr.inr.inr.inr.inl => simp [Event.Reliable]
  all_goals trivial

/-- All six transfers of the only mail fail with `CURLE_COULDNT_CONNECT` and the row is
flagged. -/
theorem lost_mail_is_flagged :
    ¬ ∀ (table : IpTable) (emailInfo : List EmailInfo) (es : List Event) (w : World),
      run step (World.start table emailInfo) es = some w → Delivery w := by
  intro h
  have hlost : (run step (World.start IpTable.empty [oneRecipient])
      (oneMailSchedule addressOne (.always 7))).map (fun w => decide (Delivery w))
      = some false := by decide
  obtain ⟨w, hw, hfalse⟩ := Option.map_eq_some_iff.mp hlost
  exact of_decide_eq_false hfalse (h _ _ _ w hw)

end HomeKeeper.Notify
