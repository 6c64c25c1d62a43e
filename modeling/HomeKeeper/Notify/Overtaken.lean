import HomeKeeper.Notify.Pairing

/-!
# Addresses that change too fast

`sqlForSelect` reads the row with the largest `rec_id` and no other. A row that is not the newest
any more reaches `sendEmail` only through what the thread holds already: the vector of the
iteration under way, or the member vector a failed fetch has left filled. Without that its address
is never mailed, and its `send_flag` stays as it is for ever.
-/

namespace HomeKeeper.Notify

open CData StepSystem

/-- There is a newer row, and `sendEmail` holds nothing of this one. -/
structure Overtaken (w : World) (r : IpRow) : Prop where
  mem : r ∈ w.ipInfo.rows
  newer : ∃ q ∈ w.ipInfo.rows, r.recId < q.recId
  held : ∀ info ∈ w.sendEmail.held, info.recId ≠ r.recId

/-- The mail loops that `w'` has run more than `w` are about other rows. -/
def MailsOthers (r : IpRow) (w w' : World) : Prop :=
  ∃ more, w'.loops = w.loops ++ more ∧ ∀ l ∈ more, ∀ info ∈ l.infos, info.recId ≠ r.recId

section
variable {w w' w'' : World} {e : Event} {r : IpRow}

theorem MailsOthers.of_eq (h : w'.loops = w.loops) : MailsOthers r w w' :=
  ⟨[], by rw [h, List.append_nil], fun _ hl => absurd hl List.not_mem_nil⟩

theorem MailsOthers.trans (h : MailsOthers r w w') (h' : MailsOthers r w' w'') :
    MailsOthers r w w'' := by
  obtain ⟨more, hloops, hothers⟩ := h
  obtain ⟨more', hloops', hothers'⟩ := h'
  refine ⟨more ++ more', by rw [hloops', hloops, List.append_assoc], fun l hl => ?_⟩
  rcases List.mem_append.mp hl with hl | hl
  · exact hothers l hl
  · exact hothers' l hl

/-! ## One step -/

/-- The select passes over a row that is not the newest. -/
theorem recId_ne_of_mem_sqlForSelect {table : IpTable} {p q : IpRow} (hq : q ∈ table.rows)
    (hlt : r.recId < q.recId) (hp : p ∈ table.sqlForSelect) : p.recId ≠ r.recId := by
  have hall := (List.mem_filter.mp hp).2
  have hle : q.recId ≤ p.recId := of_decide_eq_true (List.all_eq_true.mp hall q hq)
  omega

theorem Overtaken.handedOut (h : Overtaken w r) {t : TblIpInfo}
    (ht : ∀ info ∈ t.ipInfos, info.recId ≠ r.recId) :
    ∀ info ∈ t.handedOut w.ipInfo, info.recId ≠ r.recId := by
  intro info hinfo
  obtain ⟨q, hq, hlt⟩ := h.newer
  rcases List.mem_append.mp hinfo with hinfo | hinfo
  · exact ht info hinfo
  · obtain ⟨p, hp, rfl⟩ := List.mem_map.mp hinfo
    exact recId_ne_of_mem_sqlForSelect hq hlt hp

theorem Overtaken.held_moves (h : Overtaken w r) (hmoves : Moves w e w') :
    ∀ info ∈ w'.sendEmail.held, info.recId ≠ r.recId := by
  have hheld := h.held
  cases hmoves with
  | emailInit email ip hpc =>
    dsimp only
    split
    · exact fun _ hinfo => absurd hinfo List.not_mem_nil
    · exact fun _ hinfo => absurd hinfo List.not_mem_nil
  | @emailFetchFailed o em t pre hpc hpre =>
    -- the member vector keeps the rows that were fetched before the failure
    rw [hpc] at hheld
    intro info hinfo
    refine h.handedOut hheld info ?_
    rcases List.mem_append.mp hinfo with hinfo | hinfo
    · exact List.mem_append_left _ hinfo
    · exact List.mem_append_right _ ((hpre.map t.ofRow).subset hinfo)
  | emailNothing hpc => exact fun _ hinfo => absurd hinfo List.not_mem_nil
  | @emailTake o em t info more hpc hinfos hflag =>
    rw [hpc] at hheld
    intro x hx
    exact h.handedOut hheld x (hinfos ▸ hx)
  | emailRead hpc =>
    rw [hpc] at hheld
    exact hheld
  | emailMail hpc =>
    rw [hpc] at hheld
    exact hheld
  | @emailFlag execute commit em t info more mails hpc =>
    rw [hpc] at hheld
    exact fun x hx => hheld x (List.mem_append_left _ hx)
  | emailBreak hpc => exact fun _ hinfo => absurd hinfo List.not_mem_nil
  | _ => exact hheld

/-- The row in front of a finished iteration is another one, so the update passes over this
one. -/
theorem Overtaken.rows_moves (h : Overtaken w r) (hmoves : Moves w e w') :
    r ∈ w'.ipInfo.rows := by
  have hheld := h.held
  cases hmoves with
  | getIpInserted hpc => exact List.mem_append_left _ h.mem
  | @emailFlag execute commit em t info more mails hpc =>
    -- the update changes the rows with the `rec_id` of the one in front
    cases execute with
    | false => exact h.mem
    | true =>
      rw [hpc] at hheld
      have hne : info.recId ≠ r.recId := hheld info (by simp [SendEmailPc.held])
      exact List.mem_map.mpr ⟨r, h.mem, IpTable.setFlag_of_ne hne.symm⟩
  | _ => exact h.mem

theorem Overtaken.loops_moves (h : Overtaken w r) (hmoves : Moves w e w') :
    MailsOthers r w w' := by
  have hheld := h.held
  cases hmoves with
  | @emailFlag execute commit em t info more mails hpc =>
    rw [hpc] at hheld
    refine ⟨[⟨info :: more, mails⟩], rfl, fun l hl x hx => ?_⟩
    rw [List.mem_singleton] at hl
    subst hl
    exact hheld x (List.mem_append_right _ hx)
  | @emailBreak execute commit em t info more mails hpc =>
    rw [hpc] at hheld
    refine ⟨[⟨info :: more, mails⟩], rfl, fun l hl x hx => ?_⟩
    rw [List.mem_singleton] at hl
    subst hl
    exact hheld x (List.mem_append_right _ hx)
  | _ => exact .of_eq rfl

theorem Overtaken.step (h : Overtaken w r) (hstep : step w e = some w') :
    Overtaken w' r ∧ MailsOthers r w w' := by
  have hmoves := moves_of_step hstep
  obtain ⟨q, hq, hlt⟩ := h.newer
  -- no row is ever deleted, so the newer one is still there
  obtain ⟨q', hq', hid, -⟩ := extends_of_moves hmoves q hq
  exact ⟨⟨h.rows_moves hmoves, ⟨q', hq', hid ▸ hlt⟩, h.held_moves hmoves⟩, h.loops_moves hmoves⟩

end

/-! ## Whole runs -/

/-- **An overtaken address is never mailed.** Whatever the two threads do from then on, and
whatever fails, the row stays as it is, and no mail loop is about it. -/
theorem overtaken_row_never_mailed (w w' : World) (r : IpRow) (es : List Event)
    (h : Overtaken w r) (hrun : run step w es = some w') :
    r ∈ w'.ipInfo.rows ∧
      ∃ more, w'.loops = w.loops ++ more ∧
        ∀ l ∈ more, ∀ info ∈ l.infos, info.recId ≠ r.recId := by
  have hinv : Overtaken w' r ∧ MailsOthers r w w' := by
    refine run_invariant (I := fun v => Overtaken v r ∧ MailsOthers r w v) ?_
      ⟨h, .of_eq rfl⟩ hrun
    rintro s e s' ⟨hs, hothers⟩ hstep
    obtain ⟨hs', hothers'⟩ := hs.step hstep
    exact ⟨hs', hothers.trans hothers'⟩
  exact ⟨hinv.1.mem, hinv.2⟩

/-- Two addresses come in before `sendEmail` has polled once. -/
def twoAddressSchedule (a b : Address) : List Event :=
  [.getIpInit true, .getIpPoll (.address a) ⟨true, true, []⟩, .getIpInsert true 0,
   .getIpPoll (.address b) ⟨true, true, []⟩, .getIpInsert true 0]

/-- A round of `sendEmail` in which everything succeeds. -/
def faultFreeRound : List Event :=
  [.emailInit true true, .emailPoll ⟨true, true, []⟩, .emailRead [],
   .emailMail (ascii "m") (.always curleOk), .emailFinish true true]

/-- The first of two addresses is lost, though nothing fails. -/
theorem overtaken_row_never_mailed_first :
    ∃ w w', run step (World.start IpTable.empty [oneRecipient])
        (twoAddressSchedule addressOne addressTwo) = some w
      ∧ run step w faultFreeRound = some w'
      ∧ (⟨1, addressOne.text, flagUnsent⟩ : IpRow) ∈ w'.ipInfo.rows
      ∧ w'.ipInfo.rows.map (·.sendFlag) = [flagUnsent, flagSent] := by
  have hrows : (run step (World.start IpTable.empty [oneRecipient])
      (twoAddressSchedule addressOne addressTwo)).map
        (fun w => (w.ipInfo.rows, w.sendEmail.held))
      = some ([⟨1, addressOne.text, flagUnsent⟩, ⟨2, addressTwo.text, flagUnsent⟩], []) := by
    decide
  obtain ⟨w, hw, hrows⟩ := Option.map_eq_some_iff.mp hrows
  have hflags : (run step (World.start IpTable.empty [oneRecipient])
      (twoAddressSchedule addressOne addressTwo ++ faultFreeRound)).map
        (fun w => w.ipInfo.rows.map (·.sendFlag)) = some [flagUnsent, flagSent] := by
    decide
  obtain ⟨w', hw', hflags⟩ := Option.map_eq_some_iff.mp hflags
  obtain ⟨m, hm, hround⟩ := run_append.mp hw'
  obtain rfl : m = w := Option.some.inj (hm.symm.trans hw)
  have hover : Overtaken m ⟨1, addressOne.text, flagUnsent⟩ := by
    obtain ⟨htable, hheld⟩ := Prod.mk.inj hrows
    refine ⟨by rw [htable]; simp, ⟨⟨2, addressTwo.text, flagUnsent⟩, by rw [htable]; simp, ?_⟩, ?_⟩
    · show 1 < 2
      decide
    · rw [hheld]
      exact fun _ hinfo => absurd hinfo List.not_mem_nil
  exact ⟨m, w', hw, hround, (overtaken_row_never_mailed m w' _ _ hover hround).1, hflags⟩

end HomeKeeper.Notify
