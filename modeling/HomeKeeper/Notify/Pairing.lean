import HomeKeeper.Notify.WorkFunctions

/-!
# The row that is flagged is the row that was mailed

Between reading the newest row and flagging it `sendEmail` may spend minutes in SMTP retries
while `getIp` inserts further rows, and a row cached by a failed fetch may come out of a later
`getRes`. The pair of `rec_id` and `ip` survives both: every `ipInfo_t` the thread holds was
built from one row, rows are never removed, and no statement changes a `rec_id` or an `ip`.

* `InTable` — an `ipInfo_t` that was built from a row of the table;
* `Paired` — the invariant: all vectors of the thread, its mails and its histories speak of rows;
* `paired_step`, `paired_run` — one step and every run keep it;
* `flag_follows_mail` — what the flag of a row inserted by `getIp` says.
-/

namespace HomeKeeper.Notify

open CData StepSystem

/-! ## Rows persist -/

/-- `info` carries the `rec_id` and the `ip` of a row. -/
def InTable (table : IpTable) (info : IpInfo) : Prop :=
  ∃ r ∈ table.rows, r.recId = info.recId ∧ r.ip = info.ip

theorem inTable_ofRow {table : IpTable} {r : IpRow} (hr : r ∈ table.rows) (t : TblIpInfo) :
    InTable table (t.ofRow r) :=
  ⟨r, hr, rfl, rfl⟩

/-- `table'` has every row of `table`, up to its flag. -/
def Extends (table table' : IpTable) : Prop :=
  ∀ r ∈ table.rows, ∃ r' ∈ table'.rows, r'.recId = r.recId ∧ r'.ip = r.ip

theorem Extends.refl (table : IpTable) : Extends table table := fun r hr => ⟨r, hr, rfl, rfl⟩

theorem extends_insert (table : IpTable) (ip : Bytes) (gap : Nat) :
    Extends table (table.sqlForInsert ip gap) :=
  fun r hr => ⟨r, List.mem_append_left _ hr, rfl, rfl⟩

theorem extends_update (table : IpTable) (recId : Nat) :
    Extends table (table.sqlForUpdate recId) :=
  fun r hr => ⟨IpTable.setFlag recId r, List.mem_map_of_mem hr, by simp, by simp⟩

theorem InTable.mono {table table' : IpTable} {info : IpInfo} (h : InTable table info)
    (hext : Extends table table') : InTable table' info := by
  obtain ⟨r, hr, hid, hip⟩ := h
  obtain ⟨r', hr', hid', hip'⟩ := hext r hr
  exact ⟨r', hr', hid'.trans hid, hip'.trans hip⟩

theorem extends_of_moves {w w' : World} {e : Event} (h : Moves w e w') :
    Extends w.ipInfo w'.ipInfo := by
  cases h with
  | getIpInserted hpc => exact extends_insert _ _ _
  | @emailFlag execute commit em t info more mails hpc =>
    cases execute
    · exact Extends.refl _
    · exact extends_update _ _
  | _ => exact Extends.refl _

/-! ## The invariant -/

/-- The mail is the one `sendEmail` fills for `ip`: it goes to its recipient and to nobody else, and
says the address. -/
def MailLog.About (m : MailLog) (ip : Bytes) : Prop :=
  m.mail = mailTo m.recipient ip ∧ m.mail.recvMail = [m.recipient.recipient]
    ∧ m.mail.content = ip ++ ascii " url is " ++ ip ++ ascii ":19870"

instance (m : MailLog) (ip : Bytes) : Decidable (m.About ip) := by
  unfold MailLog.About; infer_instance

theorem about_mailTo (e : EmailInfo) (ip message : Bytes) (result : SendResult) :
    (MailLog.mk e (mailTo e ip) message result).About ip :=
  ⟨rfl, rfl, rfl⟩

/-- Every `ipInfo_t` the thread holds, in the object's vector or in `infos`. -/
def SendEmailPc.held : SendEmailPc → List IpInfo
  | .initing => []
  | .polling _ t => t.ipInfos
  | .reading _ t info more => t.ipInfos ++ info :: more
  | .mailing _ t info more _ _ _ => t.ipInfos ++ info :: more

/-- The iteration under way is about an unsent row, and the mails it has sent are about its
`ip`. -/
def SendEmailPc.Current : SendEmailPc → Prop
  | .initing => True
  | .polling _ _ => True
  | .reading _ _ info _ => info.sendFlag = ascii "0"
  | .mailing _ _ info _ _ mails _ =>
    info.sendFlag = ascii "0" ∧ ∀ m ∈ mails, m.About info.ip

/-- The loop ran for the row `recId` with address `ip`: `getRes` gave the iteration that row,
unsent, in front, and every mail is about `ip`. -/
def MailLoop.RanFor (l : MailLoop) (recId : Nat) (ip : Bytes) : Prop :=
  (∃ more, l.infos = ⟨recId, ip, ascii "0"⟩ :: more)
    ∧ ∀ m ∈ l.mails, m.About ip

structure Paired (w : World) : Prop where
  held : ∀ info ∈ w.sendEmail.held, InTable w.ipInfo info
  current : w.sendEmail.Current
  loops : ∀ l ∈ w.loops, ∃ r ∈ w.ipInfo.rows, l.RanFor r.recId r.ip
  flags : ∀ f ∈ w.flagSets, f.loop ∈ w.loops ∧ ∃ ip, f.loop.RanFor f.recId ip
  sent : ∀ r ∈ w.ipInfo.rows, r.recId ∈ w.inserted →
    r.sendFlag = flagUnsent ∨ ∃ f ∈ w.flagSets, f.recId = r.recId

theorem paired_start (table : IpTable) (emailInfo : List EmailInfo) :
    Paired (World.start table emailInfo) where
  held := by simp [World.start, SendEmailPc.held]
  current := trivial
  loops := by simp [World.start]
  flags := by simp [World.start]
  sent := by simp [World.start]

/-! ## One step

`held` and `current` are about the thread, `loops`, `flags` and `sent` about what it leaves
behind; each is carried through the branches by its own lemma. -/

theorem handedOut_inTable {t : TblIpInfo} {table : IpTable}
    (h : ∀ info ∈ t.ipInfos, InTable table info) :
    ∀ info ∈ t.handedOut table, InTable table info := by
  intro info hinfo
  rcases List.mem_append.mp hinfo with hinfo | hinfo
  · exact h info hinfo
  · obtain ⟨r, hr, rfl⟩ := List.mem_map.mp hinfo
    exact inTable_ofRow (IpTable.mem_of_mem_sqlForSelect hr) t

theorem keeping_inTable {t : TblIpInfo} {table : IpTable} {pre : List IpRow}
    (h : ∀ info ∈ t.ipInfos, InTable table info) (hpre : pre <+: table.sqlForSelect) :
    ∀ info ∈ (t.keeping pre).ipInfos, InTable table info := by
  intro info hinfo
  rcases List.mem_append.mp hinfo with hinfo | hinfo
  · exact h info hinfo
  · obtain ⟨r, hr, rfl⟩ := List.mem_map.mp hinfo
    exact inTable_ofRow (IpTable.mem_of_mem_sqlForSelect (hpre.subset hr)) t

theorem held_moves {w w' : World} {e : Event} (hw : Paired w) (h : Moves w e w') :
    ∀ info ∈ w'.sendEmail.held, InTable w.ipInfo info := by
  have hheld := hw.held
  cases h with
  | emailInit email ip hpc =>
    simp only
    split <;> simp [SendEmailPc.held, TblIpInfo.empty]
  | emailFetchFailed hpc hpre =>
    rw [hpc] at hheld
    exact keeping_inTable hheld hpre
  | emailNothing hpc => simp [SendEmailPc.held, TblIpInfo.emptied]
  | @emailTake o em t info more hpc hinfos hflag =>
    rw [hpc] at hheld
    simp only [SendEmailPc.held, TblIpInfo.emptied, List.nil_append]
    rw [← hinfos]
    exact handedOut_inTable hheld
  | emailRead hpc => rw [hpc] at hheld; exact hheld
  | emailMail hpc => rw [hpc] at hheld; exact hheld
  | @emailFlag execute commit em t info more mails hpc =>
    rw [hpc] at hheld
    exact fun i hi => hheld i (List.mem_append_left _ hi)
  | emailBreak hpc => simp [SendEmailPc.held]
  | _ => exact hheld

theorem current_moves {w w' : World} {e : Event} (hw : Paired w) (h : Moves w e w') :
    w'.sendEmail.Current := by
  have hcur := hw.current
  cases h with
  | emailInit email ip hpc =>
    simp only
    split <;> trivial
  | emailFetchFailed hpc hpre => trivial
  | emailNothing hpc => trivial
  | emailTake hpc hinfos hflag => exact hflag
  | emailRead hpc =>
    rw [hpc] at hcur
    exact ⟨hcur, by simp⟩
  | @emailMail message o em t info more e todo mails result hpc =>
    rw [hpc] at hcur
    refine ⟨hcur.1, ?_⟩
    intro m hm
    rcases List.mem_append.mp hm with hm | hm
    · exact hcur.2 m hm
    · rw [List.mem_singleton.mp hm]
      exact about_mailTo e info.ip message _
  | emailFlag hpc => trivial
  | emailBreak hpc => trivial
  | _ => exact hcur

/-- The loop an iteration completes ran for a row of the table. -/
theorem ranFor_finished {w : World} (hw : Paired w) {em : TblEmailInfo} {t : TblIpInfo}
    {info : IpInfo} {more : List IpInfo} {todo : List EmailInfo} {mails : List MailLog}
    {result : Bool} (hpc : w.sendEmail = .mailing em t info more todo mails result) :
    ∃ r ∈ w.ipInfo.rows, r.recId = info.recId ∧ r.ip = info.ip
      ∧ (MailLoop.mk (info :: more) mails).RanFor r.recId r.ip := by
  have hheld := hw.held
  have hcur := hw.current
  rw [hpc] at hheld hcur
  obtain ⟨r, hr, hid, hip⟩ := hheld info (by simp [SendEmailPc.held])
  obtain ⟨hflag, hmails⟩ := hcur
  refine ⟨r, hr, hid, hip, ⟨more, ?_⟩, ?_⟩
  · obtain ⟨recId, ip, sendFlag⟩ := info
    simp only at hid hip hflag
    rw [hid, hip, hflag]
  · rw [hip]
    exact hmails

/-- The loops of the new state: those of the old one, and the one just completed. -/
theorem loops_moves {w w' : World} {e : Event} (hw : Paired w) (h : Moves w e w') :
    ∀ l ∈ w'.loops, ∃ r ∈ w.ipInfo.rows, l.RanFor r.recId r.ip := by
  have hfin {em : TblEmailInfo} {t : TblIpInfo} {info : IpInfo} {more : List IpInfo}
      {mails : List MailLog} {result : Bool}
      (hpc : w.sendEmail = .mailing em t info more [] mails result) :
      ∀ l ∈ w.loops ++ [⟨info :: more, mails⟩], ∃ r ∈ w.ipInfo.rows, l.RanFor r.recId r.ip := by
    intro l hl
    rcases List.mem_append.mp hl with hl | hl
    · exact hw.loops l hl
    · obtain ⟨r, hr, -, -, hran⟩ := ranFor_finished hw hpc
      rw [List.mem_singleton.mp hl]
      exact ⟨r, hr, hran⟩
  cases h with
  | emailFlag hpc => exact hfin hpc
  | emailBreak hpc => exact hfin hpc
  | _ => exact hw.loops

theorem flags_moves {w w' : World} {e : Event} (hw : Paired w) (h : Moves w e w') :
    ∀ f ∈ w'.flagSets, f.loop ∈ w'.loops ∧ ∃ ip, f.loop.RanFor f.recId ip := by
  have hold (l : MailLoop) : ∀ f ∈ w.flagSets,
      f.loop ∈ w.loops ++ [l] ∧ ∃ ip, f.loop.RanFor f.recId ip :=
    fun f hf => ⟨List.mem_append_left _ (hw.flags f hf).1, (hw.flags f hf).2⟩
  cases h with
  | @emailFlag execute commit em t info more mails hpc =>
    cases execute with
    | false => exact hold _
    | true =>
      intro f hf
      rcases List.mem_append.mp hf with hf | hf
      · exact hold _ f hf
      · obtain ⟨r, -, hid, -, hran⟩ := ranFor_finished hw hpc
        rw [List.mem_singleton.mp hf]
        refine ⟨List.mem_append_right _ (List.mem_singleton_self _), r.ip, ?_⟩
        rw [← hid]
        exact hran
  | emailBreak hpc => exact hold _
  | _ => exact hw.flags

theorem sent_moves {w w' : World} {e : Event} (hw : Paired w) (h : Moves w e w') :
    ∀ r ∈ w'.ipInfo.rows, r.recId ∈ w'.inserted →
      r.sendFlag = flagUnsent ∨ ∃ f ∈ w'.flagSets, f.recId = r.recId := by
  cases h with
  | @getIpInserted gap a t hpc =>
    intro r hr hins
    rcases List.mem_append.mp hr with hr | hr
    · refine hw.sent r hr ?_
      rcases List.mem_append.mp hins with hins | hins
      · exact hins
      · -- the new id is beyond every row that was there
        have hlt := w.ipInfo.recId_lt_nextId hr
        rw [List.mem_singleton] at hins
        omega
    · rw [List.mem_singleton.mp hr]
      exact .inl rfl
  | @emailFlag execute commit em t info more mails hpc =>
    cases execute with
    | false => exact hw.sent
    | true =>
      intro r hr hins
      obtain ⟨q, hq, rfl⟩ := List.mem_map.mp hr
      rw [IpTable.setFlag_recId] at hins ⊢
      by_cases hid : q.recId = info.recId
      · exact .inr ⟨⟨info.recId, ⟨info :: more, mails⟩⟩, by simp, hid.symm⟩
      · rw [IpTable.setFlag_of_ne hid]
        rcases hw.sent q hq hins with hflag | ⟨f, hf, hfid⟩
        · exact .inl hflag
        · exact .inr ⟨f, List.mem_append_left _ hf, hfid⟩
  | _ => exact hw.sent

theorem paired_step {w w' : World} {e : Event} (hw : Paired w) (h : step w e = some w') :
    Paired w' := by
  have hm := moves_of_step h
  have hext := extends_of_moves hm
  refine ⟨?_, current_moves hw hm, ?_, flags_moves hw hm, sent_moves hw hm⟩
  · exact fun info hinfo => (held_moves hw hm info hinfo).mono hext
  · intro l hl
    obtain ⟨r, hr, hran⟩ := loops_moves hw hm l hl
    obtain ⟨r', hr', hid, hip⟩ := hext r hr
    exact ⟨r', hr', hid ▸ hip ▸ hran⟩

theorem paired_run {table : IpTable} {emailInfo : List EmailInfo} {es : List Event} {w : World}
    (h : run step (World.start table emailInfo) es = some w) : Paired w :=
  run_invariant (fun _ _ _ => paired_step) (paired_start table emailInfo) h

/-! ## What the flags say -/

/-- The rows after the flag of `r`, and of nothing else, was set. -/
def flagOnly (r : IpRow) (rows : List IpRow) : List IpRow :=
  rows.map fun q => if q = r then { q with sendFlag := flagSent } else q

theorem rows_sqlForUpdate {table : IpTable} {r : IpRow} (hr : r ∈ table.rows) :
    (table.sqlForUpdate r.recId).rows = flagOnly r table.rows := by
  refine List.map_congr_left fun q hq => ?_
  unfold IpTable.setFlag
  by_cases hid : q.recId = r.recId
  · rw [if_pos hid, if_pos (IpTable.eq_of_recId_eq hq hr hid)]
  · rw [if_neg hid, if_neg fun h : q = r => hid (congrArg IpRow.recId h)]

/-- The end of an iteration: its loop ran for a row of the table, and the update, when MySQL
executes it, sets the flag of that row and of no other. -/
theorem finish_flags_mailed_row {w w' : World} (hw : Paired w) {execute commit : Bool}
    (h : step w (.emailFinish execute commit) = some w') :
    ∃ l, ∃ r ∈ w.ipInfo.rows, w'.loops = w.loops ++ [l] ∧ l.RanFor r.recId r.ip
      ∧ ((w'.flagSets = w.flagSets ∧ w'.ipInfo.rows = w.ipInfo.rows)
        ∨ (w'.flagSets = w.flagSets ++ [⟨r.recId, l⟩]
          ∧ w'.ipInfo.rows = flagOnly r w.ipInfo.rows)) := by
  have hm := moves_of_step h
  cases hm with
  | @emailFlag _ _ em t info more mails hpc =>
    obtain ⟨r, hr, hid, -, hran⟩ := ranFor_finished hw hpc
    refine ⟨⟨info :: more, mails⟩, r, hr, rfl, hran, ?_⟩
    cases execute with
    | false => exact .inl ⟨rfl, rfl⟩
    | true =>
      right
      rw [← rows_sqlForUpdate hr, hid]
      exact ⟨rfl, rfl⟩
  | @emailBreak _ _ em t info more mails hpc =>
    obtain ⟨r, hr, -, -, hran⟩ := ranFor_finished hw hpc
    exact ⟨⟨info :: more, mails⟩, r, hr, rfl, hran, .inl ⟨rfl, rfl⟩⟩

/-- No step but the end of an iteration touches a row that is there. -/
theorem rows_kept {w w' : World} {e : Event} (h : step w e = some w')
    (he : ∀ execute commit, e ≠ .emailFinish execute commit) :
    ∀ q ∈ w.ipInfo.rows, q ∈ w'.ipInfo.rows := by
  intro q hq
  cases moves_of_step h with
  | getIpInserted hpc => exact List.mem_append_left _ hq
  | @emailFlag execute commit em t info more mails hpc => exact absurd rfl (he execute commit)
  | emailBreak hpc => exact hq
  | _ => exact hq

/-- A flag names the row its mail loop ran for. -/
theorem ranFor_flagged {w : World} (hw : Paired w) {f : FlagSet} (hf : f ∈ w.flagSets) {r : IpRow}
    (hr : r ∈ w.ipInfo.rows) (hid : f.recId = r.recId) :
    f.loop ∈ w.loops ∧ f.loop.RanFor r.recId r.ip := by
  obtain ⟨hloop, ip, ⟨more, hinfos⟩, -⟩ := hw.flags f hf
  obtain ⟨q, hq, hran⟩ := hw.loops f.loop hloop
  -- both name the row in front of the loop's vector
  have hqr : q = r := by
    obtain ⟨more', hinfos'⟩ := hran.1
    rw [hinfos'] at hinfos
    simp only [List.cons.injEq, IpInfo.mk.injEq] at hinfos
    exact IpTable.eq_of_recId_eq hq hr (hinfos.1.1.trans hid)
  exact ⟨hloop, hqr ▸ hran⟩

/-- The flag of a row inserted by `getIp` is set only after a mail loop ran for that row. -/
theorem flag_follows_mail {w : World} (hw : Paired w) {r : IpRow} (hr : r ∈ w.ipInfo.rows)
    (hins : r.recId ∈ w.inserted) :
    r.sendFlag = flagUnsent ∨ ∃ l ∈ w.loops, l.RanFor r.recId r.ip := by
  rcases hw.sent r hr hins with hflag | ⟨f, hf, hid⟩
  · exact .inl hflag
  · exact .inr ⟨f.loop, ranFor_flagged hw hf hr hid⟩

/-- **A new address is never masked by a concurrent send.** In every state the threads reach:
the update that ends an iteration of `sendEmail` changes the flag of the row its mails were
about and of no other; no other step changes a row; and a row `getIp` inserted is unsent unless
a mail loop has run for it. -/
theorem new_address_never_masked (table : IpTable) (emailInfo : List EmailInfo) (es : List Event)
    (w : World) (hrun : run step (World.start table emailInfo) es = some w) :
    (∀ execute commit w', step w (.emailFinish execute commit) = some w' →
      ∃ l, ∃ r ∈ w.ipInfo.rows, w'.loops = w.loops ++ [l] ∧ l.RanFor r.recId r.ip
        ∧ ((w'.flagSets = w.flagSets ∧ w'.ipInfo.rows = w.ipInfo.rows)
          ∨ (w'.flagSets = w.flagSets ++ [⟨r.recId, l⟩]
            ∧ w'.ipInfo.rows = flagOnly r w.ipInfo.rows)))
    ∧ (∀ e w', step w e = some w' → (∀ execute commit, e ≠ .emailFinish execute commit) →
      ∀ q ∈ w.ipInfo.rows, q ∈ w'.ipInfo.rows)
    ∧ (∀ r ∈ w.ipInfo.rows, r.recId ∈ w.inserted →
      r.sendFlag = flagUnsent ∨ ∃ l ∈ w.loops, l.RanFor r.recId r.ip) := by
  have hw := paired_run hrun
  refine ⟨?_, ?_, ?_⟩
  · exact fun _ _ _ h => finish_flags_mailed_row hw h
  · exact fun _ _ h he => rows_kept h he
  · exact fun _ hr hins => flag_follows_mail hw hr hins

/-- Every transfer returns `code`; one that fails has read nothing. -/
def CurlOutcome.always (code : Nat) : CurlOutcome :=
  ⟨true, fun _ => ⟨code, 0, fun _ => 16, fun _ => by decide⟩⟩

/-- A schedule with a cached row: the fetch of row 1 fails after the row, `getIp` inserts row 2,
and the next iteration of `sendEmail` mails and flags row 1. -/
def cachedRowSchedule (a b : Address) : List Event :=
  [.getIpInit true, .getIpPoll (.address a) ⟨true, true, []⟩, .getIpInsert true 0,
   .emailInit true true, .emailPoll ⟨true, true, [.ok, .error]⟩,
   .getIpPoll (.address b) ⟨true, true, []⟩, .getIpInsert true 0,
   .emailPoll ⟨true, true, []⟩, .emailRead [], .emailMail (ascii "m") (.always curleOk),
   .emailFinish true true]

def addressOne : Address := ⟨ascii "1.1.1.1", by decide⟩
def addressTwo : Address := ⟨ascii "2.2.2.2", by decide⟩
def oneRecipient : EmailInfo := ⟨ascii "u", ascii "p", ascii "s", ascii "r", ascii "f"⟩

theorem new_address_never_masked_cached :
    ∃ w, run step (World.start IpTable.empty [oneRecipient])
        (cachedRowSchedule addressOne addressTwo) = some w
      ∧ w.ipInfo.rows.map (·.sendFlag) = [flagSent, flagUnsent]
      ∧ (∀ r ∈ w.ipInfo.rows, r.recId ∈ w.inserted →
        r.sendFlag = flagUnsent ∨ ∃ l ∈ w.loops, l.RanFor r.recId r.ip) := by
  have hsome : (run step (World.start IpTable.empty [oneRecipient])
      (cachedRowSchedule addressOne addressTwo)).isSome = true := by decide
  obtain ⟨w, hw⟩ := Option.isSome_iff_exists.mp hsome
  refine ⟨w, hw, ?_, (new_address_never_masked _ _ _ w hw).2.2⟩
  have hflags : (run step (World.start IpTable.empty [oneRecipient])
      (cachedRowSchedule addressOne addressTwo)).map (fun w => w.ipInfo.rows.map (·.sendFlag))
      = some [flagSent, flagUnsent] := by decide
  rw [hw] at hflags
  exact Option.some.inj hflags

end HomeKeeper.Notify
