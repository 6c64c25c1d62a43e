import HomeKeeper.Lib.Run
import HomeKeeper.Notify.Database
import HomeKeeper.Notify.EmailSender

/-!
# `homeKeeper/workFunctions.hpp` — the `getIp` and `sendEmail` threads

The two threads share nothing but the database. Each is a state machine whose states are the
points between its calls out: a step is one call into MySQL or libcurl and the local work up to
the next one, so every interleaving of the SQL statements of the two threads is a run. What the
outside answers is in the event.

`World.loops` and `World.flagSets` are histories: the mail loops `sendEmail` has run to their
end, and the updates of `send_flag` that MySQL has executed. No function of the source reads
them.

`Moves` lists what a step can do, once; every invariant of the threads is proved by cases on it.
-/

namespace HomeKeeper.Notify

open CData StepSystem

/-! ## Inputs -/

/-- What `curlUtil` returns on success: the leading digits and dots of the answer. -/
structure Address where
  text : Bytes
  chars : (text.all fun c => isdigit c || c == 46) = true

/-- The result of `curlUtil ("icanhazip.com")`; `failed` is the text `"failed"`, which no address
is. -/
inductive CurlResult where
  | failed
  | address (a : Address)

/-! ## Mails -/

/-- The body of the mail about an address. -/
def mailBody (ip : Bytes) : Bytes := ip ++ ascii " url is " ++ ip ++ ascii ":19870"

/-- The `EmailSender` one round of the mail loop fills. -/
def mailTo (e : EmailInfo) (ip : Bytes) : EmailSender :=
  ((((((EmailSender.new.setSmtpServer e.userName e.passwd e.smtpServer).setSendName
    e.mailFrom).setSendMail e.mailFrom).addRecvMail e.recipient).setSubject
    (ascii "ip changed")).setBodyContent (mailBody ip))

/-- One call of `SendMail`: the recipient row it was made for, the mail, its rendered message,
and what came of it. -/
structure MailLog where
  recipient : EmailInfo
  mail : EmailSender
  message : Bytes
  result : SendResult
  deriving DecidableEq, Repr

/-- A mail loop that has run: the vector `getRes` gave the iteration and the mails it sent. -/
structure MailLoop where
  infos : List IpInfo
  mails : List MailLog
  deriving DecidableEq, Repr

/-- An update of `send_flag` that was executed: the row it names and the mail loop before it. -/
structure FlagSet where
  recId : Nat
  loop : MailLoop
  deriving DecidableEq, Repr

/-! ## States -/

inductive GetIpPc where
  | initing
  | polling (ipInfo : TblIpInfo)
  | inserting (ipInfo : TblIpInfo) (resNew : Address)

inductive SendEmailPc where
  | initing
  | polling (emailInfo : TblEmailInfo) (ipInfo : TblIpInfo)
  | reading (emailInfo : TblEmailInfo) (ipInfo : TblIpInfo) (info : IpInfo) (more : List IpInfo)
  | mailing (emailInfo : TblEmailInfo) (ipInfo : TblIpInfo) (info : IpInfo) (more : List IpInfo)
      (todo : List EmailInfo) (mails : List MailLog) (result : Bool)

structure World where
  ipInfo : IpTable
  emailInfo : List EmailInfo
  getIp : GetIpPc
  sendEmail : SendEmailPc
  inserted : List Nat
  loops : List MailLoop
  flagSets : List FlagSet

/-- The process has just started its threads. -/
def World.start (ipInfo : IpTable) (emailInfo : List EmailInfo) : World :=
  ⟨ipInfo, emailInfo, .initing, .initing, [], [], []⟩

/-! ## Steps -/

inductive Event where
  | getIpInit (ok : Bool)
  | getIpPoll (resNew : CurlResult) (o : TblIpInfo.SelectOutcome)
  | getIpInsert (execute : Bool) (gap : Nat)
  | emailInit (email ip : Bool)
  | emailPoll (o : TblIpInfo.SelectOutcome)
  | emailRead (fetches : List FetchOutcome)
  | emailMail (message : Bytes) (o : CurlOutcome)
  | emailFinish (execute commit : Bool)

/-- `tblIpInfo::updateToDb`: the connection is in autocommit mode, so an executed update stands
whatever `mysql_commit` returns. -/
def updateToDb (table : IpTable) (recId : Nat) (execute commit : Bool) : Ret × IpTable :=
  if !execute then (.failed, table)
  else (if commit then .success else .failed, table.sqlForUpdate recId)

def getIpStep (w : World) : Event → Option World
  | .getIpInit ok =>
    match w.getIp with
    | .initing => some { w with getIp := if ok then .polling .empty else .initing }
    | _ => none
  | .getIpPoll resNew o =>
    match w.getIp with
    | .polling t =>
      match resNew with
      | .failed => some w
      | .address a =>
        match t.getRes o w.ipInfo.sqlForSelect with
        | (none, t) => some { w with getIp := .polling t }
        -- `infos.empty () || infos[0].ip != resNew`
        | (some [], t) => some { w with getIp := .inserting t a }
        | (some (info :: _), t) =>
          some { w with getIp := if info.ip ≠ a.text then .inserting t a else .polling t }
    | _ => none
  | .getIpInsert execute gap =>
    match w.getIp with
    | .inserting t a =>
      let text := TblIpInfo.insertText a.text
      let t := { t with ipInsert := text }
      if execute then
        some { w with getIp := .polling t, ipInfo := w.ipInfo.sqlForInsert text gap,
                      inserted := w.inserted ++ [w.ipInfo.nextId + gap] }
      else some { w with getIp := .polling t }
    | _ => none
  | _ => none

def sendEmailStep (w : World) : Event → Option World
  | .emailInit email ip =>
    match w.sendEmail with
    | .initing =>
      some { w with
        sendEmail :=
          if email && ip then .polling (TblEmailInfo.init w.emailInfo) .empty else .initing }
    | _ => none
  | .emailPoll o =>
    match w.sendEmail with
    | .polling em t =>
      match t.getRes o w.ipInfo.sqlForSelect with
      | (none, t) => some { w with sendEmail := .polling em t }
      | (some [], t) => some { w with sendEmail := .polling em t }
      | (some (info :: more), t) =>
        some { w with
          sendEmail :=
            if info.sendFlag = ascii "0" then .reading em t info more else .polling em t }
    | _ => none
  | .emailRead fetches =>
    match w.sendEmail with
    | .reading em t info more =>
      let r := em.getRes fetches
      some { w with sendEmail := .mailing r.2 t info more r.1 [] true }
    | _ => none
  | .emailMail message o =>
    match w.sendEmail with
    | .mailing em t info more (e :: todo) mails result =>
      let r := sendMail message o
      -- `result = sendMail.SendMail () | result`
      some { w with
        sendEmail :=
          .mailing em t info more todo (mails ++ [⟨e, mailTo e info.ip, message, r⟩])
            (r.ret || result) }
    | _ => none
  | .emailFinish execute commit =>
    match w.sendEmail with
    | .mailing em t info more [] mails result =>
      let loop : MailLoop := ⟨info :: more, mails⟩
      let w := { w with loops := w.loops ++ [loop] }
      if result then
        some { w with
          sendEmail := .polling em t,
          ipInfo := (updateToDb w.ipInfo info.recId execute commit).2,
          flagSets := if execute then w.flagSets ++ [⟨info.recId, loop⟩] else w.flagSets }
      -- `break`: both objects are destroyed and made again
      else some { w with sendEmail := .initing }
    | _ => none
  | _ => none

/-- One step of either thread. -/
def step (w : World) (e : Event) : Option World :=
  match e with
  | .getIpInit _ | .getIpPoll _ _ | .getIpInsert _ _ => getIpStep w e
  | _ => sendEmailStep w e

/-! ## What a step can do -/

/-- The vector a successful `getRes` hands out: the member vector and the newest row. -/
def TblIpInfo.handedOut (t : TblIpInfo) (table : IpTable) : List IpInfo :=
  t.ipInfos ++ table.sqlForSelect.map t.ofRow

/-- The object after a fetch that failed behind the rows `pre`. -/
def TblIpInfo.keeping (t : TblIpInfo) (pre : List IpRow) : TblIpInfo :=
  { t with ipInfos := t.ipInfos ++ pre.map t.ofRow }

/-- The object after its vector was moved out. -/
def TblIpInfo.emptied (t : TblIpInfo) : TblIpInfo := { t with ipInfos := [] }

theorem TblIpInfo.getRes_table (t : TblIpInfo) (o : TblIpInfo.SelectOutcome) (table : IpTable) :
    (∃ pre, pre <+: table.sqlForSelect ∧ t.getRes o table.sqlForSelect = (none, t.keeping pre))
      ∨ t.getRes o table.sqlForSelect = (some (t.handedOut table), t.emptied) :=
  t.getRes_cases o table.sqlForSelect

/-- Every branch of the two loops, with the condition under which it is taken. -/
inductive Moves (w : World) : Event → World → Prop where
  | getIpInit (ok : Bool) (hpc : w.getIp = .initing) :
      Moves w (.getIpInit ok) { w with getIp := if ok then .polling .empty else .initing }
  | getIpCurlFailed {o} {t : TblIpInfo} (hpc : w.getIp = .polling t) :
      Moves w (.getIpPoll .failed o) w
  | getIpFetchFailed {o} {a : Address} {t : TblIpInfo} {pre : List IpRow}
      (hpc : w.getIp = .polling t) (hpre : pre <+: w.ipInfo.sqlForSelect) :
      Moves w (.getIpPoll (.address a) o) { w with getIp := .polling (t.keeping pre) }
  | getIpSame {o} {a : Address} {t : TblIpInfo} {info : IpInfo} {more : List IpInfo}
      (hpc : w.getIp = .polling t) (hinfos : t.handedOut w.ipInfo = info :: more)
      (heq : info.ip = a.text) :
      Moves w (.getIpPoll (.address a) o) { w with getIp := .polling t.emptied }
  | getIpChanged {o} {a : Address} {t : TblIpInfo} (hpc : w.getIp = .polling t)
      (hne : ∀ info more, t.handedOut w.ipInfo = info :: more → info.ip ≠ a.text) :
      Moves w (.getIpPoll (.address a) o) { w with getIp := .inserting t.emptied a }
  | getIpInserted {gap : Nat} {a : Address} {t : TblIpInfo} (hpc : w.getIp = .inserting t a) :
      Moves w (.getIpInsert true gap)
        { w with getIp := .polling { t with ipInsert := TblIpInfo.insertText a.text },
                 ipInfo := w.ipInfo.sqlForInsert (TblIpInfo.insertText a.text) gap,
                 inserted := w.inserted ++ [w.ipInfo.nextId + gap] }
  | getIpInsertFailed {gap : Nat} {a : Address} {t : TblIpInfo} (hpc : w.getIp = .inserting t a) :
      Moves w (.getIpInsert false gap)
        { w with getIp := .polling { t with ipInsert := TblIpInfo.insertText a.text } }
  | emailInit (email ip : Bool) (hpc : w.sendEmail = .initing) :
      Moves w (.emailInit email ip)
        { w with
          sendEmail :=
            if email && ip then .polling (TblEmailInfo.init w.emailInfo) .empty else .initing }
  | emailFetchFailed {o} {em : TblEmailInfo} {t : TblIpInfo} {pre : List IpRow}
      (hpc : w.sendEmail = .polling em t) (hpre : pre <+: w.ipInfo.sqlForSelect) :
      Moves w (.emailPoll o) { w with sendEmail := .polling em (t.keeping pre) }
  | emailNothing {o} {em : TblEmailInfo} {t : TblIpInfo} (hpc : w.sendEmail = .polling em t) :
      Moves w (.emailPoll o) { w with sendEmail := .polling em t.emptied }
  | emailTake {o} {em : TblEmailInfo} {t : TblIpInfo} {info : IpInfo} {more : List IpInfo}
      (hpc : w.sendEmail = .polling em t) (hinfos : t.handedOut w.ipInfo = info :: more)
      (hflag : info.sendFlag = ascii "0") :
      Moves w (.emailPoll o) { w with sendEmail := .reading em t.emptied info more }
  | emailRead {fetches} {em : TblEmailInfo} {t : TblIpInfo} {info : IpInfo} {more : List IpInfo}
      (hpc : w.sendEmail = .reading em t info more) :
      Moves w (.emailRead fetches)
        { w with
          sendEmail := .mailing (em.getRes fetches).2 t info more (em.getRes fetches).1 [] true }
  | emailMail {message o} {em : TblEmailInfo} {t : TblIpInfo} {info : IpInfo} {more : List IpInfo}
      {e : EmailInfo} {todo : List EmailInfo} {mails : List MailLog} {result : Bool}
      (hpc : w.sendEmail = .mailing em t info more (e :: todo) mails result) :
      Moves w (.emailMail message o)
        { w with
          sendEmail :=
            .mailing em t info more todo
              (mails ++ [⟨e, mailTo e info.ip, message, sendMail message o⟩])
              ((sendMail message o).ret || result) }
  | emailFlag {execute commit : Bool} {em : TblEmailInfo} {t : TblIpInfo} {info : IpInfo}
      {more : List IpInfo} {mails : List MailLog}
      (hpc : w.sendEmail = .mailing em t info more [] mails true) :
      Moves w (.emailFinish execute commit)
        { w with
          sendEmail := .polling em t,
          ipInfo := if execute then w.ipInfo.sqlForUpdate info.recId else w.ipInfo,
          loops := w.loops ++ [⟨info :: more, mails⟩],
          flagSets :=
            if execute then w.flagSets ++ [⟨info.recId, ⟨info :: more, mails⟩⟩] else w.flagSets }
  | emailBreak {execute commit : Bool} {em : TblEmailInfo} {t : TblIpInfo} {info : IpInfo}
      {more : List IpInfo} {mails : List MailLog}
      (hpc : w.sendEmail = .mailing em t info more [] mails false) :
      Moves w (.emailFinish execute commit)
        { w with sendEmail := .initing, loops := w.loops ++ [⟨info :: more, mails⟩] }

theorem updateToDb_table (table : IpTable) (recId : Nat) (execute commit : Bool) :
    (updateToDb table recId execute commit).2
      = if execute then table.sqlForUpdate recId else table := by
  unfold updateToDb
  cases execute <;> simp

theorem moves_of_getIpStep {w w' : World} {e : Event} (h : getIpStep w e = some w') :
    Moves w e w' := by
  cases e with
  | getIpInit ok =>
    cases hpc : w.getIp with
    | initing =>
      simp only [getIpStep, hpc, Option.some.injEq] at h
      subst h
      exact .getIpInit ok hpc
    | polling t => simp [getIpStep, hpc] at h
    | inserting t a => simp [getIpStep, hpc] at h
  | getIpPoll resNew o =>
    cases hpc : w.getIp with
    | initing => simp [getIpStep, hpc] at h
    | inserting t a => simp [getIpStep, hpc] at h
    | polling t =>
      cases resNew with
      | failed =>
        simp only [getIpStep, hpc, Option.some.injEq] at h
        subst h
        exact .getIpCurlFailed hpc
      | address a =>
        rcases t.getRes_table o w.ipInfo with ⟨pre, hpre, hres⟩ | hres
        · simp only [getIpStep, hpc, hres, Option.some.injEq] at h
          subst h
          exact .getIpFetchFailed hpc hpre
        · cases hinfos : t.handedOut w.ipInfo with
          | nil =>
            simp only [getIpStep, hpc, hres, hinfos, Option.some.injEq] at h
            subst h
            exact .getIpChanged hpc (by simp [hinfos])
          | cons info more =>
            simp only [getIpStep, hpc, hres, hinfos, Option.some.injEq] at h
            subst h
            by_cases heq : info.ip = a.text
            · rw [if_neg (by simpa using heq)]
              exact .getIpSame hpc hinfos heq
            · rw [if_pos heq]
              refine .getIpChanged hpc ?_
              intro info' more' h'
              rw [hinfos, List.cons.injEq] at h'
              exact h'.1 ▸ heq
  | getIpInsert execute gap =>
    cases hpc : w.getIp with
    | initing => simp [getIpStep, hpc] at h
    | polling t => simp [getIpStep, hpc] at h
    | inserting t a =>
      cases execute with
      | true =>
        simp only [getIpStep, hpc, if_true, Option.some.injEq] at h
        subst h
        exact .getIpInserted hpc
      | false =>
        simp only [getIpStep, hpc, Bool.false_eq_true, if_false, Option.some.injEq] at h
        subst h
        exact .getIpInsertFailed hpc
  | _ => simp [getIpStep] at h

theorem moves_of_sendEmailStep {w w' : World} {e : Event} (h : sendEmailStep w e = some w') :
    Moves w e w' := by
  cases e with
  | emailInit email ip =>
    cases hpc : w.sendEmail with
    | initing =>
      simp only [sendEmailStep, hpc, Option.some.injEq] at h
      subst h
      exact .emailInit email ip hpc
    | _ => simp [sendEmailStep, hpc] at h
  | emailPoll o =>
    cases hpc : w.sendEmail with
    | polling em t =>
      rcases t.getRes_table o w.ipInfo with ⟨pre, hpre, hres⟩ | hres
      · simp only [sendEmailStep, hpc, hres, Option.some.injEq] at h
        subst h
        exact .emailFetchFailed hpc hpre
      · cases hinfos : t.handedOut w.ipInfo with
        | nil =>
          simp only [sendEmailStep, hpc, hres, hinfos, Option.some.injEq] at h
          subst h
          exact .emailNothing hpc
        | cons info more =>
          simp only [sendEmailStep, hpc, hres, hinfos, Option.some.injEq] at h
          subst h
          by_cases hflag : info.sendFlag = ascii "0"
          · rw [if_pos hflag]
            exact .emailTake hpc hinfos hflag
          · rw [if_neg hflag]
            exact .emailNothing hpc
    | _ => simp [sendEmailStep, hpc] at h
  | emailRead fetches =>
    cases hpc : w.sendEmail with
    | reading em t info more =>
      simp only [sendEmailStep, hpc, Option.some.injEq] at h
      subst h
      exact .emailRead hpc
    | _ => simp [sendEmailStep, hpc] at h
  | emailMail message o =>
    cases hpc : w.sendEmail with
    | mailing em t info more todo mails result =>
      cases todo with
      | nil => simp [sendEmailStep, hpc] at h
      | cons e todo =>
        simp only [sendEmailStep, hpc, Option.some.injEq] at h
        subst h
        exact .emailMail hpc
    | _ => simp [sendEmailStep, hpc] at h
  | emailFinish execute commit =>
    cases hpc : w.sendEmail with
    | mailing em t info more todo mails result =>
      cases todo with
      | cons e todo => simp [sendEmailStep, hpc] at h
      | nil =>
        cases result with
        | true =>
          simp only [sendEmailStep, hpc, if_true, Option.some.injEq, updateToDb_table] at h
          subst h
          exact .emailFlag hpc
        | false =>
          simp only [sendEmailStep, hpc, Bool.false_eq_true, if_false, Option.some.injEq] at h
          subst h
          exact .emailBreak hpc
    | _ => simp [sendEmailStep, hpc] at h
  | _ => simp [sendEmailStep] at h

/-- **Inversion of a step.** -/
theorem moves_of_step {w w' : World} {e : Event} (h : step w e = some w') : Moves w e w' := by
  unfold step at h
  split at h
  · exact moves_of_getIpStep h
  · exact moves_of_getIpStep h
  · exact moves_of_getIpStep h
  · exact moves_of_sendEmailStep h

end HomeKeeper.Notify
