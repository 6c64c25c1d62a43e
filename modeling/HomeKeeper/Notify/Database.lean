import HomeKeeper.Lib.CData
import Mathlib.Data.List.Nodup

/-!
# The tables and the classes that read them

`include/tblIpInfo.hpp` and `include/tblEmailInfo.hpp`. A table is a list of rows; each SQL
statement of the source is one function on it. The classes keep the rows they fetch in a member
vector, and it is that vector, not the result set, that `getRes` hands out: a row pushed by a
call that fails later stays in it.

What MySQL answers is data of the call (`SelectOutcome`, `FetchOutcome`): `execute` and
`store_result` succeed or fail, and so does each fetch of the loop.
-/

namespace HomeKeeper.Notify

open CData

/-- `SUCCESS` and `FAILED` of `common.h`. -/
inductive Ret where
  | success
  | failed
  deriving DecidableEq, Repr

/-! ## The `ipInfo` table -/

/-- A row of `ipInfo`; `send_flag` is the character the column reads back as. -/
structure IpRow where
  recId : Nat
  ip : Bytes
  sendFlag : UInt8
  deriving DecidableEq, Repr

/-- The characters `0` and `1`. -/
def flagUnsent : UInt8 := 48
def flagSent : UInt8 := 49

/-- The table in insertion order. `rec_id` is `AUTO_INCREMENT`, so it grows from row to row. -/
structure IpTable where
  rows : List IpRow
  ascending : rows.Pairwise fun a b => a.recId < b.recId

namespace IpTable

def empty : IpTable := ⟨[], .nil⟩

/-- `select rec_id,ip,send_flag from ipInfo where rec_id=(select max(rec_id) from ipInfo) for
update`. -/
def sqlForSelect (t : IpTable) : List IpRow :=
  t.rows.filter fun r => t.rows.all fun q => q.recId ≤ r.recId

/-- The smallest `rec_id` the next insert can take. -/
def nextId (t : IpTable) : Nat := (t.rows.getLast?.map (·.recId + 1)).getD 1

theorem recId_lt_nextId (t : IpTable) {r : IpRow} (hr : r ∈ t.rows) : r.recId < t.nextId := by
  obtain ⟨rows, hasc⟩ := t
  unfold nextId
  rcases List.eq_nil_or_concat rows with rfl | ⟨pre, last, rfl⟩
  · simp at hr
  · simp only [List.concat_eq_append] at hasc hr ⊢
    rw [List.getLast?_concat]
    rw [List.pairwise_append] at hasc
    simp only [List.mem_append, List.mem_singleton] at hr
    rcases hr with hr | rfl
    · have := hasc.2.2 r hr last (by simp)
      simp only [Option.map_some, Option.getD_some]
      omega
    · simp

/-- `insert into ipInfo (ip,crt_ts,upd_ts,send_flag) values (?,now(),now(),0)`; `gap` counts the
ids lost to inserts that were rolled back. -/
def sqlForInsert (t : IpTable) (ip : Bytes) (gap : Nat) : IpTable where
  rows := t.rows ++ [⟨t.nextId + gap, ip, flagUnsent⟩]
  ascending := by
    rw [List.pairwise_append]
    refine ⟨t.ascending, List.pairwise_singleton _ _, ?_⟩
    intro a ha b hb
    rw [List.mem_singleton] at hb
    subst hb
    exact Nat.lt_add_right gap (t.recId_lt_nextId ha)

/-- The rows after `update ipInfo set send_flag=1,upd_ts=now() where rec_id=?`. -/
def setFlag (recId : Nat) (r : IpRow) : IpRow :=
  if r.recId = recId then { r with sendFlag := flagSent } else r

@[simp] theorem setFlag_recId (recId : Nat) (r : IpRow) : (setFlag recId r).recId = r.recId := by
  unfold setFlag; split <;> rfl

@[simp] theorem setFlag_ip (recId : Nat) (r : IpRow) : (setFlag recId r).ip = r.ip := by
  unfold setFlag; split <;> rfl

theorem setFlag_of_ne {recId : Nat} {r : IpRow} (h : r.recId ≠ recId) : setFlag recId r = r :=
  if_neg h

def sqlForUpdate (t : IpTable) (recId : Nat) : IpTable where
  rows := t.rows.map (setFlag recId)
  ascending := by
    rw [List.pairwise_map]
    exact t.ascending.imp (by simp)

/-- The select returns the row inserted last, or nothing from an empty table. -/
theorem sqlForSelect_eq (t : IpTable) : t.sqlForSelect = t.rows.getLast?.toList := by
  obtain ⟨rows, hasc⟩ := t
  unfold sqlForSelect
  rcases List.eq_nil_or_concat rows with rfl | ⟨pre, last, rfl⟩
  · rfl
  · simp only [List.concat_eq_append] at hasc ⊢
    rw [List.pairwise_append] at hasc
    have hpre : ∀ r ∈ pre, r.recId < last.recId := fun r hr => hasc.2.2 r hr last (by simp)
    have hnone : pre.filter (fun r => (pre ++ [last]).all fun q => q.recId ≤ r.recId) = [] := by
      rw [List.filter_eq_nil_iff]
      intro r hr hall
      have := List.all_eq_true.mp hall last (by simp)
      have := hpre r hr
      simp only [decide_eq_true_eq] at *
      omega
    have hlast : ((pre ++ [last]).all fun q => q.recId ≤ last.recId) = true := by
      rw [List.all_eq_true]
      intro q hq
      rw [List.mem_append, List.mem_singleton] at hq
      rcases hq with hq | rfl
      · simpa using Nat.le_of_lt (hpre q hq)
      · simp
    rw [List.filter_append, hnone, List.nil_append, List.filter_cons, if_pos hlast,
      List.getLast?_concat]
    rfl

theorem mem_of_mem_sqlForSelect {t : IpTable} {r : IpRow} (h : r ∈ t.sqlForSelect) :
    r ∈ t.rows :=
  (List.mem_filter.mp h).1

/-- A `rec_id` names one row. -/
theorem eq_of_recId_eq {t : IpTable} {a b : IpRow} (ha : a ∈ t.rows) (hb : b ∈ t.rows)
    (h : a.recId = b.recId) : a = b := by
  have hinj : (t.rows.map (·.recId)).Nodup := by
    rw [List.nodup_iff_pairwise_ne, List.pairwise_map]
    exact t.ascending.imp fun hlt => Nat.ne_of_lt hlt
  exact List.inj_on_of_nodup_map hinj ha hb h

end IpTable

/-! ## The fetch loop

Both classes drain a result set with the same loop: push while `mysql_stmt_fetch` returns 0,
`SUCCESS` on 100 (`MYSQL_NO_DATA`), `FAILED` on anything else. -/

/-- What one `mysql_stmt_fetch` does: what the result set has (a row, or 100 at its end), fail,
or fail with `MYSQL_DATA_TRUNCATED`, which has moved past the row. -/
inductive FetchOutcome where
  | ok
  | error
  | truncated
  deriving DecidableEq, Repr

/-- The state after a fetch loop: its return value, the member vector, the rows not fetched. -/
structure Fetched (α : Type*) where
  ret : Ret
  infos : List α
  rest : List α

/-- The loop; fetches past the end of the outcome list succeed. -/
def fetchLoop {α : Type*} : List FetchOutcome → List α → List α → Fetched α
  | .error :: _, rows, infos => ⟨.failed, infos, rows⟩
  | .truncated :: _, rows, infos => ⟨.failed, infos, rows.tail⟩
  -- the fetch returned 100
  | _, [], infos => ⟨.success, infos, []⟩
  | [], row :: rows, infos => fetchLoop [] rows (infos ++ [row])
  | .ok :: os, row :: rows, infos => fetchLoop os rows (infos ++ [row])

/-- Whatever happens, the loop appends a prefix of the result set to the member vector; when it
returns `SUCCESS` it is the whole result set. -/
theorem fetchLoop_spec {α : Type*} (os : List FetchOutcome) (rows infos : List α) :
    ∃ pre, pre <+: rows ∧ (fetchLoop os rows infos).infos = infos ++ pre
      ∧ ((fetchLoop os rows infos).ret = .success → pre = rows) := by
  fun_induction fetchLoop os rows infos with
  | case1 os rows infos => exact ⟨[], List.nil_prefix, by simp, by simp⟩
  | case2 os rows infos => exact ⟨[], List.nil_prefix, by simp, by simp⟩
  | case3 os infos => exact ⟨[], List.nil_prefix, by simp, by simp⟩
  | case4 row rows infos ih =>
    obtain ⟨pre, hpre, hinfos, hret⟩ := ih
    refine ⟨row :: pre, List.cons_prefix_cons.mpr ⟨rfl, hpre⟩, ?_, fun h => ?_⟩
    · rw [hinfos, List.append_assoc, List.singleton_append]
    · rw [hret h]
  | case5 os row rows infos ih =>
    obtain ⟨pre, hpre, hinfos, hret⟩ := ih
    refine ⟨row :: pre, List.cons_prefix_cons.mpr ⟨rfl, hpre⟩, ?_, fun h => ?_⟩
    · rw [hinfos, List.append_assoc, List.singleton_append]
    · rw [hret h]

/-- With no failing fetch the loop drains the result set. -/
theorem fetchLoop_ok {α : Type*} {os : List FetchOutcome} (hos : ∀ o ∈ os, o = .ok)
    (rows infos : List α) : fetchLoop os rows infos = ⟨.success, infos ++ rows, []⟩ := by
  fun_induction fetchLoop os rows infos with
  | case1 os rows infos => exact absurd (hos .error (by simp)) (by simp)
  | case2 os rows infos => exact absurd (hos .truncated (by simp)) (by simp)
  | case3 os infos => simp
  | case4 row rows infos ih => rw [ih hos, List.append_assoc, List.singleton_append]
  | case5 os row rows infos ih =>
    rw [ih (fun o ho => hos o (List.mem_cons_of_mem _ ho)), List.append_assoc,
      List.singleton_append]

/-! ## `tblIpInfo` -/

/-- `ipInfo_t`, as far as the code reads it. -/
structure IpInfo where
  recId : Nat
  ip : Bytes
  sendFlag : Bytes
  deriving DecidableEq, Repr

/-- A `tblIpInfo` object: the member vector and the insert buffer. -/
structure TblIpInfo where
  ipInfos : List IpInfo
  ipInsert : Bytes
  deriving DecidableEq, Repr

namespace TblIpInfo

/-- A freshly constructed object. -/
def empty : TblIpInfo := ⟨[], []⟩

/-- What the answers of one select are: `mysql_stmt_execute`, `mysql_stmt_store_result` and the
fetches. -/
structure SelectOutcome where
  execute : Bool
  storeResult : Bool
  fetches : List FetchOutcome
  deriving DecidableEq, Repr

/-- The `ipInfo_t` built from the bound buffers. `char send_flag[1]` has no room for a
terminator, so the string runs on into the member behind it, `ip_insert`. -/
def ofRow (t : TblIpInfo) (r : IpRow) : IpInfo :=
  ⟨r.recId, r.ip, cStr (r.sendFlag :: t.ipInsert)⟩

/-- `tblIpInfo::getResFromDb` over the rows the select returns. -/
def getResFromDb (t : TblIpInfo) (o : SelectOutcome) (rows : List IpRow) : Ret × TblIpInfo :=
  if !o.execute then (.failed, t)
  else if !o.storeResult then (.failed, t)
  else
    let f := fetchLoop o.fetches (rows.map t.ofRow) t.ipInfos
    (f.ret, { t with ipInfos := f.infos })

/-- `tblIpInfo::getRes`: on success the member vector is moved out. `none` is `FAILED`. -/
def getRes (t : TblIpInfo) (o : SelectOutcome) (rows : List IpRow) :
    Option (List IpInfo) × TblIpInfo :=
  let r := t.getResFromDb o rows
  match r.1 with
  -- the rows pushed before the failure stay in `ipInfos`
  | .failed => (none, r.2)
  | .success => (some r.2.ipInfos, { r.2 with ipInfos := [] })

/-- The text `insertToDb` binds: `ip_insert` is `char[100]`. -/
def insertText (ip : Bytes) : Bytes := snprintfS 100 ip

/-- What a call of `getRes` does: it fails and leaves in the object a prefix of the result set
behind what was there, or it succeeds and hands out what was there and the result set. -/
theorem getRes_cases (t : TblIpInfo) (o : SelectOutcome) (rows : List IpRow) :
    (∃ pre, pre <+: rows ∧
        t.getRes o rows = (none, { t with ipInfos := t.ipInfos ++ pre.map t.ofRow }))
      ∨ t.getRes o rows = (some (t.ipInfos ++ rows.map t.ofRow), { t with ipInfos := [] }) := by
  unfold getRes getResFromDb
  cases hexec : o.execute with
  | false => exact .inl ⟨[], List.nil_prefix, by simp⟩
  | true =>
    cases hstore : o.storeResult with
    | false => exact .inl ⟨[], List.nil_prefix, by simp⟩
    | true =>
      obtain ⟨pre, hpre, hinfos, hret⟩ := fetchLoop_spec o.fetches (rows.map t.ofRow) t.ipInfos
      cases hr : (fetchLoop o.fetches (rows.map t.ofRow) t.ipInfos).ret with
      | success => exact .inr (by simp [hr, hinfos, hret hr])
      | failed =>
        have hmap : pre = (rows.take pre.length).map t.ofRow := by
          rw [List.map_take]
          exact List.prefix_iff_eq_take.mp hpre
        refine .inl ⟨rows.take pre.length, List.take_prefix _ _, ?_⟩
        rw [← hmap]
        simp [hr, hinfos]

end TblIpInfo

/-! ## `tblEmailInfo` -/

/-- `emailInfo_t`, a row of the `emailInfo` table. -/
structure EmailInfo where
  userName : Bytes
  passwd : Bytes
  smtpServer : Bytes
  recipient : Bytes
  mailFrom : Bytes
  deriving DecidableEq, Repr

/-- A `tblEmailInfo` object: the member vector, which nothing empties, and the rows of the
result set that are still to be fetched. The select runs once, in `sqlBind`. -/
structure TblEmailInfo where
  emailInfos : List EmailInfo
  pending : List EmailInfo
  deriving DecidableEq, Repr

namespace TblEmailInfo

/-- The object after `init` succeeded on a table. -/
def init (table : List EmailInfo) : TblEmailInfo := ⟨[], table⟩

/-- `tblEmailInfo::getRes`: the return value of the fetch loop is logged and dropped, the member
vector is returned (copied) in any case. -/
def getRes (t : TblEmailInfo) (fetches : List FetchOutcome) : List EmailInfo × TblEmailInfo :=
  let f := fetchLoop fetches t.pending t.emailInfos
  (f.infos, ⟨f.infos, f.rest⟩)

theorem getRes_ok {fetches : List FetchOutcome} (h : ∀ o ∈ fetches, o = .ok) (t : TblEmailInfo) :
    t.getRes fetches = (t.emailInfos ++ t.pending, ⟨t.emailInfos ++ t.pending, []⟩) := by
  rw [getRes, fetchLoop_ok h]

end TblEmailInfo

end HomeKeeper.Notify
