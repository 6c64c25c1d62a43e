import HomeKeeper.Notify.WorkFunctions
import Mathlib.Data.List.Chain

/-!
# When `getIp` inserts a row

`getIp` inserts an address when it differs from `infos[0].ip`. The vector comes out of the
member cache of `tblIpInfo` and may begin with rows that failed calls left there; since the
cache is moved out before every insert, such a row still has the address of the newest row
(`Fresh.cached`).

What the comparison does not see is the cut of `insertToDb`: the row gets the first 99 bytes,
the next round compares them with the whole text. Up to 99 bytes consecutive rows differ
(`consecutive_addresses_differ`); `long_address_inserted_again` is a run with 100.
-/

namespace HomeKeeper.Notify

open CData StepSystem

/-- The addresses in the order of their rows. -/
def IpTable.ips (t : IpTable) : List Bytes := t.rows.map (·.ip)

/-- No two consecutive rows have the same address. -/
def Alternates (t : IpTable) : Prop := t.ips.IsChain (· ≠ ·)

instance (t : IpTable) : Decidable (Alternates t) :=
  inferInstanceAs (Decidable (t.ips.IsChain (· ≠ ·)))

/-- The address `curlUtil` returns fits `ip_insert`. -/
def Event.Fits : Event → Prop
  | .getIpPoll (.address a) _ => a.text.length ≤ 99
  | _ => True

/-! ## The table -/

@[simp] theorem IpTable.ips_sqlForInsert (t : IpTable) (ip : Bytes) (gap : Nat) :
    (t.sqlForInsert ip gap).ips = t.ips ++ [ip] := by
  simp [ips, sqlForInsert]

@[simp] theorem IpTable.ips_sqlForUpdate (t : IpTable) (recId : Nat) :
    (t.sqlForUpdate recId).ips = t.ips := by
  simp [ips, sqlForUpdate, Function.comp_def]

/-- The select reads the newest address. -/
theorem IpTable.ips_getLast? {t : IpTable} {r : IpRow} (hr : r ∈ t.sqlForSelect) :
    t.ips.getLast? = some r.ip := by
  rw [t.sqlForSelect_eq, Option.mem_toList] at hr
  rw [ips, List.getLast?_map, Option.mem_def.mp hr]
  rfl

/-- The table has a newest address only if the select returns a row. -/
theorem IpTable.sqlForSelect_ne_nil {t : IpTable} {ip : Bytes} (h : t.ips.getLast? = some ip) :
    t.sqlForSelect ≠ [] := by
  intro hnil
  rw [t.sqlForSelect_eq, Option.toList_eq_nil_iff, List.getLast?_eq_none_iff] at hnil
  rw [ips, hnil] at h
  cases h

/-- A text of an address that fits is stored as it is. -/
theorem insertText_of_fits {a : Address} (h : a.text.length ≤ 99) :
    TblIpInfo.insertText a.text = a.text := by
  apply snprintfS_eq_self ?_ h
  intro h0
  exact absurd (List.all_eq_true.mp a.chars 0 h0) (by decide)

/-! ## The invariant -/

/-- What `getIp` holds against the newest address of the table: cached rows carry it, and an
address about to be inserted is another one. -/
def GetIpPc.Agrees (t : IpTable) : GetIpPc → Prop
  | .initing => True
  | .polling ipInfo => ∀ info ∈ ipInfo.ipInfos, t.ips.getLast? = some info.ip
  | .inserting ipInfo resNew =>
    ipInfo.ipInfos = [] ∧ resNew.text.length ≤ 99
      ∧ ∀ ip ∈ t.ips.getLast?, ip ≠ resNew.text

theorem GetIpPc.agrees_of_ips_eq {t t' : IpTable} (h : t'.ips = t.ips) (pc : GetIpPc)
    (hpc : pc.Agrees t) : pc.Agrees t' := by
  cases pc with
  | initing => trivial
  | polling ipInfo => rw [Agrees, h]; exact hpc
  | inserting ipInfo resNew => rw [Agrees, h]; exact hpc

structure Fresh (w : World) : Prop where
  alternates : Alternates w.ipInfo
  cached : w.getIp.Agrees w.ipInfo

theorem fresh_start {table : IpTable} (h : Alternates table) (emailInfo : List EmailInfo) :
    Fresh (World.start table emailInfo) :=
  ⟨h, trivial⟩

/-- Everything `getRes` can hand out carries the newest address. -/
theorem handedOut_newest {t : TblIpInfo} {table : IpTable}
    (h : ∀ info ∈ t.ipInfos, table.ips.getLast? = some info.ip) :
    ∀ info ∈ t.handedOut table, table.ips.getLast? = some info.ip := by
  intro info hinfo
  rcases List.mem_append.mp hinfo with hinfo | hinfo
  · exact h info hinfo
  · obtain ⟨r, hr, rfl⟩ := List.mem_map.mp hinfo
    exact IpTable.ips_getLast? hr

/-- The test of `getIp` compares with the newest address. -/
theorem changed_newest {t : TblIpInfo} {table : IpTable} {text : Bytes}
    (h : ∀ info ∈ t.ipInfos, table.ips.getLast? = some info.ip)
    (hne : ∀ info more, t.handedOut table = info :: more → info.ip ≠ text) :
    ∀ ip ∈ table.ips.getLast?, ip ≠ text := by
  intro ip hip
  rw [Option.mem_def] at hip
  cases hinfos : t.handedOut table with
  | nil =>
    have hselect := List.map_eq_nil_iff.mp (List.append_eq_nil_iff.mp hinfos).2
    exact absurd hselect (IpTable.sqlForSelect_ne_nil hip)
  | cons info more =>
    have hnew := handedOut_newest h info (by rw [hinfos]; simp)
    rw [hip, Option.some.injEq] at hnew
    rw [hnew]
    exact hne info more hinfos

theorem fresh_step {w w' : World} {e : Event} (hw : Fresh w) (he : e.Fits)
    (h : step w e = some w') : Fresh w' := by
  obtain ⟨halt, hcached⟩ := hw
  cases moves_of_step h with
  | getIpInit ok hpc =>
    refine ⟨halt, ?_⟩
    simp only
    split
    · simp [GetIpPc.Agrees, TblIpInfo.empty]
    · trivial
  | @getIpFetchFailed o a t pre hpc hpre =>
    rw [hpc] at hcached
    refine ⟨halt, fun info hinfo => ?_⟩
    -- what a failed fetch keeps is a part of what a successful one would hand out
    refine handedOut_newest hcached info ?_
    rcases List.mem_append.mp hinfo with hinfo | hinfo
    · exact List.mem_append_left _ hinfo
    · exact List.mem_append_right _ ((hpre.map t.ofRow).subset hinfo)
  | getIpSame hpc hinfos heq => exact ⟨halt, by simp [GetIpPc.Agrees, TblIpInfo.emptied]⟩
  | getIpChanged hpc hne =>
    rw [hpc] at hcached
    exact ⟨halt, rfl, he, changed_newest hcached hne⟩
  | @getIpInserted gap a t hpc =>
    rw [hpc] at hcached
    obtain ⟨hempty, hfits, hnew⟩ := hcached
    refine ⟨?_, by simp [GetIpPc.Agrees, hempty]⟩
    simp only [Alternates, IpTable.ips_sqlForInsert, insertText_of_fits hfits]
    refine List.IsChain.append halt (by simp) ?_
    intro x hx y hy
    rw [List.head?_cons, Option.mem_some_iff] at hy
    rw [← hy]
    exact hnew x hx
  | getIpInsertFailed hpc =>
    rw [hpc] at hcached
    exact ⟨halt, by simp [GetIpPc.Agrees, hcached.1]⟩
  | @emailFlag execute commit em t info more mails hpc =>
    cases execute with
    | false => exact ⟨halt, hcached⟩
    | true =>
      have hips : (w.ipInfo.sqlForUpdate info.recId).ips = w.ipInfo.ips := by simp
      have halt' : Alternates (w.ipInfo.sqlForUpdate info.recId) := by
        rw [Alternates, hips]
        exact halt
      exact ⟨halt', w.getIp.agrees_of_ips_eq hips hcached⟩
  | _ => exact ⟨halt, hcached⟩

/-- **Consecutive rows hold different addresses**, as long as the addresses `curlUtil` returns
have at most 99 bytes: in every state of every run, whatever fails on the way. -/
theorem consecutive_addresses_differ (table : IpTable) (emailInfo : List EmailInfo)
    (es : List Event) (w : World) (htable : Alternates table)
    (hrun : run step (World.start table emailInfo) es = some w) (hes : ∀ e ∈ es, e.Fits) :
    Alternates w.ipInfo := by
  have hfresh : Fresh w := run_invariant_of_meets (fun _ _ _ hs he => fresh_step hs he)
    (fresh_start htable emailInfo) (meets_of_forall hes _) hrun
  exact hfresh.alternates

/-- An address, a fetch that fails behind the row, and the same address again. -/
def samePollSchedule (a : Address) : List Event :=
  [.getIpInit true, .getIpPoll (.address a) ⟨true, true, []⟩, .getIpInsert true 0,
   .getIpPoll (.address a) ⟨true, true, [.ok, .error]⟩,
   .getIpPoll (.address a) ⟨true, true, []⟩]

theorem consecutive_addresses_differ_short :
    ∃ w, run step (World.start IpTable.empty []) (samePollSchedule ⟨ascii "1.1.1.1", by decide⟩)
        = some w
      ∧ w.ipInfo.ips = [ascii "1.1.1.1"] ∧ Alternates w.ipInfo := by
  have hips : (run step (World.start IpTable.empty [])
      (samePollSchedule ⟨ascii "1.1.1.1", by decide⟩)).map (·.ipInfo.ips)
      = some [ascii "1.1.1.1"] := by decide
  obtain ⟨w, hw, hw'⟩ := Option.map_eq_some_iff.mp hips
  refine ⟨w, hw, hw', consecutive_addresses_differ _ _ _ w (by decide) hw ?_⟩
  intro e he
  simp only [samePollSchedule, List.mem_cons, List.not_mem_nil, or_false] at he
  rcases he with rfl | rfl | rfl | rfl | rfl <;> first | trivial | (show _ ≤ 99; decide)

/-- A hundred digits. -/
def longAddress : Address :=
  ⟨List.replicate 100 49, by decide⟩

/-- The row holds 99 of the 100 bytes, so the next round inserts the address again. -/
theorem long_address_inserted_again :
    ¬ ∀ (table : IpTable) (emailInfo : List EmailInfo) (es : List Event) (w : World),
      Alternates table → run step (World.start table emailInfo) es = some w →
      Alternates w.ipInfo := by
  intro h
  have htwice : (run step (World.start IpTable.empty [])
      (samePollSchedule longAddress ++ [.getIpInsert true 0])).map
      (fun w => decide (Alternates w.ipInfo)) = some false := by decide +kernel
  obtain ⟨w, hw, hfalse⟩ := Option.map_eq_some_iff.mp htwice
  exact of_decide_eq_false hfalse (h _ _ _ w (by decide) hw)

end HomeKeeper.Notify
