import HomeKeeper.Notify.Database

/-!
# Rows that a failed select leaves behind

`tblIpInfo` and `downloadFile` collect rows in a member vector that only a successful `getRes`
empties. A call whose fetch loop breaks off after the first row leaves rows there, and the next call
that succeeds hands them out in front of its own.

`MemberVector` is what the two classes have in common: the vector alone, with the rows as they are
pushed. `served_fresh_iff` is proved about it, and both classes are shown to follow it.
-/

namespace HomeKeeper.Notify

open CData
open TblIpInfo (SelectOutcome)

/-! ## Calls -/

/-- What MySQL does in one call of `getRes`: the outcomes, and the rows of the result set. -/
structure SelectCall (α : Type*) where
  outcome : SelectOutcome
  rows : List α
  deriving DecidableEq, Repr

namespace SelectCall

variable {α β : Type*}

def map (f : α → β) (c : SelectCall α) : SelectCall β := ⟨c.outcome, c.rows.map f⟩

/-- How many fetches succeed before the first that does not. -/
def okFetches (c : SelectCall α) : Nat := (c.outcome.fetches.takeWhile (· = .ok)).length

/-- The fetch loop comes to a fetch that fails. -/
def BreaksOff (c : SelectCall α) : Prop :=
  c.okFetches < c.outcome.fetches.length ∧ c.okFetches ≤ c.rows.length

def Fails (c : SelectCall α) : Prop :=
  c.outcome.execute = false ∨ c.outcome.storeResult = false ∨ c.BreaksOff

/-- The call fails with a row in the vector. -/
def LeavesRows (c : SelectCall α) : Prop :=
  c.outcome.execute = true ∧ c.outcome.storeResult = true ∧ c.BreaksOff ∧ 0 < c.okFetches

theorem LeavesRows.fails {c : SelectCall α} (h : c.LeavesRows) : c.Fails := .inr (.inr h.2.2.1)

theorem map_fails (f : α → β) (c : SelectCall α) : (c.map f).Fails ↔ c.Fails := by
  show (_ ∨ _ ∨ _ ∧ c.okFetches ≤ (c.rows.map f).length) ↔ _
  rw [List.length_map]
  rfl

theorem map_leavesRows (f : α → β) (c : SelectCall α) :
    (c.map f).LeavesRows ↔ c.LeavesRows := by
  show (_ ∧ _ ∧ (_ ∧ c.okFetches ≤ (c.rows.map f).length) ∧ _) ↔ _
  rw [List.length_map]
  rfl

end SelectCall

/-! ## The member vector -/

namespace MemberVector

variable {α : Type*}

def getResFromDb (infos : List α) (c : SelectCall α) : Ret × List α :=
  if !c.outcome.execute then (.failed, infos)
  else if !c.outcome.storeResult then (.failed, infos)
  else
    let f := fetchLoop c.outcome.fetches c.rows infos
    (f.ret, f.infos)

def getRes (infos : List α) (c : SelectCall α) : Option (List α) × List α :=
  let r := getResFromDb infos c
  match r.1 with
  | .failed => (none, r.2)
  -- `res = std::move (infos)`
  | .success => (some r.2, [])

end MemberVector

/-- A history of calls on one object: each with what it returned. -/
def served {σ α β : Type*} (getRes : σ → SelectCall α → Option (List β) × σ) :
    σ → List (SelectCall α) → List (SelectCall α × Option (List β))
  | _, [] => []
  | s, c :: calls => (c, (getRes s c).1) :: served getRes (getRes s c).2 calls

/-! ## `downloadFile` -/

/-- `downloadFile_t`, as far as the code sets it. A row of the result set is given by the texts that
the buffers `fileName` and `path` hold after its fetch. -/
structure DownloadInfo where
  fileName : Bytes
  path : Bytes
  deriving DecidableEq, Repr

/-- A `downloadFile` object: its member vector. -/
structure DownloadFile where
  dlFiles : List DownloadInfo
  deriving DecidableEq, Repr

def DownloadFile.getResFromDb (d : DownloadFile) (c : SelectCall DownloadInfo) :
    Ret × DownloadFile :=
  let r := MemberVector.getResFromDb d.dlFiles c
  (r.1, ⟨r.2⟩)

def DownloadFile.getRes (d : DownloadFile) (c : SelectCall DownloadInfo) :
    Option (List DownloadInfo) × DownloadFile :=
  let r := d.getResFromDb c
  match r.1 with
  | .failed => (none, r.2)
  | .success => (some r.2.dlFiles, ⟨[]⟩)

/-! ## One call -/

/-- The loop breaks off at the first fetch that fails, if the result set lasts so long. -/
theorem fetchLoop_eq {α : Type*} (c : SelectCall α) (infos : List α) :
    (c.BreaksOff → (fetchLoop c.outcome.fetches c.rows infos).ret = .failed
        ∧ (fetchLoop c.outcome.fetches c.rows infos).infos = infos ++ c.rows.take c.okFetches)
      ∧ (¬ c.BreaksOff → (fetchLoop c.outcome.fetches c.rows infos).ret = .success
        ∧ (fetchLoop c.outcome.fetches c.rows infos).infos = infos ++ c.rows) := by
  obtain ⟨⟨execute, storeResult, os⟩, rows⟩ := c
  unfold SelectCall.BreaksOff SelectCall.okFetches
  simp only
  fun_induction fetchLoop os rows infos with
  | case1 os rows infos => simp
  | case2 os rows infos => simp
  | case3 os infos herror htruncated =>
    rcases os with _ | ⟨o, os⟩
    · simp
    · cases o with
      | ok => simp
      | error => exact absurd rfl (herror os)
      | truncated => exact absurd rfl (htruncated os)
  | case4 row rows infos ih => simpa using ih
  | case5 os row rows infos ih => simpa using ih

namespace MemberVector

variable {α : Type*}

/-- What a call leaves in the vector when it fails. -/
theorem getRes_of_fails {c : SelectCall α} (h : c.Fails) (infos : List α) :
    ∃ left, getRes infos c = (none, infos ++ left) ∧ (left = [] ↔ ¬ c.LeavesRows) := by
  unfold getRes getResFromDb
  cases hexec : c.outcome.execute with
  | false => exact ⟨[], by simp, by simp [SelectCall.LeavesRows, hexec]⟩
  | true =>
    cases hstore : c.outcome.storeResult with
    | false => exact ⟨[], by simp, by simp [SelectCall.LeavesRows, hstore]⟩
    | true =>
      have hbreak : c.BreaksOff := by
        rcases h with h | h | h
        · rw [hexec] at h
          cases h
        · rw [hstore] at h
          cases h
        · exact h
      obtain ⟨hret, hinfos⟩ := (fetchLoop_eq c infos).1 hbreak
      refine ⟨c.rows.take c.okFetches, by simp [hret, hinfos], ?_⟩
      have hrows := hbreak.2
      rw [List.take_eq_nil_iff]
      constructor
      · rintro hnil ⟨-, -, -, hpos⟩
        rcases hnil with hzero | hnil
        · omega
        · rw [hnil, List.length_nil] at hrows
          omega
      · intro hleaves
        left
        by_contra hne
        exact hleaves ⟨hexec, hstore, hbreak, Nat.pos_of_ne_zero hne⟩

theorem getRes_of_not_fails {c : SelectCall α} (h : ¬ c.Fails) (infos : List α) :
    getRes infos c = (some (infos ++ c.rows), []) := by
  unfold SelectCall.Fails at h
  rw [not_or, not_or, Bool.not_eq_false, Bool.not_eq_false] at h
  obtain ⟨hexec, hstore, hbreak⟩ := h
  obtain ⟨hret, hinfos⟩ := (fetchLoop_eq c infos).2 hbreak
  unfold getRes getResFromDb
  simp [hexec, hstore, hret, hinfos]

/-! ## Histories -/

/-- From any content of the vector: it is empty or nothing more is returned, and after a call that
leaves rows every call fails. -/
theorem served_fresh_iff (infos : List α) (calls : List (SelectCall α)) :
    (∀ p ∈ served getRes infos calls, ∀ res, p.2 = some res → res = p.1.rows)
      ↔ (infos = [] ∨ ∀ c ∈ calls, c.Fails)
        ∧ calls.Pairwise fun a b => a.LeavesRows → b.Fails := by
  induction calls generalizing infos with
  | nil => simp [served]
  | cons c calls ih =>
    rw [served, List.forall_mem_cons, List.forall_mem_cons, List.pairwise_cons, ih]
    by_cases hc : c.Fails
    · obtain ⟨left, hres, hleft⟩ := getRes_of_fails hc infos
      rw [hres, List.append_eq_nil_iff, hleft]
      constructor
      · rintro ⟨-, hvec, hcalls⟩
        refine ⟨?_, fun b hb hleaves => ?_, hcalls⟩
        · rcases hvec with hvec | hvec
          · exact .inl hvec.1
          · exact .inr ⟨hc, hvec⟩
        · rcases hvec with hvec | hvec
          · exact absurd hleaves hvec.2
          · exact hvec b hb
      · rintro ⟨hvec, hlater, hcalls⟩
        refine ⟨?_, ?_, hcalls⟩
        · rintro res ⟨⟩
        · by_cases hleaves : c.LeavesRows
          · exact .inr fun b hb => hlater b hb hleaves
          · rcases hvec with hvec | hvec
            · exact .inl ⟨hvec, hleaves⟩
            · exact .inr hvec.2
    · rw [getRes_of_not_fails hc]
      constructor
      · rintro ⟨hown, -, hcalls⟩
        have hnil : infos = [] := List.append_left_eq_self.mp (hown _ rfl)
        exact ⟨.inl hnil, fun b _ hleaves => absurd hleaves.fails hc, hcalls⟩
      · rintro ⟨hvec, -, hcalls⟩
        refine ⟨?_, .inl rfl, hcalls⟩
        rcases hvec with rfl | ⟨hfails, -⟩
        · rintro res ⟨⟩
          rfl
        · exact absurd hfails hc

end MemberVector

/-! ## The classes follow the vector -/

/-- `tblIpInfo::getRes`, with the answers of MySQL in one argument. -/
def TblIpInfo.call (t : TblIpInfo) (c : SelectCall IpRow) : Option (List IpInfo) × TblIpInfo :=
  t.getRes c.outcome c.rows

theorem TblIpInfo.call_eq (t : TblIpInfo) (c : SelectCall IpRow) :
    t.call c = ((MemberVector.getRes t.ipInfos (c.map t.ofRow)).1,
      { t with ipInfos := (MemberVector.getRes t.ipInfos (c.map t.ofRow)).2 }) := by
  show t.getRes c.outcome c.rows = _
  unfold TblIpInfo.getRes TblIpInfo.getResFromDb MemberVector.getRes MemberVector.getResFromDb
  cases hexec : c.outcome.execute with
  | false => simp [SelectCall.map, hexec]
  | true =>
    cases hstore : c.outcome.storeResult with
    | false => simp [SelectCall.map, hexec, hstore]
    | true =>
      cases hret : (fetchLoop c.outcome.fetches (c.rows.map t.ofRow) t.ipInfos).ret with
      | failed => simp [SelectCall.map, hexec, hstore, hret]
      | success => simp [SelectCall.map, hexec, hstore, hret]

theorem DownloadFile.getRes_eq (d : DownloadFile) (c : SelectCall DownloadInfo) :
    d.getRes c = ((MemberVector.getRes d.dlFiles c).1, ⟨(MemberVector.getRes d.dlFiles c).2⟩) := by
  unfold DownloadFile.getRes DownloadFile.getResFromDb MemberVector.getRes
  cases hret : (MemberVector.getResFromDb d.dlFiles c).1 with
  | failed => simp [hret]
  | success => simp [hret]

theorem TblIpInfo.served_call (t : TblIpInfo) (calls : List (SelectCall IpRow)) :
    (served TblIpInfo.call t calls).map (fun p => (p.1.map t.ofRow, p.2))
      = served MemberVector.getRes t.ipInfos (calls.map (SelectCall.map t.ofRow)) := by
  induction calls generalizing t with
  | nil => rfl
  | cons c calls ih =>
    have hrest := ih (t.call c).2
    rw [TblIpInfo.call_eq] at hrest
    rw [served, List.map_cons, List.map_cons, served, TblIpInfo.call_eq]
    exact congrArg (List.cons _) hrest

theorem DownloadFile.served_getRes (d : DownloadFile) (calls : List (SelectCall DownloadInfo)) :
    served DownloadFile.getRes d calls = served MemberVector.getRes d.dlFiles calls := by
  induction calls generalizing d with
  | nil => rfl
  | cons c calls ih =>
    rw [served, served, DownloadFile.getRes_eq]
    exact congrArg (List.cons _) (ih _)

/-! ## When the rows are those of the call -/

theorem TblIpInfo.served_fresh_iff (ipInsert : Bytes) (calls : List (SelectCall IpRow)) :
    (∀ p ∈ served TblIpInfo.call ⟨[], ipInsert⟩ calls, ∀ res,
        p.2 = some res → res = p.1.rows.map (TblIpInfo.ofRow ⟨[], ipInsert⟩))
      ↔ calls.Pairwise fun a b => a.LeavesRows → b.Fails := by
  have hvec := MemberVector.served_fresh_iff []
    (calls.map (SelectCall.map (TblIpInfo.ofRow ⟨[], ipInsert⟩)))
  rw [← TblIpInfo.served_call ⟨[], ipInsert⟩, List.forall_mem_map, List.pairwise_map] at hvec
  simp only [SelectCall.map_fails, SelectCall.map_leavesRows, true_or, true_and] at hvec
  exact hvec

/-- **When a select returns its own rows.** In a history of `getRes` calls on a new object, every
call that succeeds returns exactly the rows it has fetched, if and only if no successful call comes
after one that failed behind its first row. -/
theorem fresh_rows_iff (ipInsert : Bytes) (ipCalls : List (SelectCall IpRow))
    (dlCalls : List (SelectCall DownloadInfo)) :
    ((∀ p ∈ served TblIpInfo.call ⟨[], ipInsert⟩ ipCalls, ∀ res,
        p.2 = some res → res = p.1.rows.map (TblIpInfo.ofRow ⟨[], ipInsert⟩))
      ↔ ipCalls.Pairwise fun a b => a.LeavesRows → b.Fails)
    ∧ ((∀ p ∈ served DownloadFile.getRes ⟨[]⟩ dlCalls, ∀ res, p.2 = some res → res = p.1.rows)
      ↔ dlCalls.Pairwise fun a b => a.LeavesRows → b.Fails) := by
  refine ⟨TblIpInfo.served_fresh_iff ipInsert ipCalls, ?_⟩
  rw [DownloadFile.served_getRes, MemberVector.served_fresh_iff]
  simp

/-- A call that is broken off after its first row, and one that succeeds. -/
def brokenThenFine {α : Type*} (a b : α) : List (SelectCall α) :=
  [⟨⟨true, true, [.ok, .error]⟩, [a]⟩, ⟨⟨true, true, []⟩, [b]⟩]

/-- Neither class is safe: the second call returns the row of the first. -/
theorem broken_select_leaves_row :
    (¬ ∀ (ipInsert : Bytes) (calls : List (SelectCall IpRow)),
      ∀ p ∈ served TblIpInfo.call ⟨[], ipInsert⟩ calls, ∀ res,
        p.2 = some res → res = p.1.rows.map (TblIpInfo.ofRow ⟨[], ipInsert⟩))
    ∧ ¬ ∀ calls : List (SelectCall DownloadInfo),
      ∀ p ∈ served DownloadFile.getRes ⟨[]⟩ calls, ∀ res, p.2 = some res → res = p.1.rows := by
  constructor
  · intro h
    have hstale := h [] (brokenThenFine ⟨1, ascii "1.1.1.1", 48⟩ ⟨2, ascii "2.2.2.2", 48⟩)
      (⟨⟨true, true, []⟩, [⟨2, ascii "2.2.2.2", 48⟩]⟩,
        some [⟨1, ascii "1.1.1.1", ascii "0"⟩,
          ⟨2, ascii "2.2.2.2", ascii "0"⟩]) (by decide) _ rfl
    exact absurd hstale (by decide)
  · intro h
    have hstale := h (brokenThenFine ⟨ascii "a", []⟩ ⟨ascii "b", []⟩)
      (⟨⟨true, true, []⟩, [⟨ascii "b", []⟩]⟩,
        some [⟨ascii "a", []⟩, ⟨ascii "b", []⟩]) (by decide) _ rfl
    exact absurd hstale (by decide)

end HomeKeeper.Notify
