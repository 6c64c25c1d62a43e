import HomeKeeper.Raft.Log
import HomeKeeper.Lib.Run

/-!
# The log as a list

What the log is for, without its buffer: entries `items`, of which the first has the index
`base + 1`. The operations of `raft_log.c` are compared with the operations on such a list, one
square each, and then over whole runs: the replies are the same, whatever the callbacks answer
and whenever the buffer is doubled.

A reader sees the buffer in one place only. `log_get_from_idx` hands out a part of the array, so
it stops where the array ends: `getFromIdx_segment` says what it hands out, and
`getFromIdx_of_front_zero` that this is all there is as long as nothing was polled.
-/

namespace HomeKeeper.Raft

open Ring

/-- The log without its buffer. -/
@[ext]
structure AbsLog where
  base : Nat
  items : List Entry
  deriving DecidableEq, Repr

namespace AbsLog

variable {ρ : Type}

def currentIdx (a : AbsLog) : Nat := a.items.length + a.base

/-- The entry with the index `idx`. -/
def getAt (a : AbsLog) (idx : Nat) : Option Entry :=
  if idx ≤ a.base then none else a.items[idx - 1 - a.base]?

/-- `nomem` says that the memory for one more entry was wanted and not given. -/
def append (logOffer : Option (Entry → Nat → Int)) (raftOfferLog : ρ → Entry → Nat → Option ρ)
    (nomem : Bool) (ety : Entry) (a : AbsLog) (r : ρ) : Option (Int × AbsLog × ρ) :=
  if nomem then some (raftErrNomem, a, r)
  else
    match logOffer with
    | none => some (0, { a with items := a.items ++ [ety] }, r)
    | some offer =>
      if offer ety (a.currentIdx + 1) ≠ 0 then some (offer ety (a.currentIdx + 1), a, r)
      else
        (raftOfferLog r ety (a.currentIdx + 1)).map fun r =>
          (0, { a with items := a.items ++ [ety] }, r)

/-- Takes entries away, the youngest first, until `keep` are left or one is refused. The entries
are given youngest first. -/
def popBack (logPop : Option (Entry → Nat → Int)) (raftPopLog : ρ → Entry → Nat → Option ρ)
    (base keep : Nat) : List Entry → ρ → Option (Int × List Entry × ρ)
  | [], r => some (0, [], r)
  | ety :: older, r =>
    if older.length < keep then some (0, ety :: older, r)
    else
      let e := answer logPop ety (base + (older.length + 1))
      if e ≠ 0 then some (e, ety :: older, r)
      else
        (raftPopLog r ety (base + (older.length + 1))).bind fun r =>
          popBack logPop raftPopLog base keep older r

def delete (logPop : Option (Entry → Nat → Int)) (raftPopLog : ρ → Entry → Nat → Option ρ)
    (idx : Nat) (a : AbsLog) (r : ρ) : Option (Int × AbsLog × ρ) :=
  if idx = 0 then some (-1, a, r)
  else
    (popBack logPop raftPopLog a.base (idx - 1 - a.base) a.items.reverse r).map fun x =>
      (x.1, { a with items := x.2.1.reverse }, x.2.2)

def poll (logPoll : Option (Entry → Nat → Int)) (a : AbsLog) : Int × Option Entry × AbsLog :=
  match a.items with
  | [] => (-1, none, a)
  | ety :: younger =>
    let e := answer logPoll ety (a.base + 1)
    if e ≠ 0 then (e, none, a) else (0, some ety, ⟨a.base + 1, younger⟩)

end AbsLog

namespace Log

variable {ρ : Type}

/-- The entries of the log, the oldest first. -/
def toList (l : Log) : List Entry := window l.entries l.front l.count

def abs (l : Log) : AbsLog := ⟨l.base, l.toList⟩

@[simp] theorem length_toList (l : Log) : l.toList.length = l.count := length_window ..

@[simp] theorem abs_base (l : Log) : l.abs.base = l.base := rfl

@[simp] theorem abs_items (l : Log) : l.abs.items = l.toList := rfl

theorem abs_currentIdx (l : Log) : l.abs.currentIdx = l.currentIdx := by
  rw [AbsLog.currentIdx, abs_items, length_toList]
  rfl

/-! ## Reading -/

theorem abs_getAt (l : Log) (idx : Nat) :
    l.abs.getAt idx = if idx ≤ l.base then none else l.toList[idx - 1 - l.base]? := rfl

theorem getAtIdx_eq (l : Log) (idx : Nat) : l.getAtIdx idx = l.abs.getAt idx := by
  rw [abs_getAt]
  unfold getAtIdx
  by_cases hbase : idx ≤ l.base
  · rw [if_pos hbase]
    split
    · rfl
    · rw [if_pos (Or.inr hbase)]
  · rw [if_neg hbase, if_neg (show idx ≠ 0 by omega)]
    by_cases hend : l.base + l.count < idx
    · rw [if_pos (Or.inl hend), List.getElem?_eq_none (by rw [length_toList]; omega)]
    · rw [if_neg (by omega), toList,
        getElem?_window _ _ (by omega : idx - 1 - l.base < l.count), cell, size]
      congr 4
      omega

theorem peektail_eq (l : Log) : l.peektail = l.toList.getLast? := by
  unfold peektail
  by_cases hcount : l.count = 0
  · rw [if_pos hcount, toList, hcount, window_zero]
    rfl
  · obtain ⟨n, hn⟩ := Nat.exists_eq_succ_of_ne_zero hcount
    have hback := l.backBefore_eq hcount
    have hlast : l.toList.getLast? = some (l.entries.getD l.backBefore default) := by
      rw [toList, hn, window_succ, List.getLast?_append, List.getLast?_singleton, Option.some_or,
        cell, hback, hn, Nat.succ_sub_one]
    rw [if_neg hcount, hlast, backBefore]
    split <;> rfl

/-- The part of the log `log_get_from_idx` hands out: from the entry `idx` on, without a gap, at
least one entry and at most all that are left. -/
theorem getFromIdx_segment (l : Log) {idx : Nat} (hbase : l.base < idx)
    (hend : idx ≤ l.currentIdx) :
    ∃ n, 0 < n ∧ n ≤ l.currentIdx - (idx - 1) ∧
      l.getFromIdx idx = some ((l.toList.drop (idx - 1 - l.base)).take n) := by
  have hfront := l.front_lt
  have hle := l.count_le
  have hback := l.back_eq
  unfold currentIdx at hend ⊢
  obtain ⟨k, hk⟩ : ∃ k, idx = l.base + k + 1 := ⟨idx - 1 - l.base, by omega⟩
  obtain ⟨rest, hrest⟩ : ∃ rest, l.count = k + rest := ⟨l.count - k, by omega⟩
  -- the cell of the entry, and how far the array goes on from it
  have hi : (l.front + (idx - 1) - l.base) % l.size = (l.front + k) % l.entries.length := by
    rw [size, hk]
    congr 1
    omega
  have hstop : ∀ n, n ≤ rest → (l.front + k) % l.entries.length + n ≤ l.entries.length →
      (l.entries.drop ((l.front + k) % l.entries.length)).take n
        = (l.toList.drop (idx - 1 - l.base)).take n := by
    intro n hn hfit
    rw [take_drop_eq_window hfit, toList, hrest, show idx - 1 - l.base = k by omega, drop_window,
      take_window _ _ hn, window_mod]
  have hwrap := mod_eq_ite (show l.front + k < 2 * l.entries.length by omega)
  have hwrapBack := mod_eq_ite (show l.front + l.count < 2 * l.entries.length by omega)
  rw [← hback] at hwrapBack
  have hget : l.getFromIdx idx
      = some ((l.entries.drop ((l.front + k) % l.entries.length)).take
          (if (l.front + k) % l.entries.length < l.back
            then l.back - (l.front + k) % l.entries.length
            else l.entries.length - (l.front + k) % l.entries.length)) := by
    rw [getFromIdx, if_neg (by omega), if_neg (by omega)]
    simp only [hi]
    rfl
  by_cases hlt : (l.front + k) % l.entries.length < l.back
  · refine ⟨l.back - (l.front + k) % l.entries.length, by omega, ?_, ?_⟩
    · split at hwrap <;> split at hwrapBack <;> omega
    · rw [hget, if_pos hlt, hstop]
      · split at hwrap <;> split at hwrapBack <;> omega
      · split at hwrapBack <;> omega
  · have hlt' : (l.front + k) % l.entries.length < l.entries.length := Nat.mod_lt _ l.size_pos
    refine ⟨l.entries.length - (l.front + k) % l.entries.length, by omega, ?_, ?_⟩
    · split at hwrap <;> split at hwrapBack <;> omega
    · rw [hget, if_neg hlt, hstop]
      · split at hwrap <;> split at hwrapBack <;> omega
      · omega

/-- As long as nothing was polled, the entries lie from the beginning of the array on and all
that are left are handed out. -/
theorem getFromIdx_of_front_zero (l : Log) (hfront : l.front = 0) {idx : Nat}
    (hbase : l.base < idx) :
    l.getFromIdx idx = some (l.toList.drop (idx - 1 - l.base)) := by
  have hle := l.count_le
  have hback := l.back_eq
  unfold getFromIdx size
  rw [if_neg (by omega)]
  by_cases hend : l.base + l.count < idx
  · rw [if_pos (Or.inl hend), List.drop_eq_nil_of_le (by rw [length_toList]; omega)]
  · rw [if_neg (by omega)]
    obtain ⟨k, hk⟩ : ∃ k, idx = l.base + k + 1 := ⟨idx - 1 - l.base, by omega⟩
    obtain ⟨rest, hrest⟩ : ∃ rest, l.count = k + rest := ⟨l.count - k, by omega⟩
    have hi : (l.front + (idx - 1) - l.base) % l.entries.length = k := by
      rw [Nat.mod_eq_of_lt (by omega)]
      omega
    -- a full array has its end at the beginning, and the loop goes to the last cell
    have hstop : (if k < l.back then l.back - k else l.entries.length - k) = rest := by
      rw [hfront, Nat.zero_add] at hback
      by_cases hfull : l.count = l.entries.length
      · rw [hfull, Nat.mod_self] at hback
        rw [if_neg (by omega)]
        omega
      · rw [Nat.mod_eq_of_lt (by omega)] at hback
        rw [if_pos (by omega)]
        omega
    simp only [hi, hstop]
    rw [take_drop_eq_window (by omega), toList, hrest, show idx - 1 - l.base = k by omega,
      drop_window, hfront, Nat.zero_add]

/-- `log_clear_entries` makes one call more than there are entries, and each with the index before
that of its entry. The last is about the cell behind the entries: where the array is full, about
the first entry again. -/
theorem clearEntries_eq (l : Log) (hcount : l.count ≠ 0) :
    ∃ ety, l.clearEntries true = l.toList.zipIdx l.base ++ [(ety, l.currentIdx)] ∧
      (l.count = l.size → l.toList.head? = some ety) := by
  have hcell : ∀ k, l.entries.getD ((l.front + (l.base + k) - l.base) % l.size) default
      = cell l.entries (l.front + k) := by
    intro k
    rw [cell, size, show l.front + (l.base + k) - l.base = l.front + k by omega]
  refine ⟨cell l.entries (l.front + l.count), ?_, fun hfull => ?_⟩
  · have hentries : (List.range l.count).map (fun k => (cell l.entries (l.front + k), l.base + k))
        = l.toList.zipIdx l.base := by
      apply List.ext_getElem?
      intro k
      rw [List.getElem?_map, List.getElem?_zipIdx]
      by_cases hk : k < l.count
      · rw [List.getElem?_range hk, toList, getElem?_window _ _ hk]
        rfl
      · rw [List.getElem?_eq_none (by rw [List.length_range]; omega),
          List.getElem?_eq_none (by rw [length_toList]; omega)]
        rfl
    rw [clearEntries, if_neg (by simp [hcount])]
    simp only [hcell]
    rw [List.range_succ, List.map_append, hentries, currentIdx, Nat.add_comm l.count]
    rfl
  · obtain ⟨n, hn⟩ := Nat.exists_eq_succ_of_ne_zero hcount
    have hround : cell l.entries (l.front + l.count) = cell l.entries l.front := by
      rw [cell, cell, hfull, size, Nat.add_mod_right]
    rw [hround, toList, hn, window_cons, List.head?_cons]

/-! ## Writing -/

theorem copyFrom_eq_window (entries : List Entry) (hpos : 0 < entries.length) (n j : Nat)
    (hj : j ≤ entries.length) : copyFrom entries n j = window entries j n := by
  induction n generalizing j with
  | zero => rfl
  | succ n ih =>
    rw [copyFrom, window_cons]
    by_cases hend : j = entries.length
    · rw [if_pos hend, ih _ (by omega), ← cell_of_lt hpos, ← cell_mod entries j, hend,
        Nat.mod_self, ← window_mod entries (entries.length + 1), Nat.add_mod_left, window_mod]
    · rw [if_neg hend, ih _ (by omega), ← cell_of_lt (show j < entries.length by omega)]

/-- Doubling moves the entries and changes none. -/
theorem toList_doubled (l : Log) : l.doubled.toList = l.toList := by
  have hcopy := copyFrom_eq_window l.entries l.size_pos l.count l.front (Nat.le_of_lt l.front_lt)
  show window (copyFrom l.entries l.count l.front ++ _) 0 l.count = l.toList
  rw [← take_drop_eq_window, List.drop_zero, List.take_left' (length_copyFrom ..), hcopy]
  · rfl
  · rw [List.length_append, length_copyFrom]
    omega

theorem abs_ensureCapacity (calloc : Bool) (l : Log) : (l.ensureCapacity calloc).2.abs = l.abs := by
  unfold ensureCapacity
  split
  · rfl
  · split
    · rfl
    · exact AbsLog.ext rfl (toList_doubled l)

theorem toList_store {l : Log} (h : l.count < l.size) (ety : Entry) :
    (l.store ety).toList = l.toList := by
  show window (l.entries.set l.back ety) l.front l.count = _
  rw [l.back_eq, window_set_free h]
  rfl

theorem toList_push_store {l : Log} (h : l.count < l.size) (ety : Entry)
    (h' : (l.store ety).count < (l.store ety).size) :
    ((l.store ety).push h').toList = l.toList ++ [ety] := by
  show window (l.entries.set l.back ety) l.front (l.count + 1) = _
  rw [l.back_eq, window_set h]
  rfl

/-- The buffer is full and there is no memory for a larger one. -/
def nomem (l : Log) (calloc : Bool) : Bool := !(decide (l.count < l.size)) && !calloc

theorem nomem_eq (l : Log) (calloc : Bool) :
    l.nomem calloc = decide ((l.ensureCapacity calloc).1 ≠ 0) := by
  unfold nomem ensureCapacity
  by_cases hlt : l.count < l.size
  · simp [hlt]
  · cases calloc <;> simp [hlt, raftErrNomem]

/-- What the caller sees of a call: the result, the log as a list, and the server. -/
def seen (x : Int × Log × ρ) : Int × AbsLog × ρ := (x.1, x.2.1.abs, x.2.2)

theorem seen_appendEntry (logOffer : Option (Entry → Nat → Int))
    (raftOfferLog : ρ → Entry → Nat → Option ρ) (calloc : Bool) (ety : Entry) (l : Log) (r : ρ) :
    (l.appendEntry logOffer raftOfferLog calloc ety r).map seen
      = l.abs.append logOffer raftOfferLog (l.nomem calloc) ety r := by
  have habs := abs_ensureCapacity calloc l
  have hidx : l.base + l.count + 1 = l.abs.currentIdx + 1 := by
    rw [abs_currentIdx, currentIdx, Nat.add_comm l.base]
  unfold appendEntry AbsLog.append
  rw [nomem_eq]
  by_cases hcap : (l.ensureCapacity calloc).1 = 0
  · have hroom := count_lt_of_ensureCapacity hcap
    -- the cell written is behind the entries, so nothing is seen of it before the push
    have hstored : ((l.ensureCapacity calloc).2.store ety).abs = l.abs := by
      rw [← habs]
      exact AbsLog.ext rfl (toList_store hroom ety)
    have hpushed : ∀ h', (((l.ensureCapacity calloc).2.store ety).push h').abs
        = { l.abs with items := l.abs.items ++ [ety] } := by
      intro h'
      refine AbsLog.ext (congrArg (fun a => a.base) habs) ?_
      have hitems := congrArg AbsLog.items habs
      show (((l.ensureCapacity calloc).2.store ety).push h').toList = l.toList ++ [ety]
      rw [toList_push_store hroom]
      exact congrArg (· ++ [ety]) hitems
    rw [dif_pos hcap, if_neg (by simp [hcap])]
    simp only [hidx]
    cases logOffer with
    | none => simp only [Option.map_some, seen, hpushed]
    | some offer =>
      by_cases hoffer : offer ety (l.abs.currentIdx + 1) = 0
      · simp only [hoffer, ne_eq, not_true_eq_false, if_false, Option.map_map]
        refine congrArg (Option.map · _) ?_
        funext r'
        simp only [Function.comp, seen, hpushed]
      · simp only [hoffer, ne_eq, not_false_eq_true, if_true, Option.map_some, seen, hstored]
  · have hnomem : (l.ensureCapacity calloc).1 = raftErrNomem := by
      unfold ensureCapacity at hcap ⊢
      split
      · next h => rw [if_pos h] at hcap; exact absurd rfl hcap
      · next h =>
        rw [if_neg h] at hcap
        split
        · rfl
        · next hc => rw [if_neg hc] at hcap; exact absurd rfl hcap
    rw [dif_neg hcap, if_pos (decide_eq_true hcap), Option.map_some, seen, hnomem, habs]

/-! ### Deleting -/

theorem toList_eq_snoc (l : Log) (h : l.count ≠ 0) :
    l.toList = (l.pop h).toList ++ [l.entries.getD l.backBefore default] := by
  obtain ⟨n, hn⟩ := Nat.exists_eq_succ_of_ne_zero h
  show window l.entries l.front l.count = window l.entries l.front (l.count - 1) ++ _
  rw [l.backBefore_eq h, hn, window_succ, Nat.succ_sub_one, cell]

theorem seen_deleteLoop (logPop : Option (Entry → Nat → Int))
    (raftPopLog : ρ → Entry → Nat → Option ρ) (idx : Nat) (n : Nat) (l : Log)
    (hn : l.count ≤ n) (r : ρ) :
    (deleteLoop logPop raftPopLog idx n l r).map seen
      = (AbsLog.popBack logPop raftPopLog l.base (idx - 1 - l.base) l.toList.reverse r).map
          fun x => (x.1, ⟨l.base, x.2.1.reverse⟩, x.2.2) := by
  induction n generalizing l r with
  | zero =>
    have hnil : l.toList = [] := List.eq_nil_of_length_eq_zero (by rw [length_toList]; omega)
    rw [deleteLoop, hnil]
    show some (0, l.abs, r) = some (0, ⟨l.base, []⟩, r)
    rw [← hnil]
    rfl
  | succ n ih =>
    rw [deleteLoop]
    by_cases hcount : l.count = 0
    · have hnil : l.toList = [] := List.eq_nil_of_length_eq_zero (by rw [length_toList]; omega)
      rw [dif_neg (fun h => h.2 hcount), hnil]
      show some (0, l.abs, r) = some (0, ⟨l.base, []⟩, r)
      rw [← hnil]
      rfl
    · have hlen : (l.pop hcount).toList.reverse.length + 1 = l.count := by
        rw [List.length_reverse, length_toList]
        show l.count - 1 + 1 = l.count
        omega
      have hsnoc := l.toList_eq_snoc hcount
      have hrev : l.toList.reverse
          = l.entries.getD l.backBefore default :: (l.pop hcount).toList.reverse := by
        rw [hsnoc, List.reverse_append]
        rfl
      rw [hrev, AbsLog.popBack, hlen]
      -- an entry that stays, be it that `idx` is reached or that the callback refuses
      have hsame : ∀ e : Int, some (seen (e, l, r))
          = (some (e, l.entries.getD l.backBefore default :: (l.pop hcount).toList.reverse, r)).map
            fun x => (x.1, (⟨l.base, x.2.1.reverse⟩ : AbsLog), x.2.2) := by
        intro e
        rw [Option.map_some, List.reverse_cons, List.reverse_reverse, ← hsnoc]
        rfl
      by_cases hle : idx ≤ l.base + l.count
      · rw [dif_pos ⟨hle, hcount⟩,
          if_neg (show ¬(l.pop hcount).toList.reverse.length < idx - 1 - l.base by omega)]
        by_cases he : answer logPop (l.entries.getD l.backBefore default) (l.base + l.count) = 0
        · simp only [he, ne_eq, not_true_eq_false, if_false, Option.map_bind]
          congr 1
          funext r'
          exact ih (l.pop hcount) (by show l.count - 1 ≤ n; omega) r'
        · simp only [he, ne_eq, not_false_eq_true, if_true]
          exact hsame _
      · rw [dif_neg (fun h => hle h.1), if_pos (by omega)]
        exact hsame 0

theorem seen_delete (logPop : Option (Entry → Nat → Int))
    (raftPopLog : ρ → Entry → Nat → Option ρ) (idx : Nat) (l : Log) (r : ρ) :
    (l.delete logPop raftPopLog idx r).map seen = l.abs.delete logPop raftPopLog idx r := by
  unfold delete AbsLog.delete
  by_cases hidx : idx = 0
  · rw [if_pos hidx, if_pos hidx]
    rfl
  · rw [if_neg hidx, if_neg hidx]
    -- an index below the base deletes as the base does
    have hlow : (if idx < l.base then l.base else idx) - 1 - l.base = idx - 1 - l.base := by
      split <;> omega
    rw [seen_deleteLoop _ _ _ _ _ (Nat.le_refl _), hlow]
    rfl

theorem seen_poll (logPoll : Option (Entry → Nat → Int)) (l : Log) :
    (fun x : Int × Option Entry × Log => (x.1, x.2.1, x.2.2.abs)) (l.poll logPoll)
      = l.abs.poll logPoll := by
  unfold poll AbsLog.poll
  by_cases hcount : l.count = 0
  · have hnil : l.abs.items = [] := List.eq_nil_of_length_eq_zero (by rw [abs_items]; simp [hcount])
    rw [dif_pos hcount, hnil]
  · obtain ⟨n, hn⟩ := Nat.exists_eq_succ_of_ne_zero hcount
    have hcons : l.abs.items
        = l.entries.getD l.front default :: window l.entries (l.front + 1) n := by
      rw [abs_items, toList, hn, window_cons, cell_of_lt l.front_lt]
    rw [dif_neg hcount, hcons]
    by_cases he : answer logPoll (l.entries.getD l.front default) (l.base + 1) = 0
    · simp only [he, abs_base, ne_eq, not_true_eq_false, if_false]
      refine congrArg (fun a => (0, some (l.entries.getD l.front default), a)) ?_
      refine AbsLog.ext rfl ?_
      show window l.entries ((l.front + 1) % l.entries.length) (l.count - 1) = _
      rw [window_mod, hn, Nat.succ_sub_one]
    · simp only [he, abs_base, ne_eq, not_false_eq_true, if_true]

end Log

/-! ## What a call leaves behind -/

namespace AbsLog

variable {ρ : Type}

/-- Deleting stops early only at an entry `log_pop` refused, and that entry stays. -/
theorem popBack_spec {logPop : Option (Entry → Nat → Int)}
    {raftPopLog : ρ → Entry → Nat → Option ρ} {base keep : Nat} {rev rev' : List Entry} {r r' : ρ}
    {e : Int} (h : popBack logPop raftPopLog base keep rev r = some (e, rev', r')) :
    rev' <:+ rev ∧ min keep rev.length ≤ rev'.length
      ∧ (e = 0 → rev'.length = min keep rev.length)
      ∧ (e ≠ 0 → ∃ ety older, rev' = ety :: older ∧ keep ≤ older.length
          ∧ answer logPop ety (base + (older.length + 1)) = e) := by
  induction rev generalizing r with
  | nil =>
    rw [popBack, Option.some.injEq, Prod.mk.injEq, Prod.mk.injEq] at h
    obtain ⟨rfl, rfl, rfl⟩ := h
    exact ⟨List.suffix_rfl, by simp, fun _ => by simp, fun he => absurd rfl he⟩
  | cons ety older ih =>
    rw [popBack] at h
    by_cases hkeep : older.length < keep
    · rw [if_pos hkeep, Option.some.injEq, Prod.mk.injEq, Prod.mk.injEq] at h
      obtain ⟨rfl, rfl, rfl⟩ := h
      refine ⟨List.suffix_rfl, Nat.min_le_right .., fun _ => ?_, fun he => absurd rfl he⟩
      rw [List.length_cons, Nat.min_eq_right (by omega)]
    · rw [if_neg hkeep] at h
      by_cases he : answer logPop ety (base + (older.length + 1)) = 0
      · simp only [he, ne_eq, not_true_eq_false, if_false] at h
        have hlen : min keep (ety :: older).length = min keep older.length := by
          rw [List.length_cons]
          omega
        rw [hlen]
        obtain ⟨r₁, -, hrest⟩ := Option.bind_eq_some_iff.mp h
        obtain ⟨hsuffix, hmin, hzero, hrefused⟩ := ih hrest
        exact ⟨hsuffix.trans (List.suffix_cons ..), hmin, hzero, hrefused⟩
      · simp only [he, ne_eq, not_false_eq_true, if_true, Option.some.injEq, Prod.mk.injEq] at h
        obtain ⟨rfl, rfl, rfl⟩ := h
        exact ⟨List.suffix_rfl, Nat.min_le_right .., fun h0 => absurd h0 he,
          fun _ => ⟨ety, older, rfl, by omega, rfl⟩⟩

/-- Where the server has nothing to take back, entries are popped without it. -/
theorem popBack_of_plain (logPop : Option (Entry → Nat → Int))
    {raftPopLog : ρ → Entry → Nat → Option ρ} (base keep : Nat) {rev : List Entry} {r : ρ}
    (hplain : ∀ ety ∈ rev, ∀ idx, raftPopLog r ety idx = some r) :
    ∃ e rev', popBack logPop raftPopLog base keep rev r = some (e, rev', r) := by
  induction rev with
  | nil => exact ⟨0, [], rfl⟩
  | cons ety older ih =>
    rw [popBack]
    split
    · exact ⟨0, ety :: older, rfl⟩
    · dsimp only
      split
      · exact ⟨_, ety :: older, rfl⟩
      · rw [hplain ety (List.mem_cons_self ..), Option.bind_some]
        exact ih fun x hx => hplain x (List.mem_cons_of_mem _ hx)

end AbsLog

namespace Log

variable {ρ : Type}

theorem delete_of_plain (logPop : Option (Entry → Nat → Int))
    {raftPopLog : ρ → Entry → Nat → Option ρ} {idx : Nat} {l : Log} {r : ρ} (hidx : idx ≠ 0)
    (hplain : ∀ ety ∈ l.toList, ∀ i, raftPopLog r ety i = some r) :
    ∃ e l', l.delete logPop raftPopLog idx r = some (e, l', r) := by
  have hseen := seen_delete logPop raftPopLog idx l r
  obtain ⟨e, rev', hpop⟩ := AbsLog.popBack_of_plain logPop l.abs.base (idx - 1 - l.abs.base)
    fun ety (hety : ety ∈ l.abs.items.reverse) => hplain ety (List.mem_reverse.mp hety)
  rw [AbsLog.delete, if_neg hidx, hpop, Option.map_some] at hseen
  obtain ⟨⟨e', l', r'⟩, hdelete, heq⟩ := Option.map_eq_some_iff.mp hseen
  simp only [seen, Prod.mk.injEq] at heq
  exact ⟨e', l', by rw [hdelete, heq.2.2]⟩

theorem appendEntry_of_plain (logOffer : Option (Entry → Nat → Int))
    {raftOfferLog : ρ → Entry → Nat → Option ρ} (calloc : Bool) {ety : Entry} {l : Log} {r : ρ}
    (hplain : ∀ i, raftOfferLog r ety i = some r) :
    ∃ e l', l.appendEntry logOffer raftOfferLog calloc ety r = some (e, l', r) := by
  unfold appendEntry
  split
  · cases logOffer with
    | none => exact ⟨_, _, rfl⟩
    | some offer =>
      dsimp only
      split
      · exact ⟨_, _, rfl⟩
      · rw [hplain, Option.map_some]
        exact ⟨_, _, rfl⟩
  · exact ⟨_, _, rfl⟩

theorem delete_spec {logPop : Option (Entry → Nat → Int)}
    {raftPopLog : ρ → Entry → Nat → Option ρ} {idx : Nat} {l l' : Log} {r r' : ρ} {e : Int}
    (hidx : idx ≠ 0) (h : l.delete logPop raftPopLog idx r = some (e, l', r')) :
    l'.base = l.base ∧ l'.toList <+: l.toList ∧ min (idx - 1 - l.base) l.count ≤ l'.count
      ∧ (e = 0 → l'.count = min (idx - 1 - l.base) l.count) := by
  have hseen := seen_delete logPop raftPopLog idx l r
  rw [h, Option.map_some, AbsLog.delete, if_neg hidx] at hseen
  obtain ⟨⟨e₁, rev', r₁⟩, hpop, heq⟩ := Option.map_eq_some_iff.mp hseen.symm
  simp only [seen, Prod.mk.injEq] at heq
  obtain ⟨rfl, habs, rfl⟩ := heq
  obtain ⟨hsuffix, hmin, hzero, -⟩ := AbsLog.popBack_spec hpop
  have hbase : l'.base = l.base := (congrArg AbsLog.base habs).symm
  have hitems : rev'.reverse = l'.toList := congrArg AbsLog.items habs
  have hlen : rev'.length = l'.count := by
    rw [← length_toList, ← hitems, List.length_reverse]
  rw [List.length_reverse, abs_items, length_toList, hlen] at hmin hzero
  refine ⟨hbase, ?_, hmin, hzero⟩
  rw [← hitems]
  exact List.reverse_suffix.mp (by rwa [List.reverse_reverse])

theorem appendEntry_spec {logOffer : Option (Entry → Nat → Int)}
    {raftOfferLog : ρ → Entry → Nat → Option ρ} {calloc : Bool} {ety : Entry} {l l' : Log}
    {r r' : ρ} {e : Int}
    (h : l.appendEntry logOffer raftOfferLog calloc ety r = some (e, l', r')) :
    l'.base = l.base
      ∧ (e = 0 ∧ l'.toList = l.toList ++ [ety]
            ∧ (r' = r ∨ raftOfferLog r ety (l.currentIdx + 1) = some r')
          ∨ e ≠ 0 ∧ l'.toList = l.toList ∧ r' = r) := by
  have hseen := seen_appendEntry logOffer raftOfferLog calloc ety l r
  rw [h, Option.map_some, seen] at hseen
  unfold AbsLog.append at hseen
  rw [abs_currentIdx] at hseen
  split at hseen
  · simp only [Option.some.injEq, Prod.mk.injEq] at hseen
    obtain ⟨rfl, habs, rfl⟩ := hseen
    exact ⟨congrArg AbsLog.base habs, Or.inr ⟨by decide, congrArg AbsLog.items habs, rfl⟩⟩
  · split at hseen
    · simp only [Option.some.injEq, Prod.mk.injEq] at hseen
      obtain ⟨rfl, habs, rfl⟩ := hseen
      exact ⟨congrArg AbsLog.base habs, Or.inl ⟨rfl, congrArg AbsLog.items habs, Or.inl rfl⟩⟩
    · split at hseen
      · next hne =>
        simp only [Option.some.injEq, Prod.mk.injEq] at hseen
        obtain ⟨rfl, habs, rfl⟩ := hseen
        exact ⟨congrArg AbsLog.base habs, Or.inr ⟨hne, congrArg AbsLog.items habs, rfl⟩⟩
      · obtain ⟨r₁, hoffer, heq⟩ := Option.map_eq_some_iff.mp hseen.symm
        simp only [Prod.mk.injEq] at heq
        obtain ⟨rfl, habs, rfl⟩ := heq
        exact ⟨(congrArg AbsLog.base habs).symm,
          Or.inl ⟨rfl, (congrArg AbsLog.items habs).symm, Or.inr hoffer⟩⟩

/-! ### The first cell -/

theorem front_ensureCapacity (calloc : Bool) {l : Log} (h : l.front = 0) :
    (l.ensureCapacity calloc).2.front = 0 := by
  unfold ensureCapacity
  split
  · exact h
  · split
    · exact h
    · rfl

theorem front_appendEntry {logOffer : Option (Entry → Nat → Int)}
    {raftOfferLog : ρ → Entry → Nat → Option ρ} {calloc : Bool} {ety : Entry} {l l' : Log}
    {r r' : ρ} {e : Int} (hfront : l.front = 0)
    (h : l.appendEntry logOffer raftOfferLog calloc ety r = some (e, l', r')) : l'.front = 0 := by
  have hcap := front_ensureCapacity calloc hfront
  unfold appendEntry at h
  split at h
  · cases logOffer with
    | none =>
      simp only [Option.some.injEq, Prod.mk.injEq] at h
      rw [← h.2.1]
      exact hcap
    | some offer =>
      dsimp only at h
      split at h
      · simp only [Option.some.injEq, Prod.mk.injEq] at h
        rw [← h.2.1]
        exact hcap
      · obtain ⟨r₁, -, heq⟩ := Option.map_eq_some_iff.mp h
        simp only [Prod.mk.injEq] at heq
        rw [← heq.2.1]
        exact hcap
  · simp only [Option.some.injEq, Prod.mk.injEq] at h
    rw [← h.2.1]
    exact hcap

theorem front_deleteLoop {logPop : Option (Entry → Nat → Int)}
    {raftPopLog : ρ → Entry → Nat → Option ρ} {idx n : Nat} {l l' : Log} {r r' : ρ} {e : Int}
    (h : deleteLoop logPop raftPopLog idx n l r = some (e, l', r')) : l'.front = l.front := by
  induction n generalizing l r with
  | zero =>
    simp only [deleteLoop, Option.some.injEq, Prod.mk.injEq] at h
    rw [← h.2.1]
  | succ n ih =>
    rw [deleteLoop] at h
    split at h
    · next hgo =>
      dsimp only at h
      split at h
      · simp only [Option.some.injEq, Prod.mk.injEq] at h
        rw [← h.2.1]
      · obtain ⟨r₁, -, hrest⟩ := Option.bind_eq_some_iff.mp h
        exact ih (l := l.pop hgo.2) hrest
    · simp only [Option.some.injEq, Prod.mk.injEq] at h
      rw [← h.2.1]

theorem front_delete {logPop : Option (Entry → Nat → Int)}
    {raftPopLog : ρ → Entry → Nat → Option ρ} {idx : Nat} {l l' : Log} {r r' : ρ} {e : Int}
    (h : l.delete logPop raftPopLog idx r = some (e, l', r')) : l'.front = l.front := by
  unfold delete at h
  split at h
  · simp only [Option.some.injEq, Prod.mk.injEq] at h
    rw [← h.2.1]
  · exact front_deleteLoop h

end Log

/-! ## Runs -/

/-- A call that changes the log, with the answers its callbacks give. In `append`, `noMemory` is
that of the allocator for the buffer, and that of the call itself for the list. -/
inductive LogOp where
  | append (logOffer : Option (Entry → Nat → Int)) (noMemory : Bool) (ety : Entry)
  | delete (logPop : Option (Entry → Nat → Int)) (idx : Nat)
  | poll (logPoll : Option (Entry → Nat → Int))
  | clear
  | empty
  | loadFromSnapshot (idx : Nat)

/-- What a call hands back: its result and, of `log_poll`, the entry. -/
abbrev LogReply := Int × Option Entry

section
variable {ρ : Type} (raftOfferLog raftPopLog : ρ → Entry → Nat → Option ρ)

def Log.step : Log × ρ × List LogReply → LogOp → Option (Log × ρ × List LogReply)
  | (l, r, replies), .append logOffer noMemory ety =>
    (l.appendEntry logOffer raftOfferLog (!noMemory) ety r).map fun x =>
      (x.2.1, x.2.2, replies ++ [(x.1, none)])
  | (l, r, replies), .delete logPop idx =>
    (l.delete logPop raftPopLog idx r).map fun x => (x.2.1, x.2.2, replies ++ [(x.1, none)])
  | (l, r, replies), .poll logPoll =>
    some ((l.poll logPoll).2.2, r, replies ++ [((l.poll logPoll).1, (l.poll logPoll).2.1)])
  | (l, r, replies), .clear => some (l.clear, r, replies)
  | (l, r, replies), .empty => some (l.empty, r, replies)
  | (l, r, replies), .loadFromSnapshot idx => some (l.loadFromSnapshot idx, r, replies)

def AbsLog.step : AbsLog × ρ × List LogReply → LogOp → Option (AbsLog × ρ × List LogReply)
  | (a, r, replies), .append logOffer noMemory ety =>
    (a.append logOffer raftOfferLog noMemory ety r).map fun x =>
      (x.2.1, x.2.2, replies ++ [(x.1, none)])
  | (a, r, replies), .delete logPop idx =>
    (a.delete logPop raftPopLog idx r).map fun x => (x.2.1, x.2.2, replies ++ [(x.1, none)])
  | (a, r, replies), .poll logPoll =>
    some ((a.poll logPoll).2.2, r, replies ++ [((a.poll logPoll).1, (a.poll logPoll).2.1)])
  | (_, r, replies), .clear => some (⟨0, []⟩, r, replies)
  | (a, r, replies), .empty => some (⟨a.base, []⟩, r, replies)
  | (_, r, replies), .loadFromSnapshot idx => some (⟨idx, []⟩, r, replies)

/-- A call of the list for a call of the buffer: the same, but that a call for which there was no
memory may not have wanted any. -/
inductive LogOp.Refines : LogOp → LogOp → Prop
  | same (op : LogOp) : Refines op op
  | room (logOffer : Option (Entry → Nat → Int)) (ety : Entry) :
      Refines (.append logOffer true ety) (.append logOffer false ety)

variable {raftOfferLog raftPopLog}

theorem Log.step_refines {l l' : Log} {r r' : ρ} {replies replies' : List LogReply} {op : LogOp}
    (h : Log.step raftOfferLog raftPopLog (l, r, replies) op = some (l', r', replies')) :
    ∃ op', op.Refines op' ∧
      AbsLog.step raftOfferLog raftPopLog (l.abs, r, replies) op'
        = some (l'.abs, r', replies') := by
  cases op with
  | append logOffer noMemory ety =>
    obtain ⟨x, hx, heq⟩ := Option.map_eq_some_iff.mp h
    have hseen := seen_appendEntry logOffer raftOfferLog (!noMemory) ety l r
    rw [hx, Option.map_some] at hseen
    simp only [Prod.mk.injEq] at heq
    obtain ⟨rfl, rfl, rfl⟩ := heq
    refine ⟨.append logOffer (l.nomem (!noMemory)) ety, ?_, ?_⟩
    · cases noMemory with
      | false =>
        have hroom : l.nomem (!false) = false := Bool.and_false _
        rw [hroom]
        exact .same _
      | true =>
        cases l.nomem (!true) with
        | false => exact .room logOffer ety
        | true => exact .same _
    · rw [AbsLog.step, ← hseen]
      rfl
  | delete logPop idx =>
    obtain ⟨x, hx, heq⟩ := Option.map_eq_some_iff.mp h
    have hseen := seen_delete logPop raftPopLog idx l r
    rw [hx, Option.map_some] at hseen
    simp only [Prod.mk.injEq] at heq
    obtain ⟨rfl, rfl, rfl⟩ := heq
    refine ⟨.delete logPop idx, .same _, ?_⟩
    rw [AbsLog.step, ← hseen]
    rfl
  | poll logPoll =>
    have hseen := seen_poll logPoll l
    simp only [Log.step, Option.some.injEq, Prod.mk.injEq] at h
    obtain ⟨rfl, rfl, rfl⟩ := h
    refine ⟨.poll logPoll, .same _, ?_⟩
    rw [AbsLog.step, ← hseen]
  | clear =>
    simp only [Log.step, Option.some.injEq, Prod.mk.injEq] at h
    obtain ⟨rfl, rfl, rfl⟩ := h
    exact ⟨.clear, .same _, rfl⟩
  | empty =>
    simp only [Log.step, Option.some.injEq, Prod.mk.injEq] at h
    obtain ⟨rfl, rfl, rfl⟩ := h
    exact ⟨.empty, .same _, rfl⟩
  | loadFromSnapshot idx =>
    simp only [Log.step, Option.some.injEq, Prod.mk.injEq] at h
    obtain ⟨rfl, rfl, rfl⟩ := h
    exact ⟨.loadFromSnapshot idx, .same _, rfl⟩

/-- Every run of calls is a run on the list, with the same replies and the same server. -/
theorem Log.run_refines {l l' : Log} {r r' : ρ} {replies replies' : List LogReply}
    {ops : List LogOp}
    (h : StepSystem.run (Log.step raftOfferLog raftPopLog) (l, r, replies) ops
      = some (l', r', replies')) :
    ∃ ops', List.Forall₂ LogOp.Refines ops ops' ∧
      StepSystem.run (AbsLog.step raftOfferLog raftPopLog) (l.abs, r, replies) ops'
        = some (l'.abs, r', replies') := by
  induction ops generalizing l r replies with
  | nil =>
    simp only [StepSystem.run_nil, Option.some.injEq, Prod.mk.injEq] at h
    obtain ⟨rfl, rfl, rfl⟩ := h
    exact ⟨[], .nil, rfl⟩
  | cons op ops ih =>
    obtain ⟨⟨l₁, r₁, replies₁⟩, hstep, hrest⟩ := StepSystem.run_cons.mp h
    obtain ⟨op', hop, habs⟩ := Log.step_refines hstep
    obtain ⟨ops', hops, hrun⟩ := ih hrest
    exact ⟨op' :: ops', .cons hop hops, StepSystem.run_cons.mpr ⟨_, habs, hrun⟩⟩

/-- Of a buffer that began empty one sees what one sees of the list: the replies, the entry of an
index, the last entry and its index. -/
theorem Log.run_observed {l : Log} {r r' : ρ} {replies : List LogReply} {ops : List LogOp}
    (h : StepSystem.run (Log.step raftOfferLog raftPopLog) (Log.new, r, []) ops
      = some (l, r', replies)) :
    ∃ ops' a, List.Forall₂ LogOp.Refines ops ops' ∧
      StepSystem.run (AbsLog.step raftOfferLog raftPopLog) (⟨0, []⟩, r, []) ops'
        = some (a, r', replies) ∧
      (∀ idx, l.getAtIdx idx = a.getAt idx) ∧ l.peektail = a.items.getLast? ∧
      l.currentIdx = a.currentIdx := by
  obtain ⟨ops', hops, hrun⟩ := Log.run_refines h
  exact ⟨ops', l.abs, hops, hrun, l.getAtIdx_eq, l.peektail_eq, l.abs_currentIdx.symm⟩

/-- A run that goes round the end of the array and doubles it. -/
def wrapping : List LogOp :=
  List.replicate 8 (.append none false ⟨1, 1, .normal, []⟩)
    ++ List.replicate 3 (.poll none)
    ++ List.replicate 7 (.append none false ⟨2, 2, .normal, []⟩)

def wrapped : Log × Unit × List LogReply :=
  (StepSystem.run (Log.step (fun _ _ _ => none) (fun _ _ _ => none)) (Log.new, (), [])
    wrapping).get (by decide)

theorem run_wrapped :
    StepSystem.run (Log.step (fun _ _ _ => none) (fun _ _ _ => none)) (Log.new, (), []) wrapping
      = some wrapped :=
  (Option.some_get _).symm

theorem Log.run_observed_wrapped :
    wrapped.1.getAtIdx 9 = some ⟨2, 2, .normal, []⟩ ∧ ∃ ops' a,
      List.Forall₂ LogOp.Refines wrapping ops' ∧
      StepSystem.run (AbsLog.step (fun _ _ _ => none) (fun _ _ _ => none)) (⟨0, []⟩, (), []) ops'
        = some (a, wrapped.2.1, wrapped.2.2) ∧
      (∀ idx, wrapped.1.getAtIdx idx = a.getAt idx) ∧ wrapped.1.peektail = a.items.getLast? ∧
      wrapped.1.currentIdx = a.currentIdx :=
  ⟨by decide, Log.run_observed run_wrapped⟩

/-! ### Batches -/

theorem Log.front_step {l l' : Log} {r r' : ρ} {replies replies' : List LogReply} {op : LogOp}
    (hop : ∀ logPoll, op ≠ .poll logPoll) (hfront : l.front = 0)
    (h : Log.step raftOfferLog raftPopLog (l, r, replies) op = some (l', r', replies')) :
    l'.front = 0 := by
  cases op with
  | append logOffer noMemory ety =>
    obtain ⟨⟨e, l₁, r₁⟩, hx, heq⟩ := Option.map_eq_some_iff.mp h
    simp only [Prod.mk.injEq] at heq
    rw [← heq.1]
    exact front_appendEntry hfront hx
  | delete logPop idx =>
    obtain ⟨⟨e, l₁, r₁⟩, hx, heq⟩ := Option.map_eq_some_iff.mp h
    simp only [Prod.mk.injEq] at heq
    rw [← heq.1]
    exact (front_delete hx).trans hfront
  | poll logPoll => exact absurd rfl (hop logPoll)
  | clear =>
    simp only [Log.step, Option.some.injEq, Prod.mk.injEq] at h
    rw [← h.1]
    rfl
  | empty =>
    simp only [Log.step, Option.some.injEq, Prod.mk.injEq] at h
    rw [← h.1]
    rfl
  | loadFromSnapshot idx =>
    simp only [Log.step, Option.some.injEq, Prod.mk.injEq] at h
    rw [← h.1]
    rfl

/-- After any run the entries handed out from `idx` on are a part of the log without a gap that
begins at `idx` and is not empty; in a run without a poll, they are all that are left. -/
theorem Log.getFromIdx_run {r r' : ρ} {l : Log} {replies replies' : List LogReply}
    {ops : List LogOp}
    (h : StepSystem.run (Log.step raftOfferLog raftPopLog) (Log.new, r, replies) ops
      = some (l, r', replies'))
    {idx : Nat} (hbase : l.base < idx) (hend : idx ≤ l.currentIdx) :
    ∃ n, 0 < n ∧ n ≤ l.currentIdx - (idx - 1) ∧
      l.getFromIdx idx = some ((l.toList.drop (idx - 1 - l.base)).take n) ∧
      ((∀ logPoll, LogOp.poll logPoll ∉ ops) → n = l.currentIdx - (idx - 1)) := by
  by_cases hpoll : ∀ logPoll, LogOp.poll logPoll ∉ ops
  · have hops : ∀ op ∈ ops, ∀ logPoll, op ≠ LogOp.poll logPoll := by
      intro op hop logPoll heq
      exact hpoll logPoll (heq ▸ hop)
    have hfront : l.front = 0 := by
      refine StepSystem.run_invariant_of_meets
        (I := fun s : Log × ρ × List LogReply => s.1.front = 0) ?_ rfl
        (StepSystem.meets_of_forall hops _) h
      rintro ⟨l₁, r₁, replies₁⟩ op ⟨l₂, r₂, replies₂⟩ hI hC hstep
      exact Log.front_step hC hI hstep
    refine ⟨l.currentIdx - (idx - 1), by omega, Nat.le_refl _, ?_, fun _ => rfl⟩
    rw [getFromIdx_of_front_zero l hfront hbase, List.take_of_length_le]
    rw [List.length_drop, length_toList, currentIdx]
    omega
  · obtain ⟨n, hpos, hle, hget⟩ := getFromIdx_segment l hbase hend
    exact ⟨n, hpos, hle, hget, fun hno => absurd hno hpoll⟩

/-- Four entries behind the three polls: the log begins in the cell 3 and ends in the cell 2. -/
def aroundTheEnd : Log × Unit × List LogReply :=
  (StepSystem.run (Log.step (fun _ _ _ => none) (fun _ _ _ => none)) (Log.new, (), [])
    (wrapping.take 15)).get (by decide)

/-- Nine entries are left from 4 on, and the seven up to the end of the array are handed out. -/
theorem Log.getFromIdx_run_cut :
    aroundTheEnd.1.currentIdx = 12 ∧ (aroundTheEnd.1.getFromIdx 4).map List.length = some 7 ∧
      ∃ n, 0 < n ∧ n ≤ aroundTheEnd.1.currentIdx - 3 ∧ aroundTheEnd.1.getFromIdx 4
        = some ((aroundTheEnd.1.toList.drop (3 - aroundTheEnd.1.base)).take n) := by
  have hrun : StepSystem.run (Log.step (fun _ _ _ => none) (fun _ _ _ => none)) (Log.new, (), [])
      (wrapping.take 15) = some aroundTheEnd := (Option.some_get _).symm
  have hbase : aroundTheEnd.1.base < 4 := by decide
  obtain ⟨n, hpos, hle, hget, -⟩ := Log.getFromIdx_run hrun hbase (by decide)
  exact ⟨by decide, by decide, n, hpos, hle, hget⟩

end

end HomeKeeper.Raft
