import HomeKeeper.Lib.CData
import HomeKeeper.Lib.Ring

/-!
# `raft/raft_log.c` — the log of a Raft server

The log is a circular buffer that is doubled when it is full. `front` and `back` are the cells of
the oldest entry and behind the youngest, `base` is the number of entries that were compacted
away, so the entry in cell `front` has the index `base + 1`.

The functions call back twice: `cb->log_offer`, `log_pop` and `log_poll` belong to the user and
are given with each call, as the answer they return for an entry and its index; `raft_offer_log`
and `raft_pop_log` belong to the server, whose state is a parameter `ρ`. An assertion that fails
ends the process: the call has no result.

Cells and indices are natural numbers, for an array of fewer than 2^31 cells: `mod` and
`logs_till_end_of_log` are `int`.
-/

namespace HomeKeeper.Raft

open CData Ring

/-! ## Entries -/

abbrev NodeId := Int

/-- `raft_logtype_e`; the types of the user begin at `RAFT_LOGTYPE_NUM`. -/
inductive LogType where
  | normal
  | addNonvotingNode
  | addNode
  | demoteNode
  | removeNode
  | user (n : Nat)
  deriving DecidableEq, Repr

/-- `raft_entry_t`. -/
structure Entry where
  term : Nat
  id : Int
  type : LogType
  data : Bytes
  deriving DecidableEq, Repr

/-- A cell as `calloc` leaves it. -/
instance : Inhabited Entry := ⟨⟨0, 0, .normal, []⟩⟩

/-! ### `raft_error_e` -/

def raftErrNotLeader : Int := -2
def raftErrOneVotingChangeOnly : Int := -3
def raftErrShutdown : Int := -4
def raftErrNomem : Int := -5
def raftErrNeedsSnapshot : Int := -6
def raftErrSnapshotInProgress : Int := -7
def raftErrSnapshotAlreadyLoaded : Int := -8

/-- What a callback for an entry and its index answers; the code goes on as after 0 where the
user gave none. -/
def answer (cb : Option (Entry → Nat → Int)) (ety : Entry) (idx : Nat) : Int :=
  match cb with
  | none => 0
  | some f => f ety idx

/-! ## The buffer -/

/-- `log_private_t`; `size` is the number of cells of `entries`. -/
structure Log where
  entries : List Entry
  count : Nat
  front : Nat
  back : Nat
  base : Nat
  front_lt : front < entries.length
  count_le : count ≤ entries.length
  back_eq : back = (front + count) % entries.length

namespace Log

def size (l : Log) : Nat := l.entries.length

theorem size_pos (l : Log) : 0 < l.entries.length := Nat.lt_of_le_of_lt (Nat.zero_le _) l.front_lt

/-- `log_alloc`. -/
def alloc (initialSize : Nat) (h : 0 < initialSize) : Log where
  entries := List.replicate initialSize default
  count := 0
  front := 0
  back := 0
  base := 0
  front_lt := by rwa [List.length_replicate]
  count_le := Nat.zero_le _
  back_eq := (Nat.zero_mod _).symm

/-- `log_new`, with `INITIAL_CAPACITY`. -/
def new : Log := alloc 10 (by decide)

/-- `log_get_current_idx`. -/
def currentIdx (l : Log) : Nat := l.count + l.base

/-- The copying loop of `__ensurecapacity`: `n` entries from the cell `j` on. -/
def copyFrom (entries : List Entry) : Nat → Nat → List Entry
  | 0, _ => []
  | n + 1, j =>
    let j := if j = entries.length then 0 else j
    entries.getD j default :: copyFrom entries n (j + 1)

theorem length_copyFrom (entries : List Entry) (n j : Nat) :
    (copyFrom entries n j).length = n := by
  induction n generalizing j with
  | zero => rfl
  | succ n ih => rw [copyFrom, List.length_cons, ih]

/-- The buffer of `__ensurecapacity` after the entries were moved to a new array. -/
def doubled (l : Log) : Log where
  entries := copyFrom l.entries l.count l.front
    ++ List.replicate (2 * l.entries.length - l.count) default
  count := l.count
  front := 0
  back := l.count
  base := l.base
  front_lt := by
    have hpos := l.size_pos
    rw [List.length_append, length_copyFrom, List.length_replicate]
    omega
  count_le := by
    rw [List.length_append, length_copyFrom]
    omega
  back_eq := by
    have hpos := l.size_pos
    have hle := l.count_le
    rw [List.length_append, length_copyFrom, List.length_replicate, Nat.zero_add,
      Nat.mod_eq_of_lt (by omega)]

/-- `__ensurecapacity`. -/
def ensureCapacity (calloc : Bool) (l : Log) : Int × Log :=
  if l.count < l.size then (0, l)
  else if !calloc then (raftErrNomem, l)
  else (0, l.doubled)

/-- `memcpy (&me->entries[me->back], ety, ...)`: the cell is not part of the log yet. -/
def store (l : Log) (ety : Entry) : Log :=
  { l with
    entries := l.entries.set l.back ety
    front_lt := by rw [List.length_set]; exact l.front_lt
    count_le := by rw [List.length_set]; exact l.count_le
    back_eq := by rw [List.length_set]; exact l.back_eq }

/-- `me->count++; me->back++; me->back = me->back % me->size`. -/
def push (l : Log) (h : l.count < l.size) : Log :=
  { l with
    count := l.count + 1
    back := (l.back + 1) % l.entries.length
    count_le := h
    back_eq := by rw [l.back_eq, Nat.mod_add_mod, Nat.add_assoc] }

theorem count_lt_of_ensureCapacity {calloc : Bool} {l : Log}
    (h : (l.ensureCapacity calloc).1 = 0) :
    (l.ensureCapacity calloc).2.count < (l.ensureCapacity calloc).2.size := by
  unfold ensureCapacity at h ⊢
  split at h
  · next hlt => rw [if_pos hlt]; exact hlt
  · next hlt =>
    rw [if_neg hlt]
    split at h
    · cases h
    · next hc =>
      rw [if_neg hc]
      have hpos := l.size_pos
      have hle := l.count_le
      show l.count < (copyFrom l.entries l.count l.front
        ++ List.replicate (2 * l.entries.length - l.count) default).length
      rw [List.length_append, length_copyFrom, List.length_replicate]
      omega

/-- `log_append_entry`. The cell is written before `log_offer` is asked, and stays written when
it refuses. `raft_offer_log` is called only where there is a `log_offer`. -/
def appendEntry {ρ : Type} (logOffer : Option (Entry → Nat → Int))
    (raftOfferLog : ρ → Entry → Nat → Option ρ) (calloc : Bool) (ety : Entry) (l : Log) (r : ρ) :
    Option (Int × Log × ρ) :=
  let idx := l.base + l.count + 1
  if h : (l.ensureCapacity calloc).1 = 0 then
    let l := (l.ensureCapacity calloc).2.store ety
    let pushed := l.push (by
      show _ < (List.set _ _ _).length
      rw [List.length_set]
      exact count_lt_of_ensureCapacity h)
    match logOffer with
    | none => some (0, pushed, r)
    | some offer =>
      if offer ety idx ≠ 0 then some (offer ety idx, l, r)
      else (raftOfferLog r ety idx).map fun r => (0, pushed, r)
  else some ((l.ensureCapacity calloc).1, (l.ensureCapacity calloc).2, r)

/-- `log_get_from_idx`: the entries from `idx` to the end of the array or of the log. -/
def getFromIdx (l : Log) (idx : Nat) : Option (List Entry) :=
  -- `assert (0 <= idx - 1)`
  if idx = 0 then none
  else if l.base + l.count < idx ∨ idx ≤ l.base then some []
  else
    let i := (l.front + (idx - 1) - l.base) % l.size
    let logsTillEndOfLog := if i < l.back then l.back - i else l.size - i
    some ((l.entries.drop i).take logsTillEndOfLog)

/-- `log_get_at_idx`. -/
def getAtIdx (l : Log) (idx : Nat) : Option Entry :=
  if idx = 0 then none
  else if l.base + l.count < idx ∨ idx ≤ l.base then none
  else some (l.entries.getD ((l.front + (idx - 1) - l.base) % l.size) default)

/-- `mod (me->back - 1, me->size)`. -/
def backBefore (l : Log) : Nat := if l.back = 0 then l.size - 1 else l.back - 1

theorem backBefore_eq (l : Log) (h : l.count ≠ 0) :
    l.backBefore = (l.front + (l.count - 1)) % l.entries.length := by
  have hpos := l.size_pos
  have hfront := l.front_lt
  have hle := l.count_le
  have hback := l.back_eq
  rw [mod_eq_ite (by omega)] at hback
  rw [mod_eq_ite (by omega), backBefore, size]
  split at hback <;> split <;> split <;> omega

/-- `me->back = back; me->count--`. -/
def pop (l : Log) (h : l.count ≠ 0) : Log :=
  { l with
    count := l.count - 1
    back := l.backBefore
    count_le := by have := l.count_le; omega
    back_eq := l.backBefore_eq h }

/-- The loop of `log_delete`, with the number of entries as its bound. -/
def deleteLoop {ρ : Type} (logPop : Option (Entry → Nat → Int))
    (raftPopLog : ρ → Entry → Nat → Option ρ) (idx : Nat) :
    Nat → Log → ρ → Option (Int × Log × ρ)
  | 0, l, r => some (0, l, r)
  | n + 1, l, r =>
    if h : idx ≤ l.base + l.count ∧ l.count ≠ 0 then
      let idxTmp := l.base + l.count
      let ety := l.entries.getD l.backBefore default
      let e := answer logPop ety idxTmp
      if e ≠ 0 then some (e, l, r)
      else
        (raftPopLog r ety idxTmp).bind fun r =>
          deleteLoop logPop raftPopLog idx n (l.pop h.2) r
    else some (0, l, r)

/-- `log_delete`. -/
def delete {ρ : Type} (logPop : Option (Entry → Nat → Int))
    (raftPopLog : ρ → Entry → Nat → Option ρ) (idx : Nat) (l : Log) (r : ρ) :
    Option (Int × Log × ρ) :=
  if idx = 0 then some (-1, l, r)
  else deleteLoop logPop raftPopLog (if idx < l.base then l.base else idx) l.count l r

/-- `log_poll`, with the entry it hands out. -/
def poll (logPoll : Option (Entry → Nat → Int)) (l : Log) : Int × Option Entry × Log :=
  if h : l.count = 0 then (-1, none, l)
  else
    let ety := l.entries.getD l.front default
    let e := answer logPoll ety (l.base + 1)
    if e ≠ 0 then (e, none, l)
    else
      (0, some ety,
        { l with
          front := (l.front + 1) % l.entries.length
          count := l.count - 1
          base := l.base + 1
          front_lt := Nat.mod_lt _ l.size_pos
          count_le := by have := l.count_le; omega
          back_eq := by
            rw [l.back_eq, Nat.mod_add_mod]
            congr 1
            omega })

/-- `log_peektail`. -/
def peektail (l : Log) : Option Entry :=
  if l.count = 0 then none
  else if l.back = 0 then some (l.entries.getD (l.size - 1) default)
  else some (l.entries.getD (l.back - 1) default)

/-- `log_clear`, and `log_empty` where the base stays. -/
def emptied (l : Log) (base : Nat) : Log :=
  { l with
    count := 0
    front := 0
    back := 0
    base := base
    front_lt := l.size_pos
    count_le := Nat.zero_le _
    back_eq := (Nat.zero_mod _).symm }

def clear (l : Log) : Log := l.emptied 0

def empty (l : Log) : Log := l.emptied l.base

/-- The calls `log_clear_entries` makes of `cb->log_clear`, in order. The bound of the loop is
`i <= me->base + me->count`. -/
def clearEntries (logClear : Bool) (l : Log) : List (Entry × Nat) :=
  if l.count = 0 ∨ !logClear then []
  else
    (List.range (l.count + 1)).map fun k =>
      (l.entries.getD ((l.front + (l.base + k) - l.base) % l.size) default, l.base + k)

/-- `log_load_from_snapshot`. -/
def loadFromSnapshot (l : Log) (idx : Nat) : Log := l.clear.emptied idx

end Log

end HomeKeeper.Raft
