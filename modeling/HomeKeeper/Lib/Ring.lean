import Mathlib.Data.List.Basic

/-!
# Windows of a circular buffer

The cells of a buffer of `n` cells are numbered from 0 and counted on modulo `n`. `window` lists
`count` of them from a start. The queue a circular buffer holds is such a window, and each of its
operations moves one of the ends:

* `window_set` — writing the cell behind the last one makes the window longer by the new value;
* `window_succ`, `window_cons` — the last and the first value of a window;
* `window_mod` — the start counts modulo the size;
* `take_drop_eq_window` — the cells of a window that does not reach around lie side by side.
-/

namespace Ring

variable {α : Type*} [Inhabited α]

/-- The cell `i`, counted modulo the size. -/
def cell (buf : List α) (i : Nat) : α := buf.getD (i % buf.length) default

def window (buf : List α) (front count : Nat) : List α :=
  (List.range count).map fun k => cell buf (front + k)

@[simp] theorem length_window (buf : List α) (front count : Nat) :
    (window buf front count).length = count := by
  rw [window, List.length_map, List.length_range]

@[simp] theorem window_zero (buf : List α) (front : Nat) : window buf front 0 = [] := rfl

theorem getElem?_window (buf : List α) (front : Nat) {count k : Nat} (hk : k < count) :
    (window buf front count)[k]? = some (cell buf (front + k)) := by
  rw [window, List.getElem?_map, List.getElem?_range hk]
  rfl

theorem cell_mod (buf : List α) (i : Nat) : cell buf (i % buf.length) = cell buf i := by
  rw [cell, cell, Nat.mod_mod]

theorem cell_of_lt {buf : List α} {i : Nat} (h : i < buf.length) :
    cell buf i = buf.getD i default := by
  rw [cell, Nat.mod_eq_of_lt h]

/-! ## The ends of a window -/

theorem window_succ (buf : List α) (front count : Nat) :
    window buf front (count + 1) = window buf front count ++ [cell buf (front + count)] := by
  rw [window, List.range_succ, List.map_append]
  rfl

theorem window_cons (buf : List α) (front count : Nat) :
    window buf front (count + 1) = cell buf front :: window buf (front + 1) count := by
  rw [window, List.range_succ_eq_map, List.map_cons, List.map_map, window]
  congr 1
  refine List.map_congr_left fun k _ => ?_
  show cell buf (front + (k + 1)) = cell buf (front + 1 + k)
  rw [Nat.add_assoc, Nat.add_comm 1 k]

theorem window_mod (buf : List α) (front count : Nat) :
    window buf (front % buf.length) count = window buf front count := by
  refine List.map_congr_left fun k _ => ?_
  rw [cell, cell, Nat.mod_add_mod]

theorem take_window (buf : List α) (front : Nat) {m count : Nat} (h : m ≤ count) :
    (window buf front count).take m = window buf front m := by
  rw [window, ← List.map_take, List.take_range, Nat.min_eq_left h]
  rfl

theorem drop_window (buf : List α) (front k : Nat) (count : Nat) :
    (window buf front (k + count)).drop k = window buf (front + k) count := by
  induction k generalizing front with
  | zero => rw [Nat.zero_add, List.drop_zero, Nat.add_zero]
  | succ k ih =>
    rw [show k + 1 + count = k + count + 1 by omega, window_cons, List.drop_succ_cons, ih,
      show front + 1 + k = front + (k + 1) by omega]

/-- A number below two turns, counted modulo the size. -/
theorem mod_eq_ite {a n : Nat} (h : a < 2 * n) : a % n = if a < n then a else a - n := by
  split
  · next hlt => exact Nat.mod_eq_of_lt hlt
  · next hge => rw [Nat.mod_eq_sub_mod (by omega), Nat.mod_eq_of_lt (by omega)]

/-! ## Writing -/

/-- Two cells less than a whole turn apart are different cells. -/
theorem mod_ne_of_lt {n front i j : Nat} (hij : i < j) (hj : j < i + n) :
    (front + i) % n ≠ (front + j) % n := by
  intro h
  have hdvd : n ∣ front + j - (front + i) :=
    Nat.dvd_of_mod_eq_zero (Nat.sub_mod_eq_zero_of_mod_eq h.symm)
  have hle := Nat.le_of_dvd (by omega) hdvd
  omega

theorem cell_set_of_ne {buf : List α} {i j : Nat} (x : α)
    (h : i % buf.length ≠ j % buf.length) : cell (buf.set (j % buf.length) x) i = cell buf i := by
  unfold cell
  rw [List.length_set, List.getD_eq_getElem?_getD, List.getElem?_set_ne (Ne.symm h),
    ← List.getD_eq_getElem?_getD]

theorem cell_set_self {buf : List α} (hpos : 0 < buf.length) (j : Nat) (x : α) :
    cell (buf.set (j % buf.length) x) j = x := by
  have hlt : j % buf.length < buf.length := Nat.mod_lt _ hpos
  unfold cell
  rw [List.length_set, List.getD_eq_getElem?_getD, List.getElem?_set_self hlt, Option.getD_some]

/-- The window of a buffer with a free cell, after the free cell behind it is written. -/
theorem window_set {buf : List α} {front count : Nat} (h : count < buf.length) (x : α) :
    window (buf.set ((front + count) % buf.length) x) front (count + 1)
      = window buf front count ++ [x] := by
  have hpos : 0 < buf.length := by omega
  rw [window_succ, cell_set_self hpos]
  congr 1
  refine List.map_congr_left fun k hk => ?_
  have hk' := List.mem_range.mp hk
  exact cell_set_of_ne x (mod_ne_of_lt hk' (by omega))

theorem window_set_free {buf : List α} {front count : Nat} (h : count < buf.length) (x : α) :
    window (buf.set ((front + count) % buf.length) x) front count = window buf front count := by
  refine List.map_congr_left fun k hk => ?_
  have hk' := List.mem_range.mp hk
  exact cell_set_of_ne x (mod_ne_of_lt hk' (by omega))

/-! ## Side by side -/

theorem take_drop_eq_window {buf : List α} {i m : Nat} (h : i + m ≤ buf.length) :
    (buf.drop i).take m = window buf i m := by
  apply List.ext_getElem?
  intro k
  by_cases hk : k < m
  · rw [List.getElem?_take_of_lt hk, List.getElem?_drop, getElem?_window buf i hk,
      cell_of_lt (by omega), List.getD_eq_getElem?_getD, List.getElem?_eq_getElem (by omega),
      Option.getD_some]
  · rw [List.getElem?_eq_none (by rw [List.length_take]; omega),
      List.getElem?_eq_none (by rw [length_window]; omega)]

end Ring
