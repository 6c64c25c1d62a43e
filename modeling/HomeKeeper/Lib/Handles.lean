import Mathlib.Data.List.Count
import Mathlib.Data.List.Nodup

/-!
# Traces of handles

What a program does with the handles of a C library, such as `FILE *`: it opens them, uses them and
closes them. `Safe` says that nothing is done with a handle after it was closed, and `Released` that
every handle that was opened was closed once.
-/

namespace Handles

inductive Event (H : Type*) where
  | opened (h : H)
  | used (h : H)
  | closed (h : H)
  deriving DecidableEq, Repr

variable {H : Type*}

def Event.handle : Event H → H
  | .opened h => h
  | .used h => h
  | .closed h => h

variable [DecidableEq H]

/-- `b` touches the handle that `a` closes. -/
def clash : Event H → Event H → Bool
  | .closed h, .used k => h = k
  | .closed h, .closed k => h = k
  | _, _ => false

/-- No handle is used, or closed again, after it was closed. -/
def Safe (tr : List (Event H)) : Prop := tr.Pairwise fun a b => clash a b = false

/-- Every handle that was opened was closed exactly once. -/
def Released (tr : List (Event H)) : Prop := ∀ h, .opened h ∈ tr → tr.count (.closed h) = 1

instance (tr : List (Event H)) : Decidable (Safe tr) :=
  inferInstanceAs (Decidable (tr.Pairwise _))

theorem handle_eq_of_clash {a b : Event H} (h : clash a b = true) : a.handle = b.handle := by
  cases a with
  | opened x => cases b <;> exact absurd h (by simp [clash])
  | used x => cases b <;> exact absurd h (by simp [clash])
  | closed x =>
    cases b with
    | opened y => exact absurd h (by simp [clash])
    | used y => exact of_decide_eq_true h
    | closed y => exact of_decide_eq_true h

/-- Traces of different handles do not disturb each other. -/
theorem safe_append {a b : List (Event H)} (h : ∀ x ∈ a, ∀ y ∈ b, x.handle ≠ y.handle) :
    Safe (a ++ b) ↔ Safe a ∧ Safe b := by
  unfold Safe
  rw [List.pairwise_append]
  constructor
  · rintro ⟨ha, hb, -⟩
    exact ⟨ha, hb⟩
  · rintro ⟨ha, hb⟩
    refine ⟨ha, hb, fun x hx y hy => ?_⟩
    by_contra hclash
    exact h x hx y hy (handle_eq_of_clash (by simpa using hclash))

/-- Handles that are all closed in the end. -/
theorem released_append_closed {hs : List H} (hnodup : hs.Nodup) :
    Released (hs.map Event.opened ++ hs.map Event.closed) := by
  intro h hopened
  have hmem : h ∈ hs := by
    simpa using hopened
  have hnone : (hs.map Event.opened).count (Event.closed h) = 0 := by
    rw [List.count_eq_zero]
    simp
  have hinj : Function.Injective (Event.closed : H → Event H) := by
    intro x y hxy
    exact Event.closed.inj hxy
  rw [List.count_append, hnone, List.count_map_of_injective hs _ hinj,
    List.count_eq_one_of_mem hnodup hmem]

end Handles
