import Mathlib.Logic.Relation
import Mathlib.Order.Lattice

/-!
# One replica of a log

A replica by itself, whatever the others do: a term and a vote in it, a log whose front may have
been compacted away, how far the log is committed and how far it was given to the state machine.
Indices begin at 1, and the entry with the index `base + 1` is the first that is left.

`Move` is what a replica may do, one change at a time; it does not ask why. `Step` is what a call
may make of it: a sequence of moves, a snapshot installed, or a vote written over. What follows for
every step:

* `Ordered` — compacted, applied, committed and last entry come in this order;
* `Told`, `Faithful` — the entries were given to the state machine in the order of their indices,
  none twice, and are those that were committed;
* `Later` — what was committed stays as it was, as long as it is not compacted;
* `Stuck` — a change of the configuration that was noted at an index applied before stays noted;
* `Ballot` — the term does not go back, and within a term a vote is final; this for moves alone.
-/

namespace Replica

structure State (ν α : Type*) where
  term : ℕ
  vote : Option ν
  base : ℕ
  entries : List α
  commit : ℕ
  applied : ℕ
  /-- What the state machine was given, oldest first. -/
  given : List (ℕ × α)
  /-- The index up to which a snapshot is being written. -/
  snapshot : Option ℕ
  /-- The index noted down for a change of the configuration that is not complete. -/
  pending : Option ℕ

variable {ν α : Type*}

namespace State

def last (s : State ν α) : ℕ := s.base + s.entries.length

/-- The entry with the index `i`. -/
def entry (s : State ν α) (i : ℕ) : Option α :=
  if i ≤ s.base then none else s.entries[i - 1 - s.base]?

def apply (s : State ν α) (told : Bool) (a : α) (p : Option ℕ) : State ν α :=
  { s with
    applied := s.applied + 1
    given := s.given ++ if told then [(s.applied + 1, a)] else []
    pending := p }

def compact (s : State ν α) (k : ℕ) : State ν α :=
  { s with
    base := s.base + k
    entries := s.entries.drop k }

end State

/-- `told` is whether there is a state machine to give the entries to, `changes` whether changes
of the configuration come up. -/
inductive Move (told changes : Bool) : State ν α → State ν α → Prop
  | raise {s : State ν α} {T : ℕ} (h : s.term < T) :
      Move told changes s { s with term := T, vote := none }
  | cast {s : State ν α} (c : Option ν) (h : s.vote = none) :
      Move told changes s { s with vote := c }
  | append {s : State ν α} (a : α) : Move told changes s { s with entries := s.entries ++ [a] }
  | truncate {s : State ν α} {k : ℕ} (h : s.commit ≤ s.base + k) :
      Move told changes s { s with entries := s.entries.take k }
  | commit {s : State ν α} {i : ℕ} (h : s.commit ≤ i) (hlast : i ≤ s.last) :
      Move told changes s { s with commit := i }
  /-- The change that was noted is complete when its index is applied. -/
  | apply {s : State ν α} {a : α} {p : Option ℕ} (h : s.applied ≠ s.commit)
      (hentry : s.entry (s.applied + 1) = some a)
      (hp : p = s.pending ∨ p = none ∧ s.pending = some (s.applied + 1)) :
      Move told changes s (s.apply told a p)
  | note {s : State ν α} (h : changes = true) :
      Move told changes s { s with pending := some s.last }
  | forget {s : State ν α} (h : ∀ i ∈ s.pending, s.commit < i) :
      Move told changes s { s with pending := none }
  | beginSnapshot {s : State ν α} {m : ℕ} (h : m ≤ s.applied) :
      Move told changes s { s with snapshot := some m }
  | endSnapshot {s : State ν α} : Move told changes s { s with snapshot := none }
  | compact {s : State ν α} {k : ℕ}
      (h : s.base + k ≤ s.applied ∨ ∃ m ∈ s.snapshot, s.base + k ≤ m) :
      Move told changes s (s.compact k)

/-- The replica takes over a snapshot that reaches to `i`. -/
inductive Install (T i : ℕ) : State ν α → State ν α → Prop
  | mk {s : State ν α} (happlied : s.applied ≤ i) (hlast : s.last ≤ i) :
      Install T i s
        { s with
          term := T
          vote := none
          base := i
          entries := []
          commit := max s.commit i
          applied := i
          snapshot := s.snapshot.map fun _ => i }

abbrev Moves (told changes : Bool) : State ν α → State ν α → Prop :=
  Relation.ReflTransGen (Move told changes)

/-- `loads` is whether a snapshot may be installed. -/
inductive Step (told changes loads : Bool) : State ν α → State ν α → Prop
  | moves {s s' : State ν α} (h : Moves told changes s s') : Step told changes loads s s'
  | install {s s' : State ν α} {T i : ℕ} (hloads : loads = true) (h : Install T i s s') :
      Step told changes loads s s'
  | revote {s : State ν α} (c : Option ν) : Step told changes loads s { s with vote := c }

/-! ## Indices -/

structure Ordered (s : State ν α) : Prop where
  base_le : s.base ≤ s.applied
  applied_le : s.applied ≤ s.commit
  commit_le : s.commit ≤ s.last
  snapshot_le : ∀ m ∈ s.snapshot, m ≤ s.applied

section
variable {told changes loads : Bool} {s s' : State ν α} {T i : ℕ}

theorem Ordered.move (h : Ordered s) (hmove : Move told changes s s') : Ordered s' := by
  obtain ⟨hbase, happlied, hcommit, hsnapshot⟩ := h
  cases hmove with
  | raise _ => exact ⟨hbase, happlied, hcommit, hsnapshot⟩
  | cast c _ => exact ⟨hbase, happlied, hcommit, hsnapshot⟩
  | append a =>
    refine ⟨hbase, happlied, hcommit.trans ?_, hsnapshot⟩
    simp [State.last]
  | @truncate k hk =>
    refine ⟨hbase, happlied, ?_, hsnapshot⟩
    simp only [State.last, List.length_take] at hcommit ⊢
    omega
  | commit hle hlast => exact ⟨hbase, happlied.trans hle, hlast, hsnapshot⟩
  | apply hne _ _ =>
    -- applied and committed differ, so there is an entry to apply
    have hlt : s.applied + 1 ≤ s.commit := by omega
    exact ⟨Nat.le_succ_of_le hbase, hlt, hcommit, fun m hm => Nat.le_succ_of_le (hsnapshot m hm)⟩
  | note _ => exact ⟨hbase, happlied, hcommit, hsnapshot⟩
  | forget _ => exact ⟨hbase, happlied, hcommit, hsnapshot⟩
  | beginSnapshot hle =>
    refine ⟨hbase, happlied, hcommit, fun m hm => ?_⟩
    simp only [Option.mem_some_iff] at hm
    exact hm ▸ hle
  | endSnapshot => exact ⟨hbase, happlied, hcommit, nofun⟩
  | @compact k hk =>
    -- a snapshot covers applied entries only, and no more is dropped
    have hle : s.base + k ≤ s.applied := by
      obtain hk | ⟨m, hm, hk⟩ := hk
      · exact hk
      · exact hk.trans (hsnapshot m hm)
    refine ⟨hle, happlied, ?_, hsnapshot⟩
    simp only [State.last, State.compact, List.length_drop] at hcommit ⊢
    omega

theorem Ordered.install (h : Ordered s) (hinstall : Install T i s s') : Ordered s' := by
  obtain ⟨hbase, happlied, hcommit, hsnapshot⟩ := h
  cases hinstall with
  | mk hi hlast =>
    refine ⟨le_rfl, le_max_right _ _, ?_, fun m hm => ?_⟩
    · exact max_le (hcommit.trans hlast) le_rfl
    · obtain ⟨-, -, rfl⟩ := Option.map_eq_some_iff.mp hm
      exact le_rfl

structure Later (s s' : State ν α) : Prop where
  base_le : s.base ≤ s'.base
  applied_le : s.applied ≤ s'.applied
  commit_le : s.commit ≤ s'.commit
  given : s.given <+: s'.given
  kept : ∀ j, j ≤ s.commit → s'.base < j → s'.entry j = s.entry j

theorem Later.refl (s : State ν α) : Later s s :=
  ⟨le_rfl, le_rfl, le_rfl, List.prefix_rfl, fun _ _ _ => rfl⟩

theorem Later.trans {s₁ s₂ s₃ : State ν α} (h : Later s₁ s₂) (h' : Later s₂ s₃) : Later s₁ s₃ where
  base_le := h.base_le.trans h'.base_le
  applied_le := h.applied_le.trans h'.applied_le
  commit_le := h.commit_le.trans h'.commit_le
  given := h.given.trans h'.given
  kept j hj hbase :=
    (h'.kept j (hj.trans h.commit_le) hbase).trans (h.kept j hj (h'.base_le.trans_lt hbase))

/-- A change of the entries alone that leaves the first `k`. -/
theorem entry_of_take_eq {ℓ : List α} {k : ℕ} (hℓ : ℓ.take k = s.entries.take k) {j : ℕ}
    (hj : j ≤ s.base + k) (hbase : s.base < j) :
    ({ s with entries := ℓ } : State ν α).entry j = s.entry j := by
  have hlt : j - 1 - s.base < k := by omega
  unfold State.entry
  rw [if_neg (by simp only; omega), if_neg (by omega)]
  rw [← List.getElem?_take_of_lt hlt, hℓ, List.getElem?_take_of_lt hlt]

theorem entry_compact {k j : ℕ} (hbase : s.base + k < j) :
    (s.compact k).entry j = s.entry j := by
  have hidx : k + (j - 1 - (s.base + k)) = j - 1 - s.base := by omega
  show (if j ≤ s.base + k then none else (s.entries.drop k)[j - 1 - (s.base + k)]?) = s.entry j
  rw [State.entry, if_neg (by omega), if_neg (by omega), List.getElem?_drop, hidx]

theorem Later.of_move (h : Ordered s) (hmove : Move told changes s s') : Later s s' := by
  have hsame := Later.refl s
  cases hmove with
  | raise _ => exact { hsame with }
  | cast c _ => exact { hsame with }
  | append a =>
    refine { hsame with kept := fun j hj hbase => ?_ }
    refine entry_of_take_eq (k := s.entries.length) ?_ (hj.trans h.commit_le) hbase
    rw [List.take_left, List.take_length]
  | @truncate k hk =>
    refine { hsame with kept := fun j hj hbase => ?_ }
    refine entry_of_take_eq (k := k) ?_ (hj.trans hk) hbase
    rw [List.take_take, Nat.min_self]
  | commit hle _ => exact { hsame with commit_le := hle }
  | apply _ _ _ =>
    exact { hsame with applied_le := Nat.le_succ _, given := List.prefix_append .. }
  | note _ => exact { hsame with }
  | forget _ => exact { hsame with }
  | beginSnapshot _ => exact { hsame with }
  | endSnapshot => exact { hsame with }
  | compact _ =>
    exact { hsame with
      base_le := Nat.le_add_right ..
      kept := fun j _ hbase => entry_compact hbase }

/-- A snapshot reaches beyond all that was committed. -/
theorem Later.of_install (h : Ordered s) (hinstall : Install T i s s') : Later s s' := by
  cases hinstall with
  | mk hi hlast =>
    refine ⟨(Nat.le_add_right ..).trans hlast, hi, le_max_left _ _, List.prefix_rfl, ?_⟩
    intro j hj hbase
    have hcommit := h.commit_le.trans hlast
    exact absurd (hj.trans hcommit) (Nat.not_le_of_lt hbase)

theorem Ordered.moves (h : Ordered s) (hmoves : Moves told changes s s') : Ordered s' := by
  induction hmoves with
  | refl => exact h
  | tail _ hmove ih => exact ih.move hmove

theorem Ordered.step (h : Ordered s) (hstep : Step told changes loads s s') : Ordered s' := by
  cases hstep with
  | moves hmoves => exact h.moves hmoves
  | install _ hinstall => exact h.install hinstall
  | revote c => exact { h with }

theorem Later.of_moves (h : Ordered s) (hmoves : Moves told changes s s') : Later s s' := by
  induction hmoves with
  | refl => exact Later.refl s
  | tail hmoves hmove ih => exact ih.trans (Later.of_move (h.moves hmoves) hmove)

theorem Later.of_step (h : Ordered s) (hstep : Step told changes loads s s') : Later s s' := by
  cases hstep with
  | moves hmoves => exact Later.of_moves h hmoves
  | install _ hinstall => exact Later.of_install h hinstall
  | revote c => exact { Later.refl s with }

/-! ## The state machine -/

structure Told (s : State ν α) : Prop where
  sorted : (s.given.map Prod.fst).Pairwise (· < ·)
  le : ∀ x ∈ s.given, x.1 ≤ s.applied
  same : ∀ x ∈ s.given, s.base < x.1 → s.entry x.1 = some x.2

/-- Nothing more is given: what is in the log of it stays, for it is committed. -/
theorem Told.later (h : Told s) (hord : Ordered s) (hlater : Later s s')
    (hgiven : s'.given = s.given) : Told s' := by
  refine ⟨hgiven ▸ h.sorted, fun x hx => ?_, fun x hx hbase => ?_⟩
  · exact (h.le x (hgiven ▸ hx)).trans hlater.applied_le
  · have hle := h.le x (hgiven ▸ hx)
    rw [hlater.kept x.1 (hle.trans hord.applied_le) hbase]
    exact h.same x (hgiven ▸ hx) (hlater.base_le.trans_lt hbase)

theorem Told.apply (h : Told s) {a : α} (hentry : s.entry (s.applied + 1) = some a)
    (p : Option ℕ) : Told (s.apply told a p) := by
  cases told with
  | false =>
    have hgiven : (s.apply false a p).given = s.given := List.append_nil _
    refine ⟨hgiven ▸ h.sorted, fun x hx => ?_, fun x hx => h.same x (hgiven ▸ hx)⟩
    exact Nat.le_succ_of_le (h.le x (hgiven ▸ hx))
  | true =>
    have hcases : ∀ x ∈ (s.apply true a p).given, x ∈ s.given ∨ x = (s.applied + 1, a) := by
      intro x hx
      simpa [State.apply] using hx
    refine ⟨?_, fun x hx => ?_, fun x hx hbase => ?_⟩
    · show ((s.given ++ [(s.applied + 1, a)]).map Prod.fst).Pairwise (· < ·)
      rw [List.map_append, List.pairwise_append]
      refine ⟨h.sorted, List.pairwise_singleton .., fun j hj k hk => ?_⟩
      obtain ⟨x, hx, rfl⟩ := List.mem_map.mp hj
      obtain rfl : k = s.applied + 1 := by simpa using hk
      exact Nat.lt_succ_of_le (h.le x hx)
    · obtain hx | rfl := hcases x hx
      · exact Nat.le_succ_of_le (h.le x hx)
      · exact le_rfl
    · obtain hx | rfl := hcases x hx
      · exact h.same x hx hbase
      · exact hentry

theorem Told.move (h : Told s) (hord : Ordered s) (hmove : Move told changes s s') : Told s' := by
  have hlater := Later.of_move hord hmove
  cases hmove with
  | apply _ hentry _ => exact h.apply hentry _
  | note _ => exact h.later hord hlater rfl
  | forget _ => exact h.later hord hlater rfl
  | raise _ => exact h.later hord hlater rfl
  | cast c _ => exact h.later hord hlater rfl
  | append a => exact h.later hord hlater rfl
  | truncate _ => exact h.later hord hlater rfl
  | commit _ _ => exact h.later hord hlater rfl
  | beginSnapshot _ => exact h.later hord hlater rfl
  | endSnapshot => exact h.later hord hlater rfl
  | compact _ => exact h.later hord hlater rfl

theorem Told.moves (h : Told s) (hord : Ordered s) (hmoves : Moves told changes s s') :
    Told s' := by
  induction hmoves with
  | refl => exact h
  | tail hmoves hmove ih => exact ih.move (hord.moves hmoves) hmove

theorem Told.step (h : Told s) (hord : Ordered s) (hstep : Step told changes loads s s') :
    Told s' := by
  have hlater := Later.of_step hord hstep
  cases hstep with
  | moves hmoves => exact h.moves hord hmoves
  | install _ hinstall =>
    cases hinstall with
    | mk _ _ => exact h.later hord hlater rfl
  | revote c => exact h.later hord hlater rfl

/-- What is given by `s'` of the indices committed at `s` are the entries of `s`. -/
def Faithful (s s' : State ν α) : Prop :=
  ∀ x ∈ s'.given, s.base < x.1 → x.1 ≤ s.commit → s.entry x.1 = some x.2

theorem Told.faithful (h : Told s) : Faithful s s := fun x hx hbase _ => h.same x hx hbase

theorem Faithful.move {s₀ : State ν α} (h : Faithful s₀ s) (hord : Ordered s) (hlater : Later s₀ s)
    (hmove : Move told changes s s') : Faithful s₀ s' := by
  cases hmove with
  | @apply a p hne hentry _ =>
    intro x hx hbase hcommit
    have hcases : x ∈ s.given ∨ x = (s.applied + 1, a) := by
      cases told with
      | false => exact Or.inl (by simpa [State.apply] using hx)
      | true => simpa [State.apply] using hx
    obtain hx | rfl := hcases
    · exact h x hx hbase hcommit
    · -- the entry given now was committed at `s₀`, and has not changed since
      rw [← hlater.kept _ hcommit (Nat.lt_succ_of_le hord.base_le), hentry]
  | note _ => exact h
  | forget _ => exact h
  | raise _ => exact h
  | cast c _ => exact h
  | append a => exact h
  | truncate _ => exact h
  | commit _ _ => exact h
  | beginSnapshot _ => exact h
  | endSnapshot => exact h
  | compact _ => exact h

theorem Faithful.moves {s₀ : State ν α} (h : Faithful s₀ s) (hord : Ordered s)
    (hlater : Later s₀ s) (hmoves : Moves told changes s s') : Faithful s₀ s' := by
  induction hmoves with
  | refl => exact h
  | tail hmoves hmove ih =>
    exact ih.move (hord.moves hmoves) (hlater.trans (Later.of_moves hord hmoves)) hmove

theorem Faithful.step {s₀ : State ν α} (h : Faithful s₀ s) (hord : Ordered s)
    (hlater : Later s₀ s) (hstep : Step told changes loads s s') : Faithful s₀ s' := by
  cases hstep with
  | moves hmoves => exact h.moves hord hlater hmoves
  | install _ hinstall =>
    cases hinstall with
    | mk _ _ => exact h
  | revote c => exact h

/-- Every entry that was applied was given. -/
def AllTold (s : State ν α) : Prop := s.given.map Prod.fst = List.range' 1 s.applied

theorem AllTold.move (h : AllTold s) (hmove : Move true changes s s') : AllTold s' := by
  cases hmove with
  | @apply a p _ _ _ =>
    show (s.given ++ [(s.applied + 1, a)]).map Prod.fst = List.range' 1 (s.applied + 1)
    rw [List.map_append, h, List.range'_concat, Nat.one_mul, Nat.add_comm 1]
    rfl
  | note _ => exact h
  | forget _ => exact h
  | raise _ => exact h
  | cast c _ => exact h
  | append a => exact h
  | truncate _ => exact h
  | commit _ _ => exact h
  | beginSnapshot _ => exact h
  | endSnapshot => exact h
  | compact _ => exact h

theorem AllTold.moves (h : AllTold s) (hmoves : Moves true changes s s') : AllTold s' := by
  induction hmoves with
  | refl => exact h
  | tail _ hmove ih => exact ih.move hmove

theorem AllTold.step (h : AllTold s) (hstep : Step true changes false s s') : AllTold s' := by
  cases hstep with
  | moves hmoves => exact h.moves hmoves
  | install hloads _ => cases hloads
  | revote c => exact h

/-! ## Changes of the configuration -/

/-- A change noted at an index that was applied before. -/
def Stuck (i : ℕ) (s : State ν α) : Prop := s.pending = some i ∧ i ≤ s.applied

/-- It can be completed no more, nor forgotten. -/
theorem Stuck.move (h : Stuck i s) (hord : Ordered s) (hmove : Move told false s s') :
    Stuck i s' := by
  obtain ⟨hpending, hle⟩ := h
  cases hmove with
  | @apply a p hne hentry hp =>
    refine ⟨?_, Nat.le_succ_of_le hle⟩
    obtain rfl | ⟨-, hnext⟩ := hp
    · exact hpending
    · -- only the index applied next would complete it, and `i` is behind
      rw [hpending, Option.some.injEq] at hnext
      omega
  | note hfalse => cases hfalse
  | forget hall =>
    have hlt := hall i hpending
    exact absurd (hle.trans hord.applied_le) (Nat.not_le_of_lt hlt)
  | raise _ => exact ⟨hpending, hle⟩
  | cast c _ => exact ⟨hpending, hle⟩
  | append a => exact ⟨hpending, hle⟩
  | truncate _ => exact ⟨hpending, hle⟩
  | commit _ _ => exact ⟨hpending, hle⟩
  | beginSnapshot _ => exact ⟨hpending, hle⟩
  | endSnapshot => exact ⟨hpending, hle⟩
  | compact _ => exact ⟨hpending, hle⟩

theorem Stuck.moves (h : Stuck i s) (hord : Ordered s) (hmoves : Moves told false s s') :
    Stuck i s' := by
  induction hmoves with
  | refl => exact h
  | tail hmoves hmove ih => exact ih.move (hord.moves hmoves) hmove

theorem Stuck.step (h : Stuck i s) (hord : Ordered s) (hstep : Step told false loads s s') :
    Stuck i s' := by
  cases hstep with
  | moves hmoves => exact h.moves hord hmoves
  | install _ hinstall =>
    cases hinstall with
    | mk hreach _ => exact ⟨h.1, h.2.trans hreach⟩
  | revote c => exact h

/-! ## Votes -/

structure Ballot (s s' : State ν α) : Prop where
  term_le : s.term ≤ s'.term
  final : s.term = s'.term → s.vote ≠ none → s'.vote = s.vote

theorem Ballot.refl (s : State ν α) : Ballot s s := ⟨le_rfl, fun _ _ => rfl⟩

theorem Ballot.trans {s₁ s₂ s₃ : State ν α} (h : Ballot s₁ s₂) (h' : Ballot s₂ s₃) :
    Ballot s₁ s₃ where
  term_le := h.term_le.trans h'.term_le
  final hterm hvote := by
    have hfirst : s₁.term = s₂.term := le_antisymm h.term_le (hterm ▸ h'.term_le)
    have hsame := h.final hfirst hvote
    rw [← hsame] at hvote
    rw [h'.final (hfirst.symm.trans hterm) hvote, hsame]

theorem Ballot.of_move (hmove : Move told changes s s') : Ballot s s' := by
  cases hmove with
  | raise h => exact ⟨h.le, fun heq => absurd heq h.ne⟩
  | cast c h => exact ⟨le_rfl, fun _ hvote => absurd h hvote⟩
  | append a => exact ⟨le_rfl, fun _ _ => rfl⟩
  | truncate _ => exact ⟨le_rfl, fun _ _ => rfl⟩
  | commit _ _ => exact ⟨le_rfl, fun _ _ => rfl⟩
  | apply _ _ _ => exact ⟨le_rfl, fun _ _ => rfl⟩
  | note _ => exact ⟨le_rfl, fun _ _ => rfl⟩
  | forget _ => exact ⟨le_rfl, fun _ _ => rfl⟩
  | beginSnapshot _ => exact ⟨le_rfl, fun _ _ => rfl⟩
  | endSnapshot => exact ⟨le_rfl, fun _ _ => rfl⟩
  | compact _ => exact ⟨le_rfl, fun _ _ => rfl⟩

theorem Ballot.of_moves (hmoves : Moves told changes s s') : Ballot s s' := by
  induction hmoves with
  | refl => exact Ballot.refl s
  | tail _ hmove ih => exact ih.trans (Ballot.of_move hmove)

theorem Install.term_eq (hinstall : Install T i s s') : s'.term = T := by
  cases hinstall with
  | mk _ _ => rfl

end

end Replica
