import Mathlib.Data.Set.Insert
import Mathlib.Data.List.Infix
import Mathlib.Logic.Function.Basic
import Mathlib.Logic.Relation

/-!
# A replicated log with one leader in a term

Nodes keep a log each and pass through terms. In a term a node may stand with its log, every node
votes at most once, and who has the votes of a quorum leads the term: its log, `chain T`, grows by
its own entries only, and the others copy it. A copy is acknowledged, and a prefix of `chain T`
that ends in an entry of the term `T` is committed once a quorum acknowledged it.

The state carries, beside what the nodes know, the history of the terms: who stood with which
log, who voted for whom with which log, whose log led, what was acknowledged and what was
committed. Nothing is ever taken out of the history, so what a message said when it was sent can
be said in terms of it for ever.

* `Step` — what a node can do;
* `Inv` — the invariant: `History` of the terms, `Local` of each node;
* `Inv.leader_unique`, `Inv.log_matching`, `Inv.committed_prefix`, `Inv.agree` — what it is for,
  each over two states of one run.
-/

namespace Consensus

open Function

inductive Role where
  | follower
  | candidate
  | leader
  deriving DecidableEq, Repr

/-- Which sets of nodes decide: any two of them have a node in common. -/
structure Quorums (N : Type*) where
  IsQuorum : Set N → Prop
  inter : ∀ {A B : Set N}, IsQuorum A → IsQuorum B → (A ∩ B).Nonempty
  mono : ∀ {A B : Set N}, A ⊆ B → IsQuorum A → IsQuorum B

theorem exists_of_countP_lt {α : Type*} (p q : α → Bool) {l : List α}
    (h : l.length < l.countP p + l.countP q) : ∃ x ∈ l, p x = true ∧ q x = true := by
  induction l with
  | nil => exact absurd h (by simp)
  | cons x l ih =>
    by_cases hx : p x = true ∧ q x = true
    · exact ⟨x, List.mem_cons_self .., hx⟩
    · have hlt : l.length < l.countP p + l.countP q := by
        rw [List.length_cons, List.countP_cons, List.countP_cons] at h
        split at h <;> split at h
        · exact absurd ⟨‹_›, ‹_›⟩ hx
        all_goals omega
      obtain ⟨y, hy, hpq⟩ := ih hlt
      exact ⟨y, List.mem_cons_of_mem _ hy, hpq⟩

open scoped Classical in
/-- The majorities of a list of nodes. -/
noncomputable def Quorums.majority {N : Type*} (nodes : List N) : Quorums N where
  IsQuorum A := nodes.length / 2 < nodes.countP fun v => decide (v ∈ A)
  inter {A B} hA hB := by
    have hlt : nodes.length < nodes.countP (fun v => decide (v ∈ A))
        + nodes.countP fun v => decide (v ∈ B) := by omega
    obtain ⟨v, -, hvA, hvB⟩ := exists_of_countP_lt _ _ hlt
    exact ⟨v, of_decide_eq_true hvA, of_decide_eq_true hvB⟩
  mono hAB hA := by
    refine Nat.lt_of_lt_of_le hA (List.countP_mono_left fun v _ hv => ?_)
    exact decide_eq_true (hAB (of_decide_eq_true hv))

/-- What happened in the terms so far, for nodes `N` and entries `E`. -/
structure Hist (N E : Type*) where
  /-- The log with which a node stood for a term. -/
  stood : Nat × N → Option (List E)
  /-- For whom a node voted in a term, with its own log unless the term had a leader already. -/
  vote : Nat × N → Option (N × Option (List E))
  /-- Who led a term. -/
  lead : Nat → Option N
  /-- The log of the leader of a term. -/
  chain : Nat → List E
  /-- `(T, v, m)`: in the term `T`, `v` held the first `m` entries of `chain T`. -/
  acks : Set (Nat × N × Nat)
  /-- `(T, i)`: the first `i` entries of `chain T` are committed. -/
  committed : Set (Nat × Nat)

/-- The history, and what each node knows. -/
structure Sys (N E : Type*) extends Hist N E where
  term : N → Nat
  role : N → Role
  log : N → List E
  commit : N → Nat

variable {N E : Type*} (termOf : E → Nat)

/-- The term of the last entry, 0 without one. -/
def lastTerm (ℓ : List E) : Nat := (ℓ.getLast?.map termOf).getD 0

/-- `ℓ` is at least as up to date as `ℓ'`. -/
def UpToDate (ℓ ℓ' : List E) : Prop :=
  lastTerm termOf ℓ' < lastTerm termOf ℓ
    ∨ lastTerm termOf ℓ' = lastTerm termOf ℓ ∧ ℓ'.length ≤ ℓ.length

/-- Two logs have different entries somewhere. -/
def Conflict (ℓ ℓ' : List E) : Prop :=
  ∃ (j : Nat) (e e' : E), ℓ[j]? = some e ∧ ℓ'[j]? = some e' ∧ e ≠ e'

namespace Hist

/-- Who voted for `c` in the term `T`. -/
def voters (h : Hist N E) (T : Nat) (c : N) : Set N := {w | ∃ x, h.vote (T, w) = some (c, x)}

/-- Who voted for `c` in the term `T` before it had a leader. -/
def electors (h : Hist N E) (T : Nat) (c : N) : Set N :=
  {w | ∃ ℓ, h.vote (T, w) = some (c, some ℓ)}

/-- Who acknowledged the first `i` entries in the term `T`. -/
def holders (h : Hist N E) (T i : Nat) : Set N := {w | ∃ m, i ≤ m ∧ (T, w, m) ∈ h.acks}

end Hist

/-- Everyone follows, in the term 0 and with an empty log. -/
def Sys.init : Sys N E where
  term _ := 0
  role _ := .follower
  log _ := []
  commit _ := 0
  stood _ := none
  vote _ := none
  lead _ := none
  chain _ := []
  acks := ∅
  committed := ∅

variable [DecidableEq N] (Q : Quorums N)

open scoped Classical in
/-- What the node `v` can do. -/
inductive Step (v : N) : Sys N E → Sys N E → Prop
  /-- It learns of a later term. -/
  | advance {s : Sys N E} {T : Nat} (hT : s.term v < T) :
      Step v s { s with term := update s.term v T, role := update s.role v .follower }
  /-- A candidate gives up. -/
  | yield {s : Sys N E} (hrole : s.role v = .candidate) :
      Step v s { s with role := update s.role v .follower }
  | stand {s : Sys N E} {T : Nat} (hT : s.term v < T) :
      Step v s { s with
        term := update s.term v T
        role := update s.role v .candidate
        stood := update s.stood (T, v) (some (s.log v)) }
  | cast {s : Sys N E} {c : N} {ℓ : List E} (hnone : s.vote (s.term v, v) = none)
      (hstood : s.stood (s.term v, c) = some ℓ) (hup : UpToDate termOf ℓ (s.log v)) :
      Step v s { s with
        vote := update s.vote (s.term v, v)
          (some (c, if s.lead (s.term v) = none then some (s.log v) else none)) }
  | elect {s : Sys N E} (hrole : s.role v = .candidate)
      (hquorum : Q.IsQuorum (s.voters (s.term v) v)) :
      Step v s { s with
        role := update s.role v .leader
        lead := update s.lead (s.term v) (some v)
        chain := update s.chain (s.term v) (s.log v) }
  /-- The leader adds an entry of its own. -/
  | append {s : Sys N E} {e : E} (hrole : s.role v = .leader) (he : termOf e = s.term v) :
      Step v s { s with
        log := update s.log v (s.log v ++ [e])
        chain := update s.chain (s.term v) (s.log v ++ [e]) }
  /-- A follower drops entries, none of them before the first that is not its leader's. -/
  | truncate {s : Sys N E} {j k : Nat} {e e' : E} (hrole : s.role v = .follower)
      (he : (s.log v)[j]? = some e) (he' : (s.chain (s.term v))[j]? = some e')
      (hne : termOf e ≠ termOf e') (hk : j ≤ k) :
      Step v s { s with log := update s.log v ((s.log v).take k) }
  /-- A follower that has nothing but entries of its leader copies one more. -/
  | extend {s : Sys N E} {e : E} (hrole : s.role v = .follower)
      (hchain : s.log v ++ [e] <+: s.chain (s.term v)) :
      Step v s { s with log := update s.log v (s.log v ++ [e]) }
  | ack {s : Sys N E} {m : Nat} (hm : m ≤ (s.chain (s.term v)).length)
      (hlog : (s.chain (s.term v)).take m <+: s.log v) :
      Step v s { s with acks := insert (s.term v, v, m) s.acks }
  | commit {s : Sys N E} {i : Nat} {e : E} (hrole : s.role v = .leader)
      (he : (s.log v)[i]? = some e) (hterm : termOf e = s.term v)
      (hquorum : Q.IsQuorum (s.holders (s.term v) (i + 1))) :
      Step v s { s with
        commit := update s.commit v (i + 1)
        committed := insert (s.term v, i + 1) s.committed }
  /-- It hears that a prefix of its log is committed. -/
  | learn {s : Sys N E} {T i k : Nat} (hcommitted : (T, i) ∈ s.committed) (hT : T ≤ s.term v)
      (hk : k ≤ i) (hlog : (s.chain T).take k <+: s.log v) :
      Step v s { s with commit := update s.commit v k }

/-! ## The invariant -/

/-- Every entry of `ℓ` was copied from the leader of its term, with all that is before it. -/
def Grounded (h : Hist N E) (ℓ : List E) : Prop :=
  ∀ i e, ℓ[i]? = some e → ℓ.take (i + 1) <+: h.chain (termOf e)

/-- `ℓ` has kept what was acknowledged in the term `T` up to `m`, but for what a leader of a later
term, not after `B`, took away. -/
def Kept (h : Hist N E) (T m B : Nat) (ℓ : List E) : Prop :=
  ∀ i, i ≤ m → (h.chain T).take i <+: ℓ
    ∨ ∃ t, T < t ∧ t ≤ B ∧ Conflict ((h.chain T).take i) (h.chain t)

/-- The invariant of the history. -/
structure History (h : Hist N E) : Prop where
  stood_lt : ∀ T c ℓ, h.stood (T, c) = some ℓ → ∀ e ∈ ℓ, termOf e < T
  vote_early : ∀ T v c ℓ', h.vote (T, v) = some (c, some ℓ') →
    ∃ ℓ, h.stood (T, c) = some ℓ ∧ UpToDate termOf ℓ ℓ'
  vote_late : ∀ T v c, h.vote (T, v) = some (c, none) → h.lead T ≠ none
  elected : ∀ T c, h.lead T = some c → Q.IsQuorum (h.electors T c) ∧
    ∃ ℓ, h.stood (T, c) = some ℓ ∧ ℓ <+: h.chain T
  chain_nil : ∀ T, h.lead T = none → h.chain T = []
  chain_le : ∀ T, ∀ e ∈ h.chain T, termOf e ≤ T
  grounded_chain : ∀ T, Grounded termOf h (h.chain T)
  grounded_stood : ∀ T c ℓ, h.stood (T, c) = some ℓ → Grounded termOf h ℓ
  grounded_vote : ∀ T v c ℓ, h.vote (T, v) = some (c, some ℓ) → Grounded termOf h ℓ
  ack_le : ∀ T v m, (T, v, m) ∈ h.acks → m ≤ (h.chain T).length
  kept_vote : ∀ T v m T' c ℓ, (T, v, m) ∈ h.acks → T < T' →
    h.vote (T', v) = some (c, some ℓ) → Kept h T m (T' - 1) ℓ
  committed_ok : ∀ T i, (T, i + 1) ∈ h.committed → Q.IsQuorum (h.holders T (i + 1)) ∧
    ∃ e, (h.chain T)[i]? = some e ∧ termOf e = T
  committed_pos : ∀ T i, (T, i) ∈ h.committed → 0 < i

/-- The invariant of a node. -/
structure Local (s : Sys N E) (v : N) : Prop where
  stood_le : ∀ T ℓ, s.stood (T, v) = some ℓ → T ≤ s.term v
  vote_le : ∀ T x, s.vote (T, v) = some x → T ≤ s.term v
  lead_le : ∀ T, s.lead T = some v → T ≤ s.term v
  ack_le : ∀ T m, (T, v, m) ∈ s.acks → T ≤ s.term v
  candidate : s.role v = .candidate → s.stood (s.term v, v) = some (s.log v)
  leader : s.role v = .leader → s.lead (s.term v) = some v
  leads : s.lead (s.term v) = some v → s.role v = .leader
  chain : s.lead (s.term v) = some v → s.chain (s.term v) = s.log v
  log_le : ∀ e ∈ s.log v, termOf e ≤ s.term v
  grounded : Grounded termOf s.toHist (s.log v)
  kept : ∀ T m, (T, v, m) ∈ s.acks → Kept s.toHist T m (s.term v) (s.log v)
  known : s.commit v = 0 ∨ ∃ T i, (T, i) ∈ s.committed ∧ T ≤ s.term v ∧ s.commit v ≤ i ∧
    (s.chain T).take (s.commit v) <+: s.log v

structure Inv (s : Sys N E) : Prop where
  hist : History termOf Q s.toHist
  node : ∀ v, Local termOf s v

/-! ## Prefixes -/

section Prefixes
variable {termOf : E → Nat}

theorem prefix_getElem? {ℓ ℓ' : List E} (h : ℓ <+: ℓ') {j : Nat} {e : E} (he : ℓ[j]? = some e) :
    ℓ'[j]? = some e := by
  obtain ⟨rest, rfl⟩ := h
  rw [List.getElem?_append_left (List.getElem?_eq_some_iff.mp he).1, he]

/-- A prefix has no conflict with what it is a prefix of. -/
theorem Conflict.not_prefix {ℓ ℓ' : List E} (h : Conflict ℓ ℓ') : ¬ℓ <+: ℓ' := by
  obtain ⟨j, e, e', he, he', hne⟩ := h
  intro hpre
  exact hne (Option.some.inj ((prefix_getElem? hpre he).symm.trans he'))

theorem Conflict.mono {ℓ ℓ' ℓ'' : List E} (h : Conflict ℓ ℓ') (hpre : ℓ' <+: ℓ'') :
    Conflict ℓ ℓ'' := by
  obtain ⟨j, e, e', he, he', hne⟩ := h
  exact ⟨j, e, e', he, prefix_getElem? hpre he', hne⟩

theorem take_eq_of_isPrefix {ℓ ℓ' : List E} (h : ℓ <+: ℓ') {i : Nat} (hi : i ≤ ℓ.length) :
    ℓ'.take i = ℓ.take i := by
  obtain ⟨rest, rfl⟩ := h
  exact List.take_append_of_le_length hi

theorem getElem?_take_some {ℓ : List E} {i j : Nat} {e : E} (h : (ℓ.take i)[j]? = some e) :
    j < i ∧ ℓ[j]? = some e := by
  have hlt := (List.getElem?_eq_some_iff.mp h).1
  rw [List.length_take] at hlt
  rw [List.getElem?_take_of_lt (by omega)] at h
  exact ⟨by omega, h⟩

theorem lastTerm_eq {ℓ : List E} {e : E} (h : ℓ.getLast? = some e) :
    lastTerm termOf ℓ = termOf e := by
  rw [lastTerm, h]
  rfl

end Prefixes

/-! ## The history only grows -/

/-- What was true of the history stays true. -/
structure Grow (h h' : Hist N E) : Prop where
  stood : ∀ p ℓ, h.stood p = some ℓ → h'.stood p = some ℓ
  vote : ∀ p x, h.vote p = some x → h'.vote p = some x
  lead : ∀ T c, h.lead T = some c → h'.lead T = some c
  chain : ∀ T, h.chain T <+: h'.chain T
  acks : h.acks ⊆ h'.acks
  committed : h.committed ⊆ h'.committed

namespace Grow

variable {termOf} {h h' h'' : Hist N E}

omit [DecidableEq N]

theorem refl (h : Hist N E) : Grow h h where
  stood _ _ hp := hp
  vote _ _ hp := hp
  lead _ _ hc := hc
  chain _ := List.prefix_rfl
  acks := subset_rfl
  committed := subset_rfl

theorem trans (hg : Grow h h') (hg' : Grow h' h'') : Grow h h'' where
  stood p ℓ hp := hg'.stood p ℓ (hg.stood p ℓ hp)
  vote p x hp := hg'.vote p x (hg.vote p x hp)
  lead T c hc := hg'.lead T c (hg.lead T c hc)
  chain T := (hg.chain T).trans (hg'.chain T)
  acks := hg.acks.trans hg'.acks
  committed := hg.committed.trans hg'.committed

theorem lead_ne_none (hg : Grow h h') {T : Nat} (hT : h.lead T ≠ none) : h'.lead T ≠ none := by
  obtain ⟨c, hc⟩ := Option.ne_none_iff_exists'.mp hT
  rw [hg.lead T c hc]
  exact Option.some_ne_none c

theorem grounded (hg : Grow h h') {ℓ : List E} (hℓ : Grounded termOf h ℓ) :
    Grounded termOf h' ℓ := by
  intro i e he
  exact (hℓ i e he).trans (hg.chain _)

theorem kept (hg : Grow h h') {T m B B' : Nat} {ℓ : List E} (hm : m ≤ (h.chain T).length)
    (hB : B ≤ B') (hℓ : Kept h T m B ℓ) : Kept h' T m B' ℓ := by
  intro i hi
  rw [take_eq_of_isPrefix (hg.chain T) (hi.trans hm)]
  obtain hpre | ⟨t, hTt, htB, hconflict⟩ := hℓ i hi
  · exact Or.inl hpre
  · exact Or.inr ⟨t, hTt, htB.trans hB, hconflict.mono (hg.chain t)⟩

theorem electors (hg : Grow h h') (T : Nat) (c : N) : h.electors T c ⊆ h'.electors T c := by
  rintro w ⟨ℓ, hw⟩
  exact ⟨ℓ, hg.vote _ _ hw⟩

theorem holders (hg : Grow h h') (T i : Nat) : h.holders T i ⊆ h'.holders T i := by
  rintro w ⟨m, hm, hw⟩
  exact ⟨m, hm, hg.acks hw⟩

end Grow

/-! ## What the invariant says -/

namespace History

variable {termOf} {Q} {s : Hist N E}

omit [DecidableEq N]

/-- Grounded logs with entries of one term in one place are equal up to there. -/
theorem matching {ℓ ℓ' : List E} (hℓ : Grounded termOf s ℓ) (hℓ' : Grounded termOf s ℓ')
    {i : Nat} {e e' : E} (he : ℓ[i]? = some e) (he' : ℓ'[i]? = some e')
    (hterm : termOf e = termOf e') : ℓ.take (i + 1) = ℓ'.take (i + 1) := by
  have hpre := hℓ i e he
  have hpre' := hℓ' i e' he'
  rw [hterm] at hpre
  have hlen : (ℓ.take (i + 1)).length = (ℓ'.take (i + 1)).length := by
    have hlt := (List.getElem?_eq_some_iff.mp he).1
    have hlt' := (List.getElem?_eq_some_iff.mp he').1
    rw [List.length_take, List.length_take]
    omega
  exact (List.prefix_of_prefix_length_le hpre hpre' (Nat.le_of_eq hlen)).eq_of_length hlen

/-- A grounded log is a prefix of the log that led the term of its last entry. -/
theorem prefix_chain_lastTerm {ℓ : List E} (hℓ : Grounded termOf s ℓ) {e : E}
    (he : ℓ.getLast? = some e) : ℓ <+: s.chain (termOf e) := by
  rw [List.getLast?_eq_getElem?] at he
  have hlt := (List.getElem?_eq_some_iff.mp he).1
  have hpre := hℓ _ e he
  rwa [List.take_of_length_le (by omega)] at hpre

theorem lead_ne_none_of_mem (h : History termOf Q s) {T j : Nat} {e : E}
    (he : (s.chain T)[j]? = some e) : s.lead T ≠ none := by
  intro hnone
  rw [h.chain_nil T hnone] at he
  cases he

theorem committed_le (h : History termOf Q s) {T i : Nat} (hi : (T, i) ∈ s.committed) :
    i ≤ (s.chain T).length := by
  obtain ⟨n, rfl⟩ := Nat.exists_eq_add_of_lt (h.committed_pos T i hi)
  rw [Nat.zero_add] at hi ⊢
  obtain ⟨-, e, he, -⟩ := h.committed_ok T n hi
  exact (List.getElem?_eq_some_iff.mp he).1

/-- A candidate's log that is up to date with a log that holds a committed prefix holds it too,
when the leaders between hold it. -/
theorem prefix_of_upToDate (h : History termOf Q s) {T T' i : Nat} {ℓ ℓ' : List E} {e : E}
    (he : (s.chain T)[i]? = some e) (hterm : termOf e = T) (hℓ : Grounded termOf s ℓ)
    (hℓ' : Grounded termOf s ℓ') (hlt : ∀ x ∈ ℓ, termOf x < T')
    (hmid : ∀ t, T < t → t < T' → s.lead t ≠ none → (s.chain T).take (i + 1) <+: s.chain t)
    (hpre : (s.chain T).take (i + 1) <+: ℓ') (hup : UpToDate termOf ℓ ℓ') :
    (s.chain T).take (i + 1) <+: ℓ := by
  have hi := (List.getElem?_eq_some_iff.mp he).1
  have hlen : ((s.chain T).take (i + 1)).length = i + 1 := by
    rw [List.length_take]
    omega
  have hi' : i + 1 ≤ ℓ'.length := hlen ▸ hpre.length_le
  have htake : ((s.chain T).take (i + 1))[i]? = some e := by
    rw [List.getElem?_take_of_lt (Nat.lt_succ_self i), he]
  -- the entry of the term `T` in `ℓ'` bounds the term of its last entry from below
  obtain ⟨last', hlast'⟩ : ∃ x, ℓ'.getLast? = some x :=
    Option.ne_none_iff_exists'.mp (fun hnil => by
      rw [List.getLast?_eq_none_iff.mp hnil] at hi'
      exact absurd hi' (by simp))
  have hchain' := prefix_chain_lastTerm hℓ' hlast'
  have hge : T ≤ termOf last' := by
    have hmem := List.mem_of_getElem? (prefix_getElem? (hpre.trans hchain') htake)
    rw [← hterm]
    exact h.chain_le _ _ hmem
  have hpos : ℓ.getLast? ≠ none := by
    intro hnil
    rw [List.getLast?_eq_none_iff.mp hnil] at hup
    obtain hlast | ⟨-, hle⟩ := hup
    · exact absurd hlast (Nat.not_lt_zero _)
    · exact absurd (hi'.trans hle) (by simp)
  obtain ⟨last, hlast⟩ := Option.ne_none_iff_exists'.mp hpos
  have hchain := prefix_chain_lastTerm hℓ hlast
  unfold UpToDate at hup
  rw [lastTerm_eq hlast, lastTerm_eq hlast'] at hup
  obtain hlater | ⟨hsame, hle⟩ := hup
  · -- a later last term: the leader of that term held the prefix, and `ℓ` reaches beyond it
    have hlead : s.lead (termOf last) ≠ none := by
      rw [List.getLast?_eq_getElem?] at hlast
      exact h.lead_ne_none_of_mem (prefix_getElem? hchain hlast)
    have hheld := hmid _ (by omega) (hlt last (List.mem_of_getLast? hlast)) hlead
    refine List.prefix_of_prefix_length_le hheld hchain ?_
    rw [hlen]
    by_contra hshort
    rw [List.getLast?_eq_getElem?] at hlast
    have hbound := (List.getElem?_eq_some_iff.mp hlast).1
    have hsame : ((s.chain T).take (i + 1))[ℓ.length - 1]? = some last := by
      have hx := prefix_getElem? hchain hlast
      obtain ⟨rest, hrest⟩ := hheld
      rw [← hrest, List.getElem?_append_left (by omega)] at hx
      exact hx
    have hmem := List.mem_of_getElem? (getElem?_take_some hsame).2
    have hT := h.chain_le T last hmem
    omega
  · -- the same last term: both are prefixes of the log that led it
    rw [hsame] at hchain'
    exact hpre.trans (List.prefix_of_prefix_length_le hchain' hchain hle)

/-- What is committed in a term, the leaders of all later terms hold. -/
theorem leader_complete (h : History termOf Q s) {T i : Nat} (hcommitted : (T, i) ∈ s.committed)
    {T' : Nat} (hT : T < T') (hlead : s.lead T' ≠ none) :
    (s.chain T).take i <+: s.chain T' := by
  obtain ⟨n, rfl⟩ := Nat.exists_eq_add_of_lt (h.committed_pos T i hcommitted)
  rw [Nat.zero_add] at hcommitted ⊢
  obtain ⟨hholders, e, he, hterm⟩ := h.committed_ok T n hcommitted
  induction T' using Nat.strong_induction_on with
  | _ T' ih =>
    obtain ⟨c, hc⟩ := Option.ne_none_iff_exists'.mp hlead
    obtain ⟨helectors, ℓ, hstood, hprefix⟩ := h.elected T' c hc
    -- somebody acknowledged the prefix and then helped to elect the leader
    obtain ⟨w, ⟨m, hm, hack⟩, ℓ', hvote⟩ := Q.inter hholders helectors
    obtain ⟨ℓ₁, hstood₁, hup⟩ := h.vote_early T' w c ℓ' hvote
    obtain rfl : ℓ = ℓ₁ := Option.some.inj (hstood.symm.trans hstood₁)
    have hmid : ∀ t, T < t → t < T' → s.lead t ≠ none → (s.chain T).take (n + 1) <+: s.chain t :=
      fun t hTt htT' ht => ih t htT' hTt ht
    have hheld : (s.chain T).take (n + 1) <+: ℓ' := by
      obtain hpre | ⟨t, hTt, htT', hconflict⟩ := h.kept_vote T w m T' c ℓ' hack hT hvote (n + 1) hm
      · exact hpre
      · have hnot := hconflict.not_prefix
        obtain ⟨j, x, x', -, hx', -⟩ := hconflict
        exact absurd (hmid t hTt (by omega) (h.lead_ne_none_of_mem hx')) hnot
    exact (h.prefix_of_upToDate he hterm (h.grounded_stood _ _ _ hstood)
      (h.grounded_vote _ _ _ _ hvote) (h.stood_lt _ _ _ hstood) hmid hheld hup).trans hprefix

theorem committed_prefix (h : History termOf Q s) {T i T' : Nat} (hcommitted : (T, i) ∈ s.committed)
    (hT : T ≤ T') (hlead : s.lead T' ≠ none) : (s.chain T).take i <+: s.chain T' := by
  obtain rfl | hlt := Nat.eq_or_lt_of_le hT
  · exact List.take_prefix ..
  · exact h.leader_complete hcommitted hlt hlead

theorem lead_of_committed (h : History termOf Q s) {T i : Nat} (hi : (T, i) ∈ s.committed) :
    s.lead T ≠ none := by
  obtain ⟨n, rfl⟩ := Nat.exists_eq_add_of_lt (h.committed_pos T i hi)
  rw [Nat.zero_add] at hi
  obtain ⟨-, e, he, -⟩ := h.committed_ok T n hi
  exact h.lead_ne_none_of_mem he

/-- Two committed prefixes are prefixes of one log. -/
theorem committed_agree (h : History termOf Q s) {T i T' i' : Nat} (hi : (T, i) ∈ s.committed)
    (hi' : (T', i') ∈ s.committed) {k : Nat} (hk : k ≤ i) (hk' : k ≤ i') :
    (s.chain T).take k = (s.chain T').take k := by
  -- the later of the two terms has both
  have key : ∀ {T i T' i' : Nat}, (T, i) ∈ s.committed → (T', i') ∈ s.committed → T ≤ T' →
      k ≤ i → (s.chain T).take k = (s.chain T').take k := by
    intro T i T' i' hi hi' hT hk
    have hpre := h.committed_prefix hi hT (h.lead_of_committed hi')
    have hlen : k ≤ ((s.chain T).take i).length := by
      rw [List.length_take]
      exact Nat.le_min.mpr ⟨hk, hk.trans (h.committed_le hi)⟩
    rw [take_eq_of_isPrefix hpre hlen, List.take_take, Nat.min_eq_left hk]
  obtain hle | hle := Nat.le_total T T'
  · exact key hi hi' hle hk
  · exact (key hi' hi hle hk').symm

end History

namespace Inv

variable {termOf} {Q} {s s' : Sys N E}

omit [DecidableEq N]

theorem commit_le (h : Inv termOf Q s) (v : N) : s.commit v ≤ (s.log v).length := by
  obtain hzero | ⟨T, i, hi, -, hle, hpre⟩ := (h.node v).known
  · omega
  · have hlen := hpre.length_le
    rw [List.length_take] at hlen
    have := h.hist.committed_le hi
    omega

/-- What a node takes for committed is a part of what is committed in a term it has reached. -/
theorem committed_take (h : Inv termOf Q s) {v : N} {k : Nat} (hpos : 0 < k)
    (hk : k ≤ s.commit v) :
    ∃ T i, (T, i) ∈ s.committed ∧ T ≤ s.term v ∧ k ≤ i ∧
      (s.log v).take k = (s.chain T).take k := by
  obtain hzero | ⟨T, i, hi, hT, hle, hpre⟩ := (h.node v).known
  · omega
  · refine ⟨T, i, hi, hT, hk.trans hle, ?_⟩
    have hlen := h.hist.committed_le hi
    rw [take_eq_of_isPrefix hpre (by rw [List.length_take]; omega), List.take_take,
      Nat.min_eq_left hk]

/-! In what follows `s` is some state and `s'` the same or a later one. -/

/-- A term has one leader. -/
theorem leader_unique (h : Inv termOf Q s) (h' : Inv termOf Q s') (hg : Grow s.toHist s'.toHist)
    {v w : N} (hv : s.role v = .leader) (hw : s'.role w = .leader)
    (hterm : s.term v = s'.term w) : v = w := by
  have hlead := hg.lead _ _ ((h.node v).leader hv)
  rw [hterm, (h'.node w).leader hw] at hlead
  exact (Option.some.inj hlead).symm

theorem log_matching (h : Inv termOf Q s) (h' : Inv termOf Q s') (hg : Grow s.toHist s'.toHist)
    {v w : N} {i : Nat} {e e' : E} (he : (s.log v)[i]? = some e) (he' : (s'.log w)[i]? = some e')
    (hterm : termOf e = termOf e') : (s.log v).take (i + 1) = (s'.log w).take (i + 1) :=
  History.matching (hg.grounded (h.node v).grounded) (h'.node w).grounded he he' hterm

/-- What a node takes for committed is in the log of every leader of a term that is not
earlier. -/
theorem committed_prefix (h : Inv termOf Q s) (h' : Inv termOf Q s')
    (hg : Grow s.toHist s'.toHist) {v : N} {T' : Nat} (hterm : s.term v ≤ T')
    (hlead : s'.lead T' ≠ none) : (s.log v).take (s.commit v) <+: s'.chain T' := by
  obtain hzero | hpos := Nat.eq_zero_or_pos (s.commit v)
  · rw [hzero]
    exact List.nil_prefix
  obtain ⟨T, i, hi, hT, hle, htake⟩ := h.committed_take hpos (Nat.le_refl _)
  have hheld := h'.hist.committed_prefix (hg.committed hi) (hT.trans hterm) hlead
  rw [take_eq_of_isPrefix (hg.chain T) (h.hist.committed_le hi)] at hheld
  rw [htake]
  exact (List.take_prefix_take_left hle).trans hheld

/-- What two nodes take for committed is the same. -/
theorem agree (h : Inv termOf Q s) (h' : Inv termOf Q s') (hg : Grow s.toHist s'.toHist)
    {v w : N} {k : Nat} (hv : k ≤ s.commit v) (hw : k ≤ s'.commit w) :
    (s.log v).take k = (s'.log w).take k := by
  obtain rfl | hpos := Nat.eq_zero_or_pos k
  · rfl
  obtain ⟨T, i, hi, -, hle, htake⟩ := h.committed_take hpos hv
  obtain ⟨T', i', hi', -, hle', htake'⟩ := h'.committed_take hpos hw
  rw [htake, htake', ← h'.hist.committed_agree (hg.committed hi) hi' hle hle',
    take_eq_of_isPrefix (hg.chain T) (hle.trans (h.hist.committed_le hi))]

end Inv

end Consensus
