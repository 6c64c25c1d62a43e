import HomeKeeper.Lib.Consensus

/-!
# Every step keeps the invariant

A step of `v` lets the history grow (`Step.grow`) and leaves the other nodes alone (`Step.frame`),
so their part of the invariant carries over (`Frame.keeps`). What is left is the history where it
changes, and the node `v`: one lemma a step.
-/

namespace Consensus

open Function

variable {N E : Type*} {termOf : E → Nat} {Q : Quorums N} {s s' : Sys N E} {v w : N}

/-! ## Elections -/

/-- Who has the votes of a quorum finds the term without a leader. -/
theorem Inv.lead_none (h : Inv termOf Q s) (hrole : s.role v = .candidate)
    (hquorum : Q.IsQuorum (s.voters (s.term v) v)) : s.lead (s.term v) = none := by
  by_contra hlead
  obtain ⟨c, hc⟩ := Option.ne_none_iff_exists'.mp hlead
  obtain ⟨w, ⟨x, hx⟩, ℓ, hℓ⟩ := Q.inter hquorum (h.hist.elected _ c hc).1
  rw [hx, Option.some.injEq, Prod.mk.injEq] at hℓ
  obtain ⟨rfl, -⟩ := hℓ
  have hleader := (h.node v).leads hc
  rw [hrole] at hleader
  cases hleader

theorem Inv.stood_none (h : Inv termOf Q s) {T : Nat} (hT : s.term v < T) :
    s.stood (T, v) = none := by
  by_contra hstood
  obtain ⟨ℓ, hℓ⟩ := Option.ne_none_iff_exists'.mp hstood
  exact absurd ((h.node v).stood_le T ℓ hℓ) (by omega)

/-! ## What a step leaves alone -/

section
variable [DecidableEq N]

theorem Step.grow (h : Inv termOf Q s) (hstep : Step termOf Q v s s') :
    Grow s.toHist s'.toHist := by
  cases hstep with
  | advance | yield | truncate | extend | learn => exact Grow.refl _
  | stand hT =>
    refine { Grow.refl s.toHist with stood := fun p ℓ hp => ?_ }
    show update s.stood _ _ p = some ℓ
    rw [update_of_ne (fun heq => by rw [heq, h.stood_none hT] at hp; cases hp), hp]
  | cast hnone =>
    refine { Grow.refl s.toHist with vote := fun p x hp => ?_ }
    show update s.vote _ _ p = some x
    rw [update_of_ne (fun heq => by rw [heq, hnone] at hp; cases hp), hp]
  | elect hrole hquorum =>
    have hnone := h.lead_none hrole hquorum
    refine { Grow.refl s.toHist with lead := fun T c hc => ?_, chain := fun T => ?_ }
    · show update s.lead _ _ T = some c
      rw [update_of_ne (fun heq => by rw [heq, hnone] at hc; cases hc), hc]
    · show s.chain T <+: update s.chain _ _ T
      -- a term without a leader has an empty chain
      by_cases hT : T = s.term v
      · rw [hT, h.hist.chain_nil _ hnone]
        exact List.nil_prefix
      · rw [update_of_ne hT]
  | append hrole he =>
    refine { Grow.refl s.toHist with chain := fun T => ?_ }
    show s.chain T <+: update s.chain _ _ T
    by_cases hT : T = s.term v
    · rw [hT, update_self, (h.node v).chain ((h.node v).leader hrole)]
      exact List.prefix_append ..
    · rw [update_of_ne hT]
  | ack => exact { Grow.refl s.toHist with acks := Set.subset_insert .. }
  | commit => exact { Grow.refl s.toHist with committed := Set.subset_insert .. }

end

/-- Nothing changed about the node `w`. -/
structure Frame (w : N) (s s' : Sys N E) : Prop where
  term : s'.term w = s.term w
  role : s'.role w = s.role w
  log : s'.log w = s.log w
  commit : s'.commit w = s.commit w
  stood : ∀ T, s'.stood (T, w) = s.stood (T, w)
  vote : ∀ T, s'.vote (T, w) = s.vote (T, w)
  acks : ∀ T m, (T, w, m) ∈ s'.acks → (T, w, m) ∈ s.acks
  lead : ∀ T, s'.lead T = some w → s.lead T = some w
  chain : ∀ T, s.lead T = some w → s'.chain T = s.chain T

theorem Frame.refl (w : N) (s : Sys N E) : Frame w s s where
  term := rfl
  role := rfl
  log := rfl
  commit := rfl
  stood _ := rfl
  vote _ := rfl
  acks _ _ h := h
  lead _ h := h
  chain _ _ := rfl

theorem Frame.trans {s'' : Sys N E} (hf : Frame w s s') (hf' : Frame w s' s'')
    (hg : Grow s.toHist s'.toHist) : Frame w s s'' where
  term := hf'.term.trans hf.term
  role := hf'.role.trans hf.role
  log := hf'.log.trans hf.log
  commit := hf'.commit.trans hf.commit
  stood T := (hf'.stood T).trans (hf.stood T)
  vote T := (hf'.vote T).trans (hf.vote T)
  acks T m h := hf.acks T m (hf'.acks T m h)
  lead T h := hf.lead T (hf'.lead T h)
  chain T h := (hf'.chain T (hg.lead T w h)).trans (hf.chain T h)

theorem Step.frame [DecidableEq N] (h : Inv termOf Q s) (hstep : Step termOf Q v s s')
    (hw : w ≠ v) : Frame w s s' := by
  have hpair : ∀ T T' : Nat, (T, w) ≠ (T', v) := fun T T' heq => hw (Prod.mk.inj heq).2
  cases hstep with
  | advance hT =>
    exact { Frame.refl w s with term := update_of_ne hw .., role := update_of_ne hw .. }
  | yield => exact { Frame.refl w s with role := update_of_ne hw .. }
  | stand hT =>
    exact { Frame.refl w s with
      term := update_of_ne hw ..
      role := update_of_ne hw ..
      stood := fun T => update_of_ne (hpair T _) .. }
  | cast => exact { Frame.refl w s with vote := fun T => update_of_ne (hpair T _) .. }
  | elect hrole hquorum =>
    have hnone := h.lead_none hrole hquorum
    refine { Frame.refl w s with
      role := update_of_ne hw .., lead := fun T hT => ?_, chain := fun T hT => ?_ }
    · by_cases heq : T = s.term v
      · replace hT : update s.lead (s.term v) (some v) T = some w := hT
        rw [heq, update_self, Option.some.injEq] at hT
        exact absurd hT.symm hw
      · exact (update_of_ne heq (some v) s.lead).symm.trans hT
    · exact update_of_ne (fun heq => by rw [heq, hnone] at hT; cases hT) ..
  | append hrole he =>
    refine { Frame.refl w s with log := update_of_ne hw .., chain := fun T hT => ?_ }
    -- the chain that grows is led by `v`, not by `w`
    refine update_of_ne (fun heq => ?_) ..
    rw [heq, (h.node v).leader hrole, Option.some.injEq] at hT
    exact hw hT.symm
  | truncate => exact { Frame.refl w s with log := update_of_ne hw .. }
  | extend => exact { Frame.refl w s with log := update_of_ne hw .. }
  | ack =>
    refine { Frame.refl w s with acks := fun T m hT => ?_ }
    obtain heq | hold := Set.mem_insert_iff.mp hT
    · rw [Prod.mk.injEq, Prod.mk.injEq] at heq
      exact absurd heq.2.1 hw
    · exact hold
  | commit => exact { Frame.refl w s with commit := update_of_ne hw .. }
  | learn => exact { Frame.refl w s with commit := update_of_ne hw .. }

/-- A node that nothing happened to keeps its part of the invariant. -/
theorem Frame.keeps (hf : Frame w s s') (hg : Grow s.toHist s'.toHist)
    (hist : History termOf Q s.toHist) (h : Local termOf s w) : Local termOf s' w where
  stood_le T ℓ hℓ := by
    rw [hf.term]
    exact h.stood_le T ℓ ((hf.stood T).symm.trans hℓ)
  vote_le T x hx := by
    rw [hf.term]
    exact h.vote_le T x ((hf.vote T).symm.trans hx)
  lead_le T hT := by
    rw [hf.term]
    exact h.lead_le T (hf.lead T hT)
  ack_le T m hm := by
    rw [hf.term]
    exact h.ack_le T m (hf.acks T m hm)
  candidate hrole := by
    rw [hf.term, hf.stood, hf.log]
    exact h.candidate (hf.role.symm.trans hrole)
  leader hrole := by
    rw [hf.term]
    exact hg.lead _ _ (h.leader (hf.role.symm.trans hrole))
  leads hlead := by
    rw [hf.term] at hlead
    rw [hf.role]
    exact h.leads (hf.lead _ hlead)
  chain hlead := by
    rw [hf.term] at hlead ⊢
    have hold := hf.lead _ hlead
    rw [hf.chain _ hold, hf.log]
    exact h.chain hold
  log_le := by
    rw [hf.term, hf.log]
    exact h.log_le
  grounded := by
    rw [hf.log]
    exact hg.grounded h.grounded
  kept T m hm := by
    -- what was kept of a chain is kept of a longer one, and so is what contradicts it
    have hold := hf.acks T m hm
    rw [hf.term, hf.log]
    exact hg.kept (hist.ack_le T w m hold) (Nat.le_refl _) (h.kept T m hold)
  known := by
    rw [hf.term, hf.log, hf.commit]
    obtain hzero | ⟨T, i, hi, hT, hle, hpre⟩ := h.known
    · exact Or.inl hzero
    · refine Or.inr ⟨T, i, hg.committed hi, hT, hle, ?_⟩
      rwa [take_eq_of_isPrefix (hg.chain T) (hle.trans (hist.committed_le hi))]

/-! ## The node that moves -/

section
variable [DecidableEq N]

theorem Inv.of_node (h : Inv termOf Q s) (hstep : Step termOf Q v s s')
    (hist : History termOf Q s'.toHist) (hv : Local termOf s' v) : Inv termOf Q s' where
  hist := hist
  node w := by
    by_cases hw : w = v
    · rw [hw]
      exact hv
    · exact (hstep.frame h hw).keeps (hstep.grow h) h.hist (h.node w)

theorem Local.later (hist : History termOf Q s.toHist) (h : Local termOf s v) {T : Nat}
    (hT : s.term v < T) :
    Local termOf { s with term := update s.term v T, role := update s.role v .follower } v where
  stood_le T' ℓ hℓ := by
    have := h.stood_le T' ℓ hℓ
    simp only [update_self]
    omega
  vote_le T' x hx := by
    have := h.vote_le T' x hx
    simp only [update_self]
    omega
  lead_le T' hT' := by
    have := h.lead_le T' hT'
    simp only [update_self]
    omega
  ack_le T' m hm := by
    have := h.ack_le T' m hm
    simp only [update_self]
    omega
  candidate hrole := by simp only [update_self] at hrole; cases hrole
  leader hrole := by simp only [update_self] at hrole; cases hrole
  leads hlead := by
    -- nobody leads a term before reaching it
    simp only [update_self] at hlead
    exact absurd (h.lead_le T hlead) (by omega)
  chain hlead := by
    simp only [update_self] at hlead
    exact absurd (h.lead_le T hlead) (by omega)
  log_le e he := by
    have := h.log_le e he
    simp only [update_self]
    omega
  grounded := h.grounded
  kept T' m hm := by
    simp only [update_self]
    exact (Grow.refl _).kept (hist.ack_le T' v m hm) (by omega) (h.kept T' m hm)
  known := by
    simp only [update_self]
    obtain hzero | ⟨T', i, hi, hT', hle, hpre⟩ := h.known
    · exact Or.inl hzero
    · exact Or.inr ⟨T', i, hi, by omega, hle, hpre⟩

theorem Local.yield (h : Local termOf s v) (hrole : s.role v = .candidate) :
    Local termOf { s with role := update s.role v .follower } v :=
  { h with
    candidate := fun hr => by simp only [update_self] at hr; cases hr
    leader := fun hr => by simp only [update_self] at hr; cases hr
    leads := fun hlead => by
      have hleader := h.leads hlead
      rw [hrole] at hleader
      cases hleader
    chain := h.chain }

/-! ### Standing and voting -/

theorem History.stand (h : Inv termOf Q s) {T : Nat} (hT : s.term v < T) :
    History termOf Q { s.toHist with stood := update s.stood (T, v) (some (s.log v)) } := by
  have hg : Grow s.toHist { s.toHist with stood := update s.stood (T, v) (some (s.log v)) } :=
    Step.grow h (.stand hT)
  refine { h.hist with
    stood_lt := fun T' c ℓ hℓ e he => ?_
    vote_early := fun T' w c ℓ' hw => ?_
    elected := fun T' c hc => ?_
    grounded_stood := fun T' c ℓ hℓ => ?_ }
  · by_cases hp : (T', c) = (T, v)
    · simp only [hp, update_self, Option.some.injEq] at hℓ
      obtain ⟨rfl, rfl⟩ := Prod.mk.inj hp
      -- the log is of terms reached, and `T` is a later one
      have := (h.node c).log_le e (hℓ ▸ he)
      omega
    · simp only [update_of_ne hp] at hℓ
      exact h.hist.stood_lt T' c ℓ hℓ e he
  · obtain ⟨ℓ, hℓ, hup⟩ := h.hist.vote_early T' w c ℓ' hw
    exact ⟨ℓ, hg.stood _ _ hℓ, hup⟩
  · obtain ⟨hquorum, ℓ, hℓ, hpre⟩ := h.hist.elected T' c hc
    exact ⟨hquorum, ℓ, hg.stood _ _ hℓ, hpre⟩
  · by_cases hp : (T', c) = (T, v)
    · simp only [hp, update_self, Option.some.injEq] at hℓ
      rw [← hℓ]
      exact (h.node v).grounded
    · simp only [update_of_ne hp] at hℓ
      exact h.hist.grounded_stood T' c ℓ hℓ

theorem Local.stand (h : Inv termOf Q s) {T : Nat} (hT : s.term v < T) :
    Local termOf { s with
      term := update s.term v T
      role := update s.role v .candidate
      stood := update s.stood (T, v) (some (s.log v)) } v := by
  have hlater := (h.node v).later h.hist hT
  refine { hlater with
    stood_le := fun T' ℓ hℓ => ?_
    candidate := fun _ => ?_
    leader := fun hrole => ?_
    leads := fun hlead => ?_
    chain := hlater.chain }
  · by_cases heq : T' = T
    · simp only [update_self, heq, Nat.le_refl]
    · simp only [update_of_ne (fun hp => heq (Prod.mk.inj hp).1)] at hℓ
      exact hlater.stood_le T' ℓ hℓ
  · simp only [update_self]
  · simp only [update_self] at hrole
    cases hrole
  · have hfollower := hlater.leads hlead
    simp only [update_self] at hfollower
    cases hfollower

open scoped Classical in
theorem History.cast (h : Inv termOf Q s) {c : N} {ℓ : List E}
    (hnone : s.vote (s.term v, v) = none) (hstood : s.stood (s.term v, c) = some ℓ)
    (hup : UpToDate termOf ℓ (s.log v)) :
    History termOf Q { s.toHist with
      vote := update s.vote (s.term v, v)
        (some (c, if s.lead (s.term v) = none then some (s.log v) else none)) } := by
  have hg : Grow s.toHist { s.toHist with
      vote := update s.vote (s.term v, v)
        (some (c, if s.lead (s.term v) = none then some (s.log v) else none)) } :=
    Step.grow h (.cast hnone hstood hup)
  -- a new early vote carries the log of the voter, in a term without a leader
  have hnew : ∀ {T' : Nat} {w c' : N} {ℓ' : List E},
      update s.vote (s.term v, v)
        (some (c, if s.lead (s.term v) = none then some (s.log v) else none)) (T', w)
          = some (c', some ℓ') →
      s.vote (T', w) = some (c', some ℓ')
        ∨ T' = s.term v ∧ w = v ∧ c' = c ∧ ℓ' = s.log v ∧ s.lead (s.term v) = none := by
    intro T' w c' ℓ' hw
    by_cases hp : (T', w) = (s.term v, v)
    · rw [hp, update_self, Option.some.injEq, Prod.mk.injEq] at hw
      obtain ⟨rfl, rfl⟩ := Prod.mk.inj hp
      by_cases hlead : s.lead (s.term w) = none
      · rw [if_pos hlead, Option.some.injEq] at hw
        exact Or.inr ⟨rfl, rfl, hw.1.symm, hw.2.symm, hlead⟩
      · rw [if_neg hlead] at hw
        cases hw.2
    · rw [update_of_ne hp] at hw
      exact Or.inl hw
  refine { h.hist with
    vote_early := fun T' w c' ℓ' hw => ?_
    vote_late := fun T' w c' hw => ?_
    elected := fun T' c' hc => ?_
    grounded_vote := fun T' w c' ℓ' hw => ?_
    kept_vote := fun T w m T' c' ℓ' hm hT hw => ?_ }
  · obtain hold | ⟨rfl, rfl, rfl, rfl, -⟩ := hnew hw
    · exact h.hist.vote_early T' w c' ℓ' hold
    · exact ⟨ℓ, hstood, hup⟩
  · by_cases hp : (T', w) = (s.term v, v)
    · simp only [hp, update_self, Option.some.injEq, Prod.mk.injEq] at hw
      obtain ⟨rfl, rfl⟩ := Prod.mk.inj hp
      by_cases hlead : s.lead (s.term w) = none
      · rw [if_pos hlead] at hw
        cases hw.2
      · exact hlead
    · simp only [update_of_ne hp] at hw
      exact h.hist.vote_late T' w c' hw
  · obtain ⟨hquorum, hstood'⟩ := h.hist.elected T' c' hc
    exact ⟨Q.mono (hg.electors T' c') hquorum, hstood'⟩
  · obtain hold | ⟨rfl, rfl, rfl, rfl, -⟩ := hnew hw
    · exact h.hist.grounded_vote T' w c' ℓ' hold
    · exact (h.node w).grounded
  · obtain hold | ⟨rfl, rfl, rfl, rfl, hlead⟩ := hnew hw
    · exact h.hist.kept_vote T w m T' c' ℓ' hm hT hold
    · intro i hi
      obtain hpre | ⟨t, hTt, htB, hconflict⟩ := (h.node w).kept T m hm i hi
      · exact Or.inl hpre
      · refine Or.inr ⟨t, hTt, ?_, hconflict⟩
        have hne : t ≠ s.term w := by
          rintro rfl
          obtain ⟨j, e, e', -, he', -⟩ := hconflict
          exact h.hist.lead_ne_none_of_mem he' hlead
        omega

theorem Local.cast (h : Local termOf s v) (x : N × Option (List E)) :
    Local termOf { s with vote := update s.vote (s.term v, v) (some x) } v := by
  refine { h with vote_le := fun T y hy => ?_ }
  by_cases hT : T = s.term v
  · exact Nat.le_of_eq hT
  · simp only [update_of_ne (fun hp => hT (Prod.mk.inj hp).1)] at hy
    exact h.vote_le T y hy

/-! ### Leading -/

omit [DecidableEq N] in
/-- A history in which only leaders and their logs changed. -/
theorem History.of_chain (h : History termOf Q s.toHist) {lead : Nat → Option N}
    {chain : Nat → List E}
    (hg : Grow s.toHist { s.toHist with lead := lead, chain := chain })
    (helected : ∀ T c, lead T = some c → Q.IsQuorum (s.electors T c) ∧
      ∃ ℓ, s.stood (T, c) = some ℓ ∧ ℓ <+: chain T)
    (hnil : ∀ T, lead T = none → chain T = [])
    (hle : ∀ T, ∀ e ∈ chain T, termOf e ≤ T)
    (hgrounded : ∀ T, Grounded termOf { s.toHist with lead := lead, chain := chain } (chain T)) :
    History termOf Q { s.toHist with lead := lead, chain := chain } where
  stood_lt := h.stood_lt
  vote_early := h.vote_early
  vote_late T w c hw := hg.lead_ne_none (h.vote_late T w c hw)
  elected := helected
  chain_nil := hnil
  chain_le := hle
  grounded_chain := hgrounded
  grounded_stood T c ℓ hℓ := hg.grounded (h.grounded_stood T c ℓ hℓ)
  grounded_vote T w c ℓ hw := hg.grounded (h.grounded_vote T w c ℓ hw)
  ack_le T w m hm := (h.ack_le T w m hm).trans (hg.chain T).length_le
  kept_vote T w m T' c ℓ hm hT hw :=
    hg.kept (h.ack_le T w m hm) (Nat.le_refl _) (h.kept_vote T w m T' c ℓ hm hT hw)
  committed_ok T i hi := by
    obtain ⟨hquorum, e, he, hterm⟩ := h.committed_ok T i hi
    exact ⟨hquorum, e, prefix_getElem? (hg.chain T) he, hterm⟩
  committed_pos := h.committed_pos

theorem History.elect (h : Inv termOf Q s) (hrole : s.role v = .candidate)
    (hquorum : Q.IsQuorum (s.voters (s.term v) v)) :
    History termOf Q { s.toHist with
      lead := update s.lead (s.term v) (some v)
      chain := update s.chain (s.term v) (s.log v) } := by
  have hnone := h.lead_none hrole hquorum
  have hg : Grow s.toHist { s.toHist with
      lead := update s.lead (s.term v) (some v)
      chain := update s.chain (s.term v) (s.log v) } := Step.grow h (.elect hrole hquorum)
  -- without a leader, every vote of the term was cast before it had one
  have hearly : s.voters (s.term v) v ⊆ s.electors (s.term v) v := by
    rintro w ⟨x, hx⟩
    cases x with
    | none => exact absurd hnone (h.hist.vote_late _ w v hx)
    | some ℓ => exact ⟨ℓ, hx⟩
  refine h.hist.of_chain hg (fun T c hc => ?_) (fun T hT => ?_) (fun T e he => ?_) (fun T => ?_)
  · by_cases hT : T = s.term v
    · rw [hT, update_self, Option.some.injEq] at hc
      obtain rfl := hc
      rw [hT, update_self]
      exact ⟨Q.mono hearly hquorum, s.log v, (h.node v).candidate hrole, List.prefix_rfl⟩
    · rw [update_of_ne hT] at hc ⊢
      exact h.hist.elected T c hc
  · by_cases heq : T = s.term v
    · rw [heq, update_self] at hT
      cases hT
    · rw [update_of_ne heq] at hT ⊢
      exact h.hist.chain_nil T hT
  · by_cases hT : T = s.term v
    · rw [hT, update_self] at he
      rw [hT]
      exact (h.node v).log_le e he
    · rw [update_of_ne hT] at he
      exact h.hist.chain_le T e he
  · refine hg.grounded ?_
    by_cases hT : T = s.term v
    · rw [hT, update_self]
      exact (h.node v).grounded
    · rw [update_of_ne hT]
      exact h.hist.grounded_chain T

theorem Local.elect (h : Inv termOf Q s) (hrole : s.role v = .candidate)
    (hquorum : Q.IsQuorum (s.voters (s.term v) v)) :
    Local termOf { s with
      role := update s.role v .leader
      lead := update s.lead (s.term v) (some v)
      chain := update s.chain (s.term v) (s.log v) } v := by
  have hg : Grow s.toHist { s.toHist with
      lead := update s.lead (s.term v) (some v)
      chain := update s.chain (s.term v) (s.log v) } := Step.grow h (.elect hrole hquorum)
  have hv := h.node v
  refine { hv with
    lead_le := fun T hT => ?_
    candidate := fun hr => ?_
    leader := fun _ => update_self ..
    leads := fun _ => update_self ..
    chain := fun _ => update_self ..
    grounded := hg.grounded hv.grounded
    kept := fun T m hm => hg.kept (h.hist.ack_le T v m hm) (Nat.le_refl _) (hv.kept T m hm)
    known := ?_ }
  · by_cases heq : T = s.term v
    · exact Nat.le_of_eq heq
    · simp only [update_of_ne heq] at hT
      exact hv.lead_le T hT
  · simp only [update_self] at hr
    cases hr
  · obtain hzero | ⟨T, i, hi, hT, hle, hpre⟩ := hv.known
    · exact Or.inl hzero
    · refine Or.inr ⟨T, i, hi, hT, hle, ?_⟩
      rw [take_eq_of_isPrefix (hg.chain T) (hle.trans (h.hist.committed_le hi))]
      exact hpre

theorem History.append (h : Inv termOf Q s) {e : E} (hrole : s.role v = .leader)
    (he : termOf e = s.term v) :
    History termOf Q { s.toHist with
      chain := update s.chain (s.term v) (s.log v ++ [e]) } := by
  have hlead := (h.node v).leader hrole
  have hchain := (h.node v).chain hlead
  have hg : Grow s.toHist { s.toHist with
      chain := update s.chain (s.term v) (s.log v ++ [e]) } :=
    Step.grow h (.append hrole he)
  refine h.hist.of_chain hg (fun T c hc => ?_) (fun T hT => ?_) (fun T x hx => ?_) (fun T => ?_)
  · obtain ⟨hquorum, ℓ, hℓ, hpre⟩ := h.hist.elected T c hc
    exact ⟨hquorum, ℓ, hℓ, hpre.trans (hg.chain T)⟩
  · rw [update_of_ne (fun heq => by rw [heq, hlead] at hT; cases hT)]
    exact h.hist.chain_nil T hT
  · by_cases hT : T = s.term v
    · rw [hT, update_self, List.mem_append, List.mem_singleton] at hx
      obtain hx | rfl := hx
      · rw [hT]
        exact (h.node v).log_le x hx
      · rw [hT, he]
    · rw [update_of_ne hT] at hx
      exact h.hist.chain_le T x hx
  · by_cases hT : T = s.term v
    · rw [hT, update_self]
      intro i x hx
      by_cases hi : i < (s.log v).length
      · rw [List.getElem?_append_left hi] at hx
        rw [List.take_append_of_le_length (by omega)]
        exact hg.grounded (h.node v).grounded i x hx
      · -- the new entry, which ends the chain of its own term
        have hlast := (List.getElem?_eq_some_iff.mp hx).1
        rw [List.length_append, List.length_singleton] at hlast
        obtain rfl : i = (s.log v).length := by omega
        rw [List.getElem?_append_right (Nat.le_refl _), Nat.sub_self] at hx
        obtain rfl : e = x := Option.some.inj hx
        rw [List.take_of_length_le (by simp), he]
        simp only [update_self, List.prefix_rfl]
    · rw [update_of_ne hT]
      exact hg.grounded (h.hist.grounded_chain T)

theorem Local.append (h : Inv termOf Q s) {e : E} (hrole : s.role v = .leader)
    (he : termOf e = s.term v) :
    Local termOf { s with
      log := update s.log v (s.log v ++ [e])
      chain := update s.chain (s.term v) (s.log v ++ [e]) } v := by
  have hist := History.append h hrole he
  have hg : Grow s.toHist { s.toHist with
      chain := update s.chain (s.term v) (s.log v ++ [e]) } :=
    Step.grow h (.append hrole he)
  have hv := h.node v
  refine { hv with
    candidate := fun hr => ?_
    chain := fun _ => ?_
    log_le := fun x hx => ?_
    grounded := ?_
    kept := fun T m hm i hi => ?_
    known := ?_ }
  · rw [hrole] at hr
    cases hr
  · simp only [update_self]
  · simp only [update_self, List.mem_append, List.mem_singleton] at hx
    obtain hx | rfl := hx
    · exact hv.log_le x hx
    · exact Nat.le_of_eq he
  · have hgrounded := hist.grounded_chain (s.term v)
    simp only [update_self] at hgrounded ⊢
    exact hgrounded
  · simp only [update_self]
    obtain hpre | hconflict :=
      hg.kept (h.hist.ack_le T v m hm) (Nat.le_refl _) (hv.kept T m hm) i hi
    · exact Or.inl (hpre.trans (List.prefix_append ..))
    · exact Or.inr hconflict
  · obtain hzero | ⟨T, i, hi, hT, hle, hpre⟩ := hv.known
    · exact Or.inl hzero
    · refine Or.inr ⟨T, i, hi, hT, hle, ?_⟩
      have hlong : (s.chain T).take (s.commit v) <+: s.log v ++ [e] :=
        hpre.trans (List.prefix_append ..)
      rw [take_eq_of_isPrefix (hg.chain T) (hle.trans (h.hist.committed_le hi))]
      simpa only [update_self] using hlong

/-! ### Copying -/

omit [DecidableEq N] in
theorem Grounded.of_isPrefix {h : Hist N E} {ℓ ℓ' : List E} (hℓ : Grounded termOf h ℓ)
    (hpre : ℓ' <+: ℓ) : Grounded termOf h ℓ' := by
  intro i e he
  have hlt := (List.getElem?_eq_some_iff.mp he).1
  rw [← take_eq_of_isPrefix hpre hlt]
  exact hℓ i e (prefix_getElem? hpre he)

omit [DecidableEq N] in
/-- A follower drops nothing that it knows to be committed. -/
theorem Inv.commit_le_of_conflict (h : Inv termOf Q s) {j : Nat} {e e' : E}
    (he : (s.log v)[j]? = some e) (he' : (s.chain (s.term v))[j]? = some e') (hne : e ≠ e') :
    s.commit v ≤ j := by
  obtain hzero | ⟨T, i, hi, hT, hle, hpre⟩ := (h.node v).known
  · omega
  by_contra hj
  have hlen := h.hist.committed_le hi
  have hheld := h.hist.committed_prefix hi hT (h.hist.lead_ne_none_of_mem he')
  -- the committed prefix has an entry at `j`, and both logs have it
  obtain ⟨x, hx⟩ : ∃ x, (s.chain T)[j]? = some x :=
    ⟨_, List.getElem?_eq_getElem (by omega)⟩
  have hlog : (s.log v)[j]? = some x :=
    prefix_getElem? hpre (by rw [List.getElem?_take_of_lt (by omega), hx])
  have hchain : (s.chain (s.term v))[j]? = some x :=
    prefix_getElem? hheld (by rw [List.getElem?_take_of_lt (by omega), hx])
  rw [he, Option.some.injEq] at hlog
  rw [he', Option.some.injEq] at hchain
  exact hne (hlog.trans hchain.symm)

theorem Local.truncate (h : Inv termOf Q s) {j k : Nat} {e e' : E}
    (hrole : s.role v = .follower) (he : (s.log v)[j]? = some e)
    (he' : (s.chain (s.term v))[j]? = some e') (hne : termOf e ≠ termOf e') (hk : j ≤ k) :
    Local termOf { s with log := update s.log v ((s.log v).take k) } v := by
  have hv := h.node v
  have hee' : e ≠ e' := fun heq => hne (congrArg termOf heq)
  refine { hv with
    candidate := fun hr => ?_
    chain := fun hlead => ?_
    log_le := fun x hx => ?_
    grounded := ?_
    kept := fun T m hm i hi => ?_
    known := ?_ }
  · rw [hrole] at hr
    cases hr
  · have hleader := hv.leads hlead
    rw [hrole] at hleader
    cases hleader
  · simp only [update_self] at hx
    exact hv.log_le x (List.mem_of_mem_take hx)
  · simp only [update_self]
    exact hv.grounded.of_isPrefix (List.take_prefix ..)
  · simp only [update_self]
    obtain hpre | hconflict := hv.kept T m hm i hi
    · by_cases hik : i ≤ k
      · refine Or.inl (List.prefix_take_iff.mpr ⟨hpre, ?_⟩)
        rw [List.length_take]
        omega
      · -- what is lost was at odds with the leader of the present term
        have hlen := h.hist.ack_le T v m hm
        have htake : ((s.chain T).take i)[j]? = some e := by
          have hpos : j < ((s.chain T).take i).length := by
            rw [List.length_take]
            omega
          obtain ⟨x, hx⟩ : ∃ x, ((s.chain T).take i)[j]? = some x :=
            ⟨_, List.getElem?_eq_getElem hpos⟩
          rw [hx, ← he, prefix_getElem? hpre hx]
        have hT : T ≠ s.term v := by
          rintro rfl
          exact hee' (Option.some.inj ((getElem?_take_some htake).2.symm.trans he'))
        have hle := hv.ack_le T m hm
        exact Or.inr ⟨s.term v, by omega, Nat.le_refl _, j, e, e', htake, he', hee'⟩
    · exact Or.inr hconflict
  · -- the cut is after what the node knows to be committed
    have hcommit := h.commit_le_of_conflict he he' hee'
    simp only [update_self]
    obtain hzero | ⟨T, i, hi, hT, hle, hpre⟩ := hv.known
    · exact Or.inl hzero
    · refine Or.inr ⟨T, i, hi, hT, hle, List.prefix_take_iff.mpr ⟨hpre, ?_⟩⟩
      rw [List.length_take]
      omega

theorem Local.extend (h : Inv termOf Q s) {e : E} (hrole : s.role v = .follower)
    (hchain : s.log v ++ [e] <+: s.chain (s.term v)) :
    Local termOf { s with log := update s.log v (s.log v ++ [e]) } v := by
  have hv := h.node v
  refine { hv with
    candidate := fun hr => ?_
    chain := fun hlead => ?_
    log_le := fun x hx => ?_
    grounded := ?_
    kept := fun T m hm i hi => ?_
    known := ?_ }
  · rw [hrole] at hr
    cases hr
  · have hleader := hv.leads hlead
    rw [hrole] at hleader
    cases hleader
  · simp only [update_self] at hx
    exact h.hist.chain_le _ x (hchain.subset hx)
  · simp only [update_self]
    exact (h.hist.grounded_chain _).of_isPrefix hchain
  · simp only [update_self]
    obtain hpre | hconflict := hv.kept T m hm i hi
    · exact Or.inl (hpre.trans (List.prefix_append ..))
    · exact Or.inr hconflict
  · simp only [update_self]
    obtain hzero | ⟨T, i, hi, hT, hle, hpre⟩ := hv.known
    · exact Or.inl hzero
    · exact Or.inr ⟨T, i, hi, hT, hle, hpre.trans (List.prefix_append ..)⟩

/-! ### Acknowledging and committing -/

theorem History.ack (h : Inv termOf Q s) {m : Nat} (hm : m ≤ (s.chain (s.term v)).length)
    (hlog : (s.chain (s.term v)).take m <+: s.log v) :
    History termOf Q { s.toHist with acks := insert (s.term v, v, m) s.acks } := by
  have hg : Grow s.toHist { s.toHist with acks := insert (s.term v, v, m) s.acks } :=
    Step.grow h (.ack hm hlog)
  refine { h.hist with
    ack_le := fun T w m' hm' => ?_
    kept_vote := fun T w m' T' c ℓ hm' hT hw => ?_
    committed_ok := fun T i hi => ?_ }
  · obtain heq | hold := Set.mem_insert_iff.mp hm'
    · simp only [Prod.mk.injEq] at heq
      obtain ⟨rfl, rfl, rfl⟩ := heq
      exact hm
    · exact h.hist.ack_le T w m' hold
  · obtain heq | hold := Set.mem_insert_iff.mp hm'
    · simp only [Prod.mk.injEq] at heq
      obtain ⟨rfl, rfl, rfl⟩ := heq
      -- who acknowledges in its present term has not voted in a later one
      exact absurd ((h.node w).vote_le T' _ hw) (by omega)
    · exact h.hist.kept_vote T w m' T' c ℓ hold hT hw
  · obtain ⟨hquorum, hentry⟩ := h.hist.committed_ok T i hi
    exact ⟨Q.mono (hg.holders T (i + 1)) hquorum, hentry⟩

omit [DecidableEq N] in
theorem Local.ack (h : Local termOf s v) {m : Nat}
    (hlog : (s.chain (s.term v)).take m <+: s.log v) :
    Local termOf { s with acks := insert (s.term v, v, m) s.acks } v := by
  refine { h with ack_le := fun T m' hm' => ?_, kept := fun T m' hm' => ?_ }
  · obtain heq | hold := Set.mem_insert_iff.mp hm'
    · simp only [Prod.mk.injEq] at heq
      exact Nat.le_of_eq heq.1
    · exact h.ack_le T m' hold
  · obtain heq | hold := Set.mem_insert_iff.mp hm'
    · simp only [Prod.mk.injEq] at heq
      obtain ⟨rfl, -, rfl⟩ := heq
      intro i hi
      refine Or.inl (List.IsPrefix.trans ?_ hlog)
      exact List.take_prefix_take_left hi
    · exact h.kept T m' hold

omit [DecidableEq N] in
theorem History.commit (h : Inv termOf Q s) {i : Nat} {e : E} (hrole : s.role v = .leader)
    (he : (s.log v)[i]? = some e) (hterm : termOf e = s.term v)
    (hquorum : Q.IsQuorum (s.holders (s.term v) (i + 1))) :
    History termOf Q { s.toHist with committed := insert (s.term v, i + 1) s.committed } := by
  have hchain := (h.node v).chain ((h.node v).leader hrole)
  refine { h.hist with
    committed_ok := fun T k hk => ?_
    committed_pos := fun T k hk => ?_ }
  · obtain heq | hold := Set.mem_insert_iff.mp hk
    · simp only [Prod.mk.injEq, Nat.add_right_cancel_iff] at heq
      obtain ⟨rfl, rfl⟩ := heq
      exact ⟨hquorum, e, by rw [hchain]; exact he, hterm⟩
    · exact h.hist.committed_ok T k hold
  · obtain heq | hold := Set.mem_insert_iff.mp hk
    · simp only [Prod.mk.injEq] at heq
      omega
    · exact h.hist.committed_pos T k hold

theorem Local.commit (h : Local termOf s v) {i : Nat} (hrole : s.role v = .leader) :
    Local termOf { s with
      commit := update s.commit v (i + 1)
      committed := insert (s.term v, i + 1) s.committed } v := by
  refine { h with known := Or.inr ⟨s.term v, i + 1, Set.mem_insert .., Nat.le_refl _, ?_, ?_⟩ }
  · simp only [update_self, Nat.le_refl]
  · simp only [update_self, h.chain (h.leader hrole)]
    exact List.take_prefix ..

theorem Local.learn (h : Local termOf s v) {T i k : Nat} (hcommitted : (T, i) ∈ s.committed)
    (hT : T ≤ s.term v) (hk : k ≤ i) (hlog : (s.chain T).take k <+: s.log v) :
    Local termOf { s with commit := update s.commit v k } v := by
  refine { h with known := Or.inr ⟨T, i, hcommitted, hT, ?_, ?_⟩ }
  · simpa only [update_self] using hk
  · simpa only [update_self] using hlog

/-! ## Runs -/

omit [DecidableEq N] in
theorem Inv.init : Inv termOf Q (Sys.init : Sys N E) where
  hist := by
    constructor <;> simp [Sys.init, Grounded]
  node v := by
    constructor <;> simp [Sys.init, Grounded]

theorem Inv.step (h : Inv termOf Q s) (hstep : Step termOf Q v s s') : Inv termOf Q s' := by
  refine h.of_node hstep ?_ ?_
  · cases hstep with
    | advance | yield | truncate | extend | learn => exact h.hist
    | stand hT => exact History.stand h hT
    | cast hnone hstood hup => exact History.cast h hnone hstood hup
    | elect hrole hquorum => exact History.elect h hrole hquorum
    | append hrole he => exact History.append h hrole he
    | ack hm hlog => exact History.ack h hm hlog
    | commit hrole he hterm hquorum => exact History.commit h hrole he hterm hquorum
  · cases hstep with
    | advance hT => exact (h.node v).later h.hist hT
    | yield hrole => exact (h.node v).yield hrole
    | stand hT => exact Local.stand h hT
    | cast => exact (h.node v).cast _
    | elect hrole hquorum => exact Local.elect h hrole hquorum
    | append hrole he => exact Local.append h hrole he
    | truncate hrole he he' hne hk => exact Local.truncate h hrole he he' hne hk
    | extend hrole hchain => exact Local.extend h hrole hchain
    | ack hm hlog => exact (h.node v).ack hlog
    | commit hrole => exact (h.node v).commit hrole
    | learn hcommitted hT hk hlog => exact (h.node v).learn hcommitted hT hk hlog

/-- Some steps of the node `v`, one after the other. -/
abbrev Moves (termOf : E → Nat) (Q : Quorums N) (v : N) : Sys N E → Sys N E → Prop :=
  Relation.ReflTransGen (Step termOf Q v)

theorem Inv.moves (h : Inv termOf Q s) (hmoves : Moves termOf Q v s s') : Inv termOf Q s' := by
  induction hmoves with
  | refl => exact h
  | tail _ hstep ih => exact ih.step hstep

theorem Moves.grow (h : Inv termOf Q s) (hmoves : Moves termOf Q v s s') :
    Grow s.toHist s'.toHist := by
  induction hmoves with
  | refl => exact Grow.refl _
  | tail hmoves hstep ih => exact ih.trans (hstep.grow (h.moves hmoves))

theorem Moves.frame (h : Inv termOf Q s) (hmoves : Moves termOf Q v s s') (hw : w ≠ v) :
    Frame w s s' := by
  induction hmoves with
  | refl => exact Frame.refl ..
  | tail hmoves hstep ih =>
    exact ih.trans (hstep.frame (h.moves hmoves) hw) (Moves.grow h hmoves)

end

end Consensus
