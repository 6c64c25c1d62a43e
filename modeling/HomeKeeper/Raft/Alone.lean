import HomeKeeper.Raft.Safety
import HomeKeeper.Raft.ServerRuns

/-!
# A server that is alone

`raft/raft.cpp` makes a server with itself as the only member and calls `raft_periodic` for ever.
Such a server leads from the first call on, in the term 0 and without a vote. It commits an entry
of a client when it is appended, and sends nothing.
-/

namespace HomeKeeper.Raft

open StepSystem

/-- Time passes, or a client has an entry that leaves the members alone. -/
def Call.isLocal : Call → Bool
  | .periodic _ => true
  | .recvEntry ety => !ety.isCfgChange
  | _ => false

def Call.isPeriodic : Call → Bool
  | .periodic _ => true
  | _ => false

structure Alone (v : NodeId) (s : Server) : Prop where
  settled : Settled [v] v s
  commit_eq : s.commitIdx = s.currentIdx
  applied_le : s.lastAppliedIdx ≤ s.commitIdx
  term_eq : s.currentTerm = 0
  votedFor_eq : s.votedFor = -1
  outs : ∀ o ∈ s.out, ∃ ety idx, o = .applylog ety idx

section
variable {v : NodeId} {s : Server}

theorem Alone.start {cb : Cbs} (halloc : ∀ id, cb.nodeNew id = true) (v : NodeId) :
    Alone v (startServer cb [v] v) := by
  have href := refines_start halloc (List.pairwise_singleton _ v) (List.mem_singleton_self v)
  have hstart := startServer_eq halloc (List.pairwise_singleton _ v) (List.mem_singleton_self v)
  refine ⟨href.settled, ?_, ?_, ?_, ?_, ?_⟩
  all_goals rw [hstart]
  · rfl
  · exact Nat.le_refl _
  · rfl
  · rfl
  · exact fun o ho => absurd ho List.not_mem_nil

/-- The loops over the other nodes find none. -/
theorem Settled.loops_alone (h : Settled [v] v s) (cb : Cbs) :
    Server.becomeLeaderLoop cb s.nodeIds s = some s ∧
      Server.sendAppendentriesLoop cb s.nodeIds s = some (0, s) ∧
      Server.recvEntryLoop cb s.nodeIds s = some s := by
  obtain ⟨n, -, -, hget⟩ := h.getNode (List.mem_singleton_self v)
  rw [h.ids_eq]
  refine ⟨?_, ?_, ?_⟩
  · rw [Server.becomeLeaderLoop, hget]
    exact if_pos (Or.inl h.node)
  · rw [Server.sendAppendentriesLoop, hget]
    exact if_pos (Or.inl h.node)
  · rw [Server.recvEntryLoop, hget]
    exact if_pos (Or.inl h.node)

theorem Alone.leadAlone (h : Alone v s) (cb : Cbs) :
    ∃ s', s.leadAlone cb = some s' ∧ Alone v s' ∧ s'.state = .leader := by
  obtain ⟨n, hmy, hvoting⟩ := h.settled.myNode (List.mem_singleton_self v)
  have hone : s.members.numVotingNodes = 1 := h.settled.numVotingNodes
  unfold Server.leadAlone
  rw [if_pos hone, hmy]
  simp only [Option.bind_eq_bind, Option.bind_some, hvoting, true_and]
  split
  · have hsettled : Settled [v] v { s.setState .leader with timeoutElapsed := 0 } :=
      { h.settled with ids_eq := h.settled.ids_eq, node := h.settled.node }
    refine ⟨_, (hsettled.loops_alone cb).1, ?_, rfl⟩
    exact { h with settled := hsettled }
  · next hleader => exact ⟨s, rfl, h, not_not.mp hleader⟩

theorem Alone.timeouts (h : Alone v s) (hstate : s.state = .leader) (cb : Cbs) :
    ∃ s', s.timeouts cb = some (0, s') ∧ Alone v s' ∧ s'.state = .leader := by
  unfold Server.timeouts
  rw [if_pos hstate]
  split
  · have hsettled : Settled [v] v { s with timeoutElapsed := 0 } :=
      { h.settled with ids_eq := h.settled.ids_eq, node := h.settled.node }
    refine ⟨{ s with timeoutElapsed := 0 }, ?_, { h with settled := hsettled }, hstate⟩
    unfold Server.sendAppendentriesAll
    dsimp only
    rw [(hsettled.loops_alone cb).2.1, Option.map_some]
  · exact ⟨s, rfl, h, hstate⟩

theorem Alone.applyAll (h : Alone v s) (hstate : s.state = .leader) (cb : Cbs) :
    ∃ e s', s.applyAll cb = some (e, s') ∧ Alone v s' ∧ s'.state = .leader := by
  have hle : s.commitIdx ≤ s.log.toList.length := by
    rw [h.commit_eq, h.settled.currentIdx_eq]
  obtain ⟨e, k, cfg, outs, hloop, -, hk, houts⟩ :=
    h.settled.applyLoop cb (s.commitIdx - s.lastAppliedIdx) hle h.applied_le
  unfold Server.applyAll
  rw [h.settled.isApplyAllowed, if_neg (by simp), hloop]
  refine ⟨e, _, rfl, ?_, hstate⟩
  refine { h with
    settled := { h.settled with ids_eq := h.settled.ids_eq, node := h.settled.node }
    applied_le := hk
    outs := fun o ho => ?_ }
  obtain ho | ho := List.mem_append.mp ho
  · exact h.outs o ho
  · obtain ⟨ety, i, rfl, -, -⟩ := houts o ho
    exact ⟨ety, i + 1, rfl⟩

theorem Alone.periodic (h : Alone v s) (cb : Cbs) (msec : Nat) :
    ∃ e s', s.periodic cb msec = some (e, s') ∧ Alone v s' ∧ s'.state = .leader := by
  have hlater : Alone v { s with timeoutElapsed := s.timeoutElapsed + msec } :=
    { h with settled := { h.settled with ids_eq := h.settled.ids_eq, node := h.settled.node } }
  obtain ⟨s₁, hlead, h₁, hstate₁⟩ := hlater.leadAlone cb
  obtain ⟨s₂, htimeouts, h₂, hstate₂⟩ := h₁.timeouts hstate₁ cb
  unfold Server.periodic
  rw [hlead]
  simp only [Option.bind_eq_bind, Option.bind_some, htimeouts, ne_eq, not_true_eq_false, if_false]
  split
  · exact h₂.applyAll hstate₂ cb
  · exact ⟨0, s₂, rfl, h₂, hstate₂⟩

theorem Alone.recvEntry (h : Alone v s) (cb : Cbs) {ety : Entry}
    (hplain : ety.isCfgChange = false) :
    ∃ e r s', s.recvEntry cb ety = some (e, r, s') ∧ Alone v s' ∧ s'.state = s.state := by
  have hvoting := isVotingCfgChange_of_plain hplain
  unfold Server.recvEntry
  rw [if_neg (by simp [hvoting]), if_neg (by simp [hvoting])]
  split
  · exact ⟨_, none, s, rfl, h, rfl⟩
  · have hplain₁ : ({ ety with term := s.currentTerm } : Entry).isCfgChange = false := hplain
    obtain ⟨e, s₁, happend, hlist, hsettled₁, hs₁⟩ := h.settled.appendEntry cb hplain₁
    simp only [happend, Option.bind_eq_bind, Option.bind_some]
    have hcommit₁ : s₁.commitIdx = s.commitIdx := by rw [hs₁]
    have happlied₁ : s₁.lastAppliedIdx = s.lastAppliedIdx := by rw [hs₁]
    obtain ⟨rfl, hlog⟩ | ⟨he, hlog⟩ := hlist
    · -- the entry is committed as soon as it is there
      have hidx : s₁.currentIdx = s.currentIdx + 1 := by
        rw [hsettled₁.currentIdx_eq, h.settled.currentIdx_eq, hlog, List.length_append,
          List.length_singleton]
      have hcommit := h.commit_eq
      have happlied := h.applied_le
      have hone : s₁.members.numVotingNodes = 1 := hsettled₁.numVotingNodes
      rw [if_neg (fun hne => hne rfl), (hsettled₁.loops_alone cb).2.2]
      simp only [Option.bind_some]
      rw [if_pos hone, Server.setCommitIdx,
        if_pos ⟨by omega, Nat.le_refl _⟩]
      have hnot : ¬({ ety with term := s.currentTerm } : Entry).isVotingCfgChange = true :=
        fun hcfg => Bool.false_ne_true (hvoting.symm.trans hcfg)
      refine ⟨0, some ⟨ety.id, s₁.currentTerm, s₁.currentIdx⟩,
        { s₁ with commitIdx := s₁.currentIdx }, ?_, ?_, ?_⟩
      · simp only [Option.bind_some, if_neg hnot]
        rfl
      · refine ⟨{ hsettled₁ with ids_eq := hsettled₁.ids_eq, node := hsettled₁.node }, rfl, ?_, ?_,
          ?_, ?_⟩
        · show s₁.lastAppliedIdx ≤ s₁.currentIdx
          omega
        · show s₁.currentTerm = 0
          rw [hs₁]
          exact h.term_eq
        · show s₁.votedFor = -1
          rw [hs₁]
          exact h.votedFor_eq
        · show ∀ o ∈ s₁.out, _
          rw [hs₁]
          exact h.outs
      · show s₁.state = s.state
        rw [hs₁]
    · -- the log did not take the entry, and reaches as far as before
      rw [if_pos he]
      refine ⟨e, none, s₁, rfl, ⟨hsettled₁, ?_, ?_, ?_, ?_, ?_⟩, ?_⟩
      · rw [hcommit₁, h.commit_eq, hsettled₁.currentIdx_eq, h.settled.currentIdx_eq, hlog]
      · rw [hcommit₁, happlied₁]
        exact h.applied_le
      all_goals rw [hs₁]
      · exact h.term_eq
      · exact h.votedFor_eq
      · exact h.outs

theorem Alone.call (h : Alone v s) (cb : Cbs) {c : Call} (hlocal : c.isLocal = true) :
    ∃ s', s.call (cb, c) = some s' ∧ Alone v s' ∧
      (s'.state = .leader ↔ s.state = .leader ∨ c.isPeriodic = true) := by
  cases c with
  | periodic msec =>
    obtain ⟨e, s', hcall, h', hstate⟩ := h.periodic cb msec
    refine ⟨s', by rw [Server.call, hcall, Option.map_some], h', ?_⟩
    exact iff_of_true hstate (Or.inr rfl)
  | recvEntry ety =>
    rw [Call.isLocal, Bool.not_eq_true'] at hlocal
    obtain ⟨e, r, s', hcall, h', hstate⟩ := h.recvEntry cb hlocal
    refine ⟨s', by rw [Server.call, hcall, Option.map_some], h', ?_⟩
    rw [hstate]
    exact ⟨Or.inl, fun hor => hor.resolve_right Bool.false_ne_true⟩
  | _ => exact absurd hlocal Bool.false_ne_true

theorem Alone.run (h : Alone v s) {es : List (Cbs × Call)}
    (hlocal : ∀ e ∈ es, e.2.isLocal = true) :
    ∃ s', run Server.call s es = some s' ∧ Alone v s' ∧
      (s'.state = .leader ↔ s.state = .leader ∨ ∃ e ∈ es, e.2.isPeriodic = true) := by
  induction es generalizing s with
  | nil => exact ⟨s, run_nil s, h, by simp⟩
  | cons e es ih =>
    obtain ⟨cb, c⟩ := e
    obtain ⟨s₁, hcall, h₁, hstate₁⟩ := h.call cb (hlocal (cb, c) List.mem_cons_self)
    obtain ⟨s', hrun, h', hstate⟩ := ih h₁ fun e he => hlocal e (List.mem_cons_of_mem _ he)
    refine ⟨s', run_cons.mpr ⟨s₁, hcall, hrun⟩, h', ?_⟩
    rw [hstate, hstate₁, or_assoc]
    simp only [List.exists_mem_cons_iff]

end

/-- A server that is its only member answers every call, whatever its callbacks return: it never
fails an assertion. It leads as soon as time has passed once, without an election and in the term
it was made with. Every entry of its log is committed, and it calls no other server. -/
theorem server_alone {cb : Cbs} (halloc : ∀ id, cb.nodeNew id = true) (v : NodeId)
    {es : List (Cbs × Call)} (hlocal : ∀ e ∈ es, e.2.isLocal = true) :
    ∃ s, run Server.call (startServer cb [v] v) es = some s ∧
      (s.state = .leader ↔ ∃ e ∈ es, e.2.isPeriodic = true) ∧
      s.commitIdx = s.currentIdx ∧ s.lastAppliedIdx ≤ s.commitIdx ∧
      s.currentTerm = 0 ∧ s.votedFor = -1 ∧ ∀ o ∈ s.out, ∃ ety idx, o = .applylog ety idx := by
  obtain ⟨s, hrun, h, hstate⟩ := (Alone.start halloc v).run hlocal
  refine ⟨s, hrun, ?_, h.commit_eq, h.applied_le, h.term_eq, h.votedFor_eq, h.outs⟩
  rw [hstate]
  have hfollower : (startServer cb [v] v).state = .follower := by
    rw [startServer_eq halloc (List.pairwise_singleton _ v) (List.mem_singleton_self v)]
    rfl
  rw [hfollower]
  exact ⟨fun hor => hor.resolve_left nofun, Or.inr⟩

/-- The main of `raft.cpp` sets no callbacks. -/
def unset : Cbs where
  sendRequestvote := none
  sendAppendentries := none
  sendSnapshot := false
  applylog := none
  persistVote := none
  persistTerm := none
  logOffer := none
  logPop := none
  logPoll := none
  logClear := false
  logGetNodeId := none
  nodeHasSufficientLogs := none
  calloc _ := true
  nodeNew _ := true
  rand := 0

/-- Three rounds of the main of `raft.cpp`. -/
theorem server_alone_main :
    ∃ s, run Server.call (startServer unset [0] 0)
        (List.replicate 3 (unset, .periodic 1000)) = some s ∧
      s.state = .leader ∧ s.currentTerm = 0 := by
  have halloc : ∀ id, unset.nodeNew id = true := fun _ => rfl
  have hlocal : ∀ e ∈ List.replicate 3 (unset, Call.periodic 1000), e.2.isLocal = true := by decide
  obtain ⟨s, hrun, hstate, -, -, hterm, -, -⟩ := server_alone halloc 0 hlocal
  exact ⟨s, hrun, hstate.mpr ⟨(unset, .periodic 1000), by simp, rfl⟩, hterm⟩

end HomeKeeper.Raft
