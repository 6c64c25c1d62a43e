import HomeKeeper.Raft.LogRefine
import HomeKeeper.Raft.Snapshot
import HomeKeeper.Lib.Replica

/-!
# A server as a replica

Each function of `raft_server.c`, with any messages, members and answers of the callbacks, is a
sequence of moves of the replica that the server stands for (`Server.replica`). Most functions
leave the replica alone; those that send, keep time or count votes do.
-/

namespace HomeKeeper.Raft

open Replica

namespace Out

/-- What was given to the state machine. -/
def applied? : Out → Option (Nat × Entry)
  | .applylog ety idx => some (idx, ety)
  | _ => none

end Out

namespace Server

def replica (s : Server) : Replica.State NodeId Entry where
  term := s.currentTerm
  vote := if s.votedFor = -1 then none else some s.votedFor
  base := s.log.base
  entries := s.log.toList
  commit := s.commitIdx
  applied := s.lastAppliedIdx
  given := s.out.filterMap Out.applied?
  snapshot := if s.snapshotInProgress then some s.snapshotLastIdx else none
  pending := s.votingCfgChangeLogIdx

/-- From `s` the replica moves to where `s'` is. -/
abbrev Goes (cb : Cbs) (changes : Bool) (s s' : Server) : Prop :=
  Moves cb.applylog.isSome changes s.replica s'.replica

variable {cb : Cbs} {changes : Bool} {s s' : Server} {e : Int}

theorem Goes.of_eq (h : s'.replica = s.replica) : Goes cb changes s s' := by
  rw [Goes, h]

theorem Goes.single (h : Move cb.applylog.isSome changes s.replica s'.replica) :
    Goes cb changes s s' :=
  Relation.ReflTransGen.single h

/-- A function that hands its server back with an answer moves nothing. -/
theorem Goes.of_answer {α : Type} {a a' : α} (h : some (a', s) = some (a, s')) :
    Goes cb changes s s' := by
  rw [Option.some.injEq, Prod.mk.injEq] at h
  rw [← h.2]

theorem Goes.of_answer₂ {α β : Type} {a a' : α} {b b' : β}
    (h : some (a', b', s) = some (a, b, s')) : Goes cb changes s s' := by
  simp only [Option.some.injEq, Prod.mk.injEq] at h
  rw [← h.2.2]

theorem replica_last (s : Server) : s.replica.last = s.currentIdx := by
  show s.log.base + s.log.toList.length = s.log.count + s.log.base
  rw [Log.length_toList, Nat.add_comm]

theorem replica_entry (s : Server) (idx : Nat) : s.replica.entry idx = s.getEntryFromIdx idx := by
  rw [getEntryFromIdx, Log.getAtIdx_eq, Log.abs_getAt]
  rfl

theorem replica_emit {o : Out} (h : o.applied? = none) : (s.emit o).replica = s.replica := by
  have hgiven : (s.out ++ [o]).filterMap Out.applied? = s.out.filterMap Out.applied? := by
    rw [List.filterMap_append, List.filterMap_cons_none h, List.filterMap_nil, List.append_nil]
  unfold replica emit
  rw [hgiven]

theorem replica_of_abs {log : Log} (h : log.abs = s.log.abs) :
    ({ s with log := log } : Server).replica = s.replica := by
  have hbase : log.base = s.log.base := congrArg AbsLog.base h
  have hlist : log.toList = s.log.toList := congrArg AbsLog.items h
  simp only [replica, hbase, hlist]

/-! ## Terms, votes and the log -/

theorem setCurrentTerm_goes (cb : Cbs) (T : Nat) (s : Server) :
    Goes cb changes s (s.setCurrentTerm cb T).2 := by
  by_cases hT : s.currentTerm < T
  · obtain ⟨e, -, hset⟩ | hset := setCurrentTerm_cases cb hT
    · rw [hset]
    · rw [hset]
      exact .single (.raise hT)
  · rw [setCurrentTerm, if_neg hT]

theorem voteForNodeid_goes (cb : Cbs) (id : NodeId) (h : s.votedFor = -1) :
    Goes cb changes s (s.voteForNodeid cb id).2 := by
  have hvote : s.replica.vote = none := if_pos h
  obtain ⟨e, -, hset⟩ | hset := voteForNodeid_cases (s := s) cb id
  · rw [hset]
  · rw [hset]
    exact .single (.cast _ hvote)

/-- Outside of an election nothing asks whether there was a vote before. -/
theorem voteForNodeid_step {told loads : Bool} (cb : Cbs) (id : NodeId) (s : Server) :
    Step told changes loads s.replica (s.voteForNodeid cb id).2.replica := by
  obtain ⟨e, -, hset⟩ | hset := voteForNodeid_cases (s := s) cb id
  · rw [hset]
    exact .moves .refl
  · rw [hset]
    exact .revote _

theorem setCommitIdx_goes {idx : Nat} (h : s.setCommitIdx idx = some s') :
    Goes cb changes s s' := by
  unfold setCommitIdx at h
  split at h
  · next hidx =>
    rw [Option.some.injEq] at h
    subst h
    refine .single (.commit hidx.1 ?_)
    rw [replica_last]
    exact hidx.2
  · cases h

theorem note_goes (h : changes = true) :
    Goes cb changes s { s with votingCfgChangeLogIdx := some s.currentIdx } := by
  have hmove : Move cb.applylog.isSome changes s.replica _ := .note h
  rw [replica_last] at hmove
  exact .single hmove

theorem forget_goes {cfg : Option Nat} (h : cfg = s.votingCfgChangeLogIdx ∨
    cfg = none ∧ ∀ i, s.votingCfgChangeLogIdx = some i → s.commitIdx < i) :
    Goes cb changes s { s with votingCfgChangeLogIdx := cfg } := by
  obtain rfl | ⟨rfl, hlt⟩ := h
  · exact .refl
  · exact .single (.forget hlt)

/-- A change noted down or forgotten, and then a log with other entries and the same base. -/
theorem log_goes {cfg : Option Nat} {log : Log} {members : Members}
    (hcfg : Goes cb changes s { s with votingCfgChangeLogIdx := cfg })
    (hbase : log.base = s.log.base)
    (h : Moves cb.applylog.isSome changes { s.replica with pending := cfg }
      { s.replica with pending := cfg, entries := log.toList }) :
    Goes cb changes s { s with votingCfgChangeLogIdx := cfg, log := log, members := members } := by
  refine hcfg.trans ?_
  simp only [replica, hbase] at h ⊢
  exact h

theorem appendEntry_goes {ety : Entry} (hchange : ety.isVotingCfgChange = true → changes = true)
    (h : s.appendEntry cb ety = some (e, s')) : Goes cb changes s s' := by
  obtain ⟨⟨e₁, log, members⟩, hlog, h⟩ := Option.bind_eq_some_iff.mp h
  simp only [Option.some.injEq, Prod.mk.injEq] at h
  obtain ⟨rfl, rfl⟩ := h
  -- the index is noted down before the log is asked
  have hnote : Goes cb changes s { s with votingCfgChangeLogIdx :=
      (if ety.isVotingCfgChange then some s.currentIdx else s.votingCfgChangeLogIdx) } := by
    split
    · next hcfg => exact note_goes (hchange hcfg)
    · exact .refl
  obtain ⟨hbase, ⟨-, hlist, -⟩ | ⟨-, hlist, -⟩⟩ := Log.appendEntry_spec hlog
  · refine log_goes hnote hbase ?_
    rw [hlist]
    exact .single (.append ety)
  · refine log_goes hnote hbase ?_
    rw [hlist]
    exact .refl

theorem appendEntry_entries {ety : Entry} (h : s.appendEntry cb ety = some (0, s')) :
    s'.replica.entries = s.replica.entries ++ [ety] ∧ s'.currentTerm = s.currentTerm := by
  obtain ⟨⟨e₁, log, members⟩, hlog, h⟩ := Option.bind_eq_some_iff.mp h
  simp only [Option.some.injEq, Prod.mk.injEq] at h
  obtain ⟨rfl, rfl⟩ := h
  obtain ⟨-, ⟨-, hlist, -⟩ | ⟨hne, -, -⟩⟩ := Log.appendEntry_spec hlog
  · exact ⟨hlist, rfl⟩
  · exact absurd rfl hne

theorem deleteEntryFromIdx_goes {idx : Nat} (h : s.deleteEntryFromIdx cb idx = some (e, s')) :
    Goes cb changes s s' := by
  unfold deleteEntryFromIdx at h
  split at h
  · next hidx =>
    obtain ⟨⟨e₁, log, members⟩, hlog, h⟩ := Option.bind_eq_some_iff.mp h
    simp only [Option.some.injEq, Prod.mk.injEq] at h
    obtain ⟨rfl, rfl⟩ := h
    obtain ⟨hbase, hprefix, hcount, -⟩ := Log.delete_spec (by omega) hlog
    have hlist : log.toList = s.log.toList.take log.count := by
      rw [← Log.length_toList log]
      exact List.prefix_iff_eq_take.mp hprefix
    refine log_goes (forget_goes ?_) hbase ?_
    · split
      · next i hi =>
        split
        · next hle =>
          refine .inr ⟨rfl, fun j hj => ?_⟩
          obtain rfl : i = j := Option.some.inj (hi.symm.trans hj)
          exact Nat.lt_of_lt_of_le hidx hle
        · exact .inl hi.symm
      · next hi => exact .inl hi.symm
    rw [hlist]
    by_cases hall : s.log.count ≤ log.count
    · rw [List.take_of_length_le (by rw [Log.length_toList]; exact hall)]
      exact .refl
    · refine .single (.truncate ?_)
      show s.commitIdx ≤ s.log.base + log.count
      omega
  · cases h

/-! ## Sending -/

theorem sendRequestvote_replica {id : NodeId} (h : s.sendRequestvote cb id = some (e, s')) :
    s'.replica = s.replica := by
  unfold sendRequestvote at h
  split at h
  · cases h
  · dsimp only at h
    split at h
    · simp only [Option.some.injEq, Prod.mk.injEq] at h
      rw [← h.2]
    · simp only [Option.some.injEq, Prod.mk.injEq] at h
      rw [← h.2]
      exact replica_emit rfl

theorem sendAppendentries_replica {id : NodeId} (h : s.sendAppendentries cb id = some (e, s')) :
    s'.replica = s.replica := by
  unfold sendAppendentries at h
  split at h
  · cases h
  · split at h
    · simp only [Option.some.injEq, Prod.mk.injEq] at h
      rw [← h.2]
    · obtain ⟨node, -, h⟩ := Option.bind_eq_some_iff.mp h
      split at h
      · simp only [Option.some.injEq, Prod.mk.injEq] at h
        rw [← h.2]
        split
        · exact replica_emit rfl
        · rfl
      · obtain ⟨entries, -, h⟩ := Option.bind_eq_some_iff.mp h
        simp only [Option.some.injEq, Prod.mk.injEq] at h
        rw [← h.2]
        exact replica_emit rfl

theorem sendAppendentriesLoop_replica {ids : List NodeId}
    (h : sendAppendentriesLoop cb ids s = some (e, s')) : s'.replica = s.replica := by
  induction ids generalizing s with
  | nil =>
    simp only [sendAppendentriesLoop, Option.some.injEq, Prod.mk.injEq] at h
    rw [← h.2]
  | cons id ids ih =>
    obtain ⟨node, -, h⟩ := Option.bind_eq_some_iff.mp h
    split at h
    · exact ih h
    · obtain ⟨⟨e₁, s₁⟩, hsend, h⟩ := Option.bind_eq_some_iff.mp h
      have hsent := sendAppendentries_replica hsend
      dsimp only at h
      split at h
      · simp only [Option.some.injEq, Prod.mk.injEq] at h
        rw [← h.2, hsent]
      · rw [ih h, hsent]

theorem sendAppendentriesAll_replica (h : s.sendAppendentriesAll cb = some (e, s')) :
    s'.replica = s.replica :=
  sendAppendentriesLoop_replica (s := { s with timeoutElapsed := 0 }) h

/-! ## Elections -/

theorem becomeLeaderLoop_replica {ids : List NodeId} (h : becomeLeaderLoop cb ids s = some s') :
    s'.replica = s.replica := by
  induction ids generalizing s with
  | nil =>
    simp only [becomeLeaderLoop, Option.some.injEq] at h
    rw [← h]
  | cons id ids ih =>
    obtain ⟨node, -, h⟩ := Option.bind_eq_some_iff.mp h
    split at h
    · exact ih h
    · obtain ⟨⟨e₁, s₁⟩, hsend, h⟩ := Option.bind_eq_some_iff.mp h
      rw [ih h, sendAppendentries_replica hsend]
      rfl

theorem becomeLeader_replica (h : s.becomeLeader cb = some s') : s'.replica = s.replica :=
  becomeLeaderLoop_replica (s := { s.setState .leader with timeoutElapsed := 0 }) h

theorem becomeCandidateLoop_replica {ids : List NodeId}
    (h : becomeCandidateLoop cb ids s = some s') : s'.replica = s.replica := by
  induction ids generalizing s with
  | nil =>
    simp only [becomeCandidateLoop, Option.some.injEq] at h
    rw [← h]
  | cons id ids ih =>
    obtain ⟨node, -, h⟩ := Option.bind_eq_some_iff.mp h
    split at h
    · obtain ⟨⟨e₁, s₁⟩, hsend, h⟩ := Option.bind_eq_some_iff.mp h
      rw [ih h, sendRequestvote_replica hsend]
    · exact ih h

theorem standForElection_goes (h : s.votedFor = -1) : Goes cb changes s (s.standForElection cb) :=
  voteForNodeid_goes (s := { s with
    members := { s.members with nodes := s.members.nodes.map (Node.voteForMe false) } }) cb _ h

theorem becomeCandidate_goes (h : s.becomeCandidate cb = some (e, s')) : Goes cb changes s s' := by
  have hlt := Nat.lt_succ_self s.currentTerm
  unfold becomeCandidate at h
  obtain ⟨e₁, he₁, hset⟩ | hset := setCurrentTerm_cases cb hlt
  · simp only [hset, if_pos he₁, Option.some.injEq, Prod.mk.injEq] at h
    rw [← h.2]
  · simp only [hset, ne_eq, not_true_eq_false, if_false] at h
    obtain ⟨s₁, hloop, heq⟩ := Option.map_eq_some_iff.mp h
    simp only [Prod.mk.injEq] at heq
    obtain ⟨-, rfl⟩ := heq
    have hraise : Goes cb changes s { s with currentTerm := s.currentTerm + 1, votedFor := -1 } :=
      .single (.raise hlt)
    exact (hraise.trans (standForElection_goes rfl)).trans
      (Goes.of_eq (becomeCandidateLoop_replica hloop))

theorem votedFor_of_shouldGrantVote {vr : RequestVote} (h : s.shouldGrantVote vr = some true) :
    s.votedFor = -1 := by
  obtain ⟨my, -, h⟩ := Option.bind_eq_some_iff.mp h
  split at h
  · cases h
  · split at h
    · cases h
    · split at h
      · cases h
      · next hvoted => exact not_not.mp hvoted

theorem decideVote_goes {node : Option NodeId} {vr : RequestVote} {r : RequestVoteResponse}
    (h : s.decideVote cb node vr = some (e, r, s')) : Goes cb changes s s' := by
  obtain ⟨grant, hgrant, h⟩ := Option.bind_eq_some_iff.mp h
  cases grant with
  | false =>
    simp only [Bool.false_eq_true, if_false, Option.some.injEq, Prod.mk.injEq] at h
    rw [← h.2.2]
  | true =>
    rw [if_pos rfl] at h
    split at h
    · cases h
    · simp only [Option.some.injEq, Prod.mk.injEq] at h
      obtain ⟨-, -, rfl⟩ := h
      exact voteForNodeid_goes cb _ (votedFor_of_shouldGrantVote hgrant)

theorem recvRequestvote_goes {node : Option NodeId} {vr : RequestVote} {r : RequestVoteResponse}
    (h : s.recvRequestvote cb node vr = some (e, r, s')) : Goes cb changes s s' := by
  have hterm : Goes cb changes s (s.setCurrentTerm cb vr.term).2 := setCurrentTerm_goes cb vr.term s
  unfold recvRequestvote at h
  cases node
  all_goals
    dsimp only at h
    split at h
    · simp only [Option.some.injEq, Prod.mk.injEq] at h
      rw [← h.2.2]
    · split at h
      · split at h
        · simp only [Option.some.injEq, Prod.mk.injEq] at h
          exact h.2.2 ▸ hterm
        · have hdecide : Goes cb changes _ s' := decideVote_goes h
          exact hterm.trans hdecide
      · exact decideVote_goes h

theorem recvRequestvoteResponse_goes {node : Option NodeId} {r : RequestVoteResponse}
    (h : s.recvRequestvoteResponse cb node r = some (e, s')) : Goes cb changes s s' := by
  have hterm : Goes cb changes s (s.setCurrentTerm cb r.term).2 := setCurrentTerm_goes cb r.term s
  unfold recvRequestvoteResponse at h
  split at h
  · simp only [Option.some.injEq, Prod.mk.injEq] at h
    rw [← h.2]
  · split at h
    · dsimp only at h
      split at h
      · simp only [Option.some.injEq, Prod.mk.injEq] at h
        exact h.2 ▸ hterm
      · simp only [Option.some.injEq, Prod.mk.injEq] at h
        exact h.2 ▸ hterm
    · split at h
      · simp only [Option.some.injEq, Prod.mk.injEq] at h
        rw [← h.2]
      · split at h
        · -- the vote is counted whether or not the sender is a node
          cases node
          all_goals
            dsimp only at h
            split at h
            · obtain ⟨s₁, hleader, heq⟩ := Option.map_eq_some_iff.mp h
              simp only [Prod.mk.injEq] at heq
              obtain ⟨-, rfl⟩ := heq
              have hsame := becomeLeader_replica hleader
              exact .of_eq hsame
            · simp only [Option.some.injEq, Prod.mk.injEq] at h
              exact h.2 ▸ .refl
        · simp only [Option.some.injEq, Prod.mk.injEq] at h
          rw [← h.2]
        · obtain ⟨my, -, h⟩ := Option.bind_eq_some_iff.mp h
          simp only [Option.some.injEq, Prod.mk.injEq] at h
          rw [← h.2]

/-! ## Applying -/

theorem commitMembers_replica {ety : Entry} {idx : Nat}
    (h : s.commitMembers cb ety idx = some s') : s'.replica = s.replica := by
  unfold commitMembers at h
  split at h
  · rw [Option.some.injEq] at h
    rw [← h]
  · obtain ⟨getNodeId, -, h⟩ := Option.bind_eq_some_iff.mp h
    dsimp only at h
    split at h
    · obtain ⟨node, -, h⟩ := Option.bind_eq_some_iff.mp h
      rw [Option.some.injEq] at h
      exact h ▸ rfl
    · obtain ⟨node, -, h⟩ := Option.bind_eq_some_iff.mp h
      rw [Option.some.injEq] at h
      exact h ▸ rfl
    · rw [Option.some.injEq] at h
      exact h ▸ rfl
    · split at h
      · obtain ⟨members, -, rfl⟩ := Option.map_eq_some_iff.mp h
        rfl
      · rw [Option.some.injEq] at h
        rw [← h]
    · rw [Option.some.injEq] at h
      rw [← h]

/-- The server after the entry `ety` went to the state machine. -/
def applied (cb : Cbs) (ety : Entry) (s : Server) : Server :=
  let s₁ := { s with lastAppliedIdx := s.lastAppliedIdx + 1 }
  if cb.applylog.isSome then s₁.emit (.applylog ety (s.lastAppliedIdx + 1)) else s₁

theorem replica_applied (cb : Cbs) (ety : Entry) (s : Server) :
    (s.applied cb ety).replica
      = s.replica.apply cb.applylog.isSome ety s.votingCfgChangeLogIdx := by
  unfold applied
  cases cb.applylog.isSome with
  | false => simp [replica, State.apply]
  | true =>
    simp only [replica, State.apply, emit, if_true, List.filterMap_append]
    rfl

theorem applyEntry_goes (h : s.applyEntry cb = some (e, s')) :
    Goes cb changes s s' ∧ s'.commitIdx = s.commitIdx := by
  unfold applyEntry at h
  split at h
  · simp only [Option.some.injEq, Prod.mk.injEq] at h
    rw [← h.2]
    exact ⟨.refl, rfl⟩
  · split at h
    · simp only [Option.some.injEq, Prod.mk.injEq] at h
      rw [← h.2]
      exact ⟨.refl, rfl⟩
    · next hne =>
      dsimp only at h
      split at h
      · simp only [Option.some.injEq, Prod.mk.injEq] at h
        rw [← h.2]
        exact ⟨.refl, rfl⟩
      · next ety hety =>
        have hentry : s.replica.entry (s.replica.applied + 1) = some ety :=
          (replica_entry ..).trans hety
        have happlied := replica_applied cb ety s
        have hcommit : (s.applied cb ety).commitIdx = s.commitIdx :=
          congrArg State.commit happlied
        split at h
        · -- the state machine shuts the server down, and the entry counts as applied
          simp only [Option.some.injEq, Prod.mk.injEq] at h
          have hgoes : Goes cb changes s (s.applied cb ety) := by
            rw [Goes, happlied]
            exact .single (.apply hne hentry (Or.inl rfl))
          exact h.2 ▸ ⟨hgoes, hcommit⟩
        · obtain ⟨s₁, hmembers, heq⟩ := Option.map_eq_some_iff.mp h
          simp only [Prod.mk.injEq] at heq
          obtain ⟨-, rfl⟩ := heq
          have hpending : (s.applied cb ety).votingCfgChangeLogIdx = s.votingCfgChangeLogIdx :=
            congrArg State.pending happlied
          -- the note goes when its index is applied
          have hafter : s₁.replica = { (s.applied cb ety).replica with pending :=
              (if (s.applied cb ety).votingCfgChangeLogIdx = some (s.lastAppliedIdx + 1) then none
                else (s.applied cb ety).votingCfgChangeLogIdx) } := commitMembers_replica hmembers
          rw [happlied, hpending] at hafter
          have hrest : s₁.commitIdx = s.commitIdx := congrArg State.commit hafter
          refine ⟨?_, hrest⟩
          rw [Goes, hafter]
          refine .single (.apply hne hentry ?_)
          split
          · next hnext => exact Or.inr ⟨rfl, hnext⟩
          · exact Or.inl rfl

theorem applyLoop_goes {n : Nat} (h : applyLoop cb n s = some (e, s')) :
    Goes cb changes s s' ∧ s'.commitIdx = s.commitIdx := by
  induction n generalizing s with
  | zero =>
    simp only [applyLoop, Option.some.injEq, Prod.mk.injEq] at h
    exact h.2 ▸ ⟨.refl, rfl⟩
  | succ n ih =>
    unfold applyLoop at h
    split at h
    · obtain ⟨⟨e₁, s₁⟩, hentry, h⟩ := Option.bind_eq_some_iff.mp h
      obtain ⟨hgoes, hcommit⟩ := applyEntry_goes hentry
      dsimp only at h
      split at h
      · simp only [Option.some.injEq, Prod.mk.injEq] at h
        exact h.2 ▸ ⟨hgoes, hcommit⟩
      · obtain ⟨hrest, hcommit'⟩ := ih h
        exact ⟨hgoes.trans hrest, hcommit'.trans hcommit⟩
    · simp only [Option.some.injEq, Prod.mk.injEq] at h
      exact h.2 ▸ ⟨.refl, rfl⟩

theorem applyAll_goes (h : s.applyAll cb = some (e, s')) :
    Goes cb changes s s' ∧ s'.commitIdx = s.commitIdx := by
  unfold applyAll at h
  split at h
  · simp only [Option.some.injEq, Prod.mk.injEq] at h
    exact h.2 ▸ ⟨.refl, rfl⟩
  · exact applyLoop_goes h

/-! ## The clock -/

theorem leadAlone_replica (h : s.leadAlone cb = some s') : s'.replica = s.replica := by
  unfold leadAlone at h
  split at h
  · obtain ⟨my, -, h⟩ := Option.bind_eq_some_iff.mp h
    split at h
    · exact becomeLeader_replica h
    · rw [Option.some.injEq] at h
      rw [← h]
  · rw [Option.some.injEq] at h
    rw [← h]

theorem timeouts_goes (h : s.timeouts cb = some (e, s')) : Goes cb changes s s' := by
  unfold timeouts at h
  split at h
  · split at h
    · obtain ⟨⟨e₁, s₁⟩, hsend, heq⟩ := Option.map_eq_some_iff.mp h
      simp only [Prod.mk.injEq] at heq
      exact heq.2 ▸ .of_eq (sendAppendentriesAll_replica hsend)
    · simp only [Option.some.injEq, Prod.mk.injEq] at h
      rw [← h.2]
  · split at h
    · split at h
      · obtain ⟨my, -, h⟩ := Option.bind_eq_some_iff.mp h
        split at h
        · exact becomeCandidate_goes h
        · simp only [Option.some.injEq, Prod.mk.injEq] at h
          rw [← h.2]
      · simp only [Option.some.injEq, Prod.mk.injEq] at h
        rw [← h.2]
    · simp only [Option.some.injEq, Prod.mk.injEq] at h
      rw [← h.2]

theorem periodic_goes {msec : Nat} (h : s.periodic cb msec = some (e, s')) :
    Goes cb changes s s' := by
  obtain ⟨s₁, hlead, h⟩ := Option.bind_eq_some_iff.mp h
  obtain ⟨⟨e₂, s₂⟩, htimeouts, h⟩ := Option.bind_eq_some_iff.mp h
  have hsame := leadAlone_replica hlead
  have hfirst : Goes cb changes s s₁ := .of_eq hsame
  have hsecond := hfirst.trans (timeouts_goes htimeouts)
  dsimp only at h
  split at h
  · simp only [Option.some.injEq, Prod.mk.injEq] at h
    exact h.2 ▸ hsecond
  · split at h
    · exact hsecond.trans (applyAll_goes h).1
    · simp only [Option.some.injEq, Prod.mk.injEq] at h
      exact h.2 ▸ hsecond

/-! ## The entries of a leader -/

theorem acceptTerm_goes (cb : Cbs) (ae : AppendEntries) (s : Server) :
    Goes cb changes s (s.acceptTerm cb ae).2.2 := by
  have hterm : Goes cb changes s (s.setCurrentTerm cb ae.term).2 := setCurrentTerm_goes cb ae.term s
  unfold acceptTerm
  split
  · exact .refl
  · split
    · dsimp only
      split
      · exact hterm
      · exact hterm
    · split
      · exact .refl
      · exact .refl

theorem checkPrev_goes {ae : AppendEntries} {go : Bool}
    (h : s.checkPrev cb ae = some (e, go, s')) : Goes cb changes s s' := by
  unfold checkPrev at h
  split at h
  · split at h
    · split at h
      · exact .of_answer₂ h
      · exact .of_answer₂ h
    · split at h
      · exact .of_answer₂ h
      · split at h
        · split at h
          · exact .of_answer₂ h
          · obtain ⟨⟨e₁, s₁⟩, hdelete, heq⟩ := Option.map_eq_some_iff.mp h
            simp only [Prod.mk.injEq] at heq
            exact heq.2.2 ▸ deleteEntryFromIdx_goes hdelete
        · exact .of_answer₂ h
  · exact .of_answer₂ h

theorem matchLoop_goes {etys rest : List Entry} {idx idx' : Nat}
    (h : matchLoop cb etys idx s = some (e, idx', rest, s')) : Goes cb changes s s' := by
  induction etys generalizing idx with
  | nil =>
    simp only [matchLoop, Option.some.injEq, Prod.mk.injEq] at h
    rw [← h.2.2.2]
  | cons ety etys ih =>
    unfold matchLoop at h
    split at h
    · split at h
      · split at h
        · simp only [Option.some.injEq, Prod.mk.injEq] at h
          rw [← h.2.2.2]
        · obtain ⟨⟨e₁, s₁⟩, hdelete, heq⟩ := Option.map_eq_some_iff.mp h
          simp only [Prod.mk.injEq] at heq
          exact heq.2.2.2 ▸ deleteEntryFromIdx_goes hdelete
      · exact ih h
    · simp only [Option.some.injEq, Prod.mk.injEq] at h
      rw [← h.2.2.2]

theorem matchLoop_rest {etys rest : List Entry} {idx idx' : Nat}
    (h : matchLoop cb etys idx s = some (e, idx', rest, s')) : ∀ ety ∈ rest, ety ∈ etys := by
  induction etys generalizing idx with
  | nil =>
    simp only [matchLoop, Option.some.injEq, Prod.mk.injEq] at h
    rw [← h.2.2.1]
    exact fun _ hety => hety
  | cons ety etys ih =>
    unfold matchLoop at h
    split at h
    · split at h
      · split at h
        · simp only [Option.some.injEq, Prod.mk.injEq] at h
          rw [← h.2.2.1]
          exact fun _ hety => absurd hety List.not_mem_nil
        · obtain ⟨⟨e₁, s₁⟩, -, heq⟩ := Option.map_eq_some_iff.mp h
          simp only [Prod.mk.injEq] at heq
          rw [← heq.2.2.1]
          exact fun _ hety => hety
      · exact fun x hx => List.mem_cons_of_mem _ (ih h x hx)
    · simp only [Option.some.injEq, Prod.mk.injEq] at h
      rw [← h.2.2.1]
      exact fun _ hety => hety

theorem appendLoop_goes {etys : List Entry} {idx idx' : Nat}
    (hchange : ∀ ety ∈ etys, ety.isVotingCfgChange = true → changes = true)
    (h : appendLoop cb etys idx s = some (e, idx', s')) : Goes cb changes s s' := by
  induction etys generalizing idx s with
  | nil =>
    simp only [appendLoop, Option.some.injEq, Prod.mk.injEq] at h
    rw [← h.2.2]
  | cons ety etys ih =>
    obtain ⟨⟨e₁, s₁⟩, happend, h⟩ := Option.bind_eq_some_iff.mp h
    have hgoes := appendEntry_goes (hchange ety (List.mem_cons_self ..)) happend
    dsimp only at h
    split at h
    · simp only [Option.some.injEq, Prod.mk.injEq] at h
      exact h.2.2 ▸ hgoes
    · exact hgoes.trans (ih (fun x hx => hchange x (List.mem_cons_of_mem _ hx)) h)

theorem followCommit_goes {leaderCommit : Nat} (h : s.followCommit leaderCommit = some s') :
    Goes cb changes s s' := by
  unfold followCommit at h
  split at h
  · exact setCommitIdx_goes h
  · rw [Option.some.injEq] at h
    rw [← h]

theorem storeEntries_goes {ae : AppendEntries} {idx : Nat}
    (hchange : ∀ ety ∈ ae.entries, ety.isVotingCfgChange = true → changes = true)
    (h : s.storeEntries cb ae = some (e, idx, s')) : Goes cb changes s s' := by
  obtain ⟨⟨e₁, idx₁, etys, s₁⟩, hmatch, h⟩ := Option.bind_eq_some_iff.mp h
  have hfirst : Goes cb changes s s₁ := matchLoop_goes hmatch
  have hrest := matchLoop_rest hmatch
  dsimp only at h
  split at h
  · simp only [Option.some.injEq, Prod.mk.injEq] at h
    exact h.2.2 ▸ hfirst
  · obtain ⟨⟨e₂, idx₂, s₂⟩, happend, h⟩ := Option.bind_eq_some_iff.mp h
    have hsecond := hfirst.trans
      (appendLoop_goes (fun ety hety => hchange ety (hrest ety hety)) happend)
    dsimp only at h
    split at h
    · simp only [Option.some.injEq, Prod.mk.injEq] at h
      exact h.2.2 ▸ hsecond
    · obtain ⟨s₃, hcommit, h⟩ := Option.bind_eq_some_iff.mp h
      simp only [Option.some.injEq, Prod.mk.injEq] at h
      exact h.2.2 ▸ hsecond.trans (followCommit_goes hcommit)

theorem recvAppendentries_goes {node : Option NodeId} {ae : AppendEntries}
    {r : AppendEntriesResponse}
    (hchange : ∀ ety ∈ ae.entries, ety.isVotingCfgChange = true → changes = true)
    (h : s.recvAppendentries cb node ae = some (e, r, s')) :
    Goes cb changes s s' := by
  have hfirst : Goes cb changes s (s.acceptTerm cb ae).2.2 := acceptTerm_goes cb ae s
  unfold recvAppendentries at h
  dsimp only at h
  split at h
  · simp only [Option.some.injEq, Prod.mk.injEq] at h
    exact h.2.2 ▸ hfirst
  · obtain ⟨⟨e₂, go, s₂⟩, hprev, h⟩ := Option.bind_eq_some_iff.mp h
    have hcheck : Goes cb changes _ s₂ := checkPrev_goes hprev
    have hsecond : Goes cb changes s s₂ := hfirst.trans hcheck
    dsimp only at h
    split at h
    · simp only [Option.some.injEq, Prod.mk.injEq] at h
      exact h.2.2 ▸ hsecond
    · obtain ⟨⟨e₃, idx, s₃⟩, hstore, h⟩ := Option.bind_eq_some_iff.mp h
      simp only [Option.some.injEq, Prod.mk.injEq] at h
      exact h.2.2 ▸ hsecond.trans (storeEntries_goes hchange hstore)

/-! ## The answers of the followers, and clients -/

theorem advanceCommit_goes {point : Nat} (h : s.advanceCommit point = some s') :
    Goes cb changes s s' := by
  unfold advanceCommit at h
  split at h
  · obtain ⟨ety, -, h⟩ := Option.bind_eq_some_iff.mp h
    split at h
    · exact setCommitIdx_goes h
    · rw [Option.some.injEq] at h
      rw [← h]
  · rw [Option.some.injEq] at h
    rw [← h]

theorem backUp_replica {id : NodeId} {node : Node} {r : AppendEntriesResponse}
    (h : s.backUp cb id node r = some (e, s')) : s'.replica = s.replica := by
  unfold backUp at h
  split at h
  · cases h
  · split at h
    · simp only [Option.some.injEq, Prod.mk.injEq] at h
      rw [← h.2]
    · obtain ⟨⟨e₁, s₁⟩, hsend, heq⟩ := Option.map_eq_some_iff.mp h
      simp only [Prod.mk.injEq] at heq
      have hsent := sendAppendentries_replica hsend
      exact heq.2 ▸ hsent

theorem noteSufficientLogs_replica (cb : Cbs) (id : NodeId) (node : Node)
    (r : AppendEntriesResponse) (s : Server) :
    (s.noteSufficientLogs cb id node r).replica = s.replica := by
  unfold noteSufficientLogs
  split
  · rfl
  · split <;> rfl

theorem recvAppendentriesResponse_goes {node : Option NodeId} {r : AppendEntriesResponse}
    (h : s.recvAppendentriesResponse cb node r = some (e, s')) : Goes cb changes s s' := by
  have hterm : Goes cb changes s (s.setCurrentTerm cb r.term).2 := setCurrentTerm_goes cb r.term s
  unfold recvAppendentriesResponse at h
  split at h
  · exact .of_answer h
  · next id =>
    split at h
    · exact .of_answer h
    · split at h
      · dsimp only at h
        split at h
        · simp only [Option.some.injEq, Prod.mk.injEq] at h
          exact h.2 ▸ hterm
        · simp only [Option.some.injEq, Prod.mk.injEq] at h
          exact h.2 ▸ hterm
      · split at h
        · exact .of_answer h
        · obtain ⟨n, -, h⟩ := Option.bind_eq_some_iff.mp h
          split at h
          · exact .of_eq (backUp_replica h)
          · have hnote : Goes cb changes s (s.noteSufficientLogs cb id n r) :=
              .of_eq (noteSufficientLogs_replica ..)
            dsimp only at h
            split at h
            · simp only [Option.some.injEq, Prod.mk.injEq] at h
              exact h.2 ▸ hnote
            · split at h
              · cases h
              · obtain ⟨s₁, hadvance, h⟩ := Option.bind_eq_some_iff.mp h
                have hgoes : Goes cb changes _ s₁ := advanceCommit_goes hadvance
                have hfirst : Goes cb changes s s₁ := hnote.trans hgoes
                split at h
                · obtain ⟨⟨e₂, s₂⟩, hsend, heq⟩ := Option.map_eq_some_iff.mp h
                  simp only [Prod.mk.injEq] at heq
                  exact heq.2 ▸ hfirst.trans (Goes.of_eq (sendAppendentries_replica hsend))
                · simp only [Option.some.injEq, Prod.mk.injEq] at h
                  exact h.2 ▸ hfirst

theorem recvEntryLoop_replica {ids : List NodeId} (h : recvEntryLoop cb ids s = some s') :
    s'.replica = s.replica := by
  induction ids generalizing s with
  | nil =>
    simp only [recvEntryLoop, Option.some.injEq] at h
    rw [← h]
  | cons id ids ih =>
    obtain ⟨node, -, h⟩ := Option.bind_eq_some_iff.mp h
    split at h
    · exact ih h
    · obtain ⟨⟨e₁, s₁⟩, hsend, h⟩ := Option.bind_eq_some_iff.mp h
      rw [ih h, sendAppendentries_replica hsend]

theorem recvEntry_goes {ety : Entry} {r : Option EntryResponse}
    (hchange : ety.isVotingCfgChange = true → changes = true)
    (h : s.recvEntry cb ety = some (e, r, s')) : Goes cb changes s s' := by
  unfold recvEntry at h
  split at h
  · exact .of_answer₂ h
  · split at h
    · exact .of_answer₂ h
    · split at h
      · exact .of_answer₂ h
      · obtain ⟨⟨e₁, s₁⟩, happend, h⟩ := Option.bind_eq_some_iff.mp h
        have hchange₁ : ({ ety with term := s.currentTerm } : Entry).isVotingCfgChange = true →
            changes = true := hchange
        have hfirst := appendEntry_goes hchange₁ happend
        dsimp only at h
        split at h
        · simp only [Option.some.injEq, Prod.mk.injEq] at h
          exact h.2.2 ▸ hfirst
        · obtain ⟨s₂, hloop, h⟩ := Option.bind_eq_some_iff.mp h
          have hsent : Goes cb changes s₁ s₂ := .of_eq (recvEntryLoop_replica hloop)
          have hsecond := hfirst.trans hsent
          -- noted once more, now at the index of the entry itself
          have hnote : ∀ s₃ : Server, Goes cb changes s₃ { s₃ with votingCfgChangeLogIdx :=
              (if ety.isVotingCfgChange then some s₃.currentIdx
                else s₃.votingCfgChangeLogIdx) } := by
            intro s₃
            split
            · next hcfg => exact note_goes (hchange hcfg)
            · exact .refl
          split at h
          · obtain ⟨s₃, hcommit, h⟩ := Option.bind_eq_some_iff.mp h
            simp only [Option.some.injEq, Prod.mk.injEq] at h
            have hthird := hsecond.trans (setCommitIdx_goes hcommit)
            exact h.2.2 ▸ hthird.trans (hnote s₃)
          · simp only [Option.bind_eq_bind, Option.bind_some, Option.some.injEq,
              Prod.mk.injEq] at h
            exact h.2.2 ▸ hsecond.trans (hnote s₂)

/-- The answer to a client says where the entry is. -/
theorem recvEntry_response {ety : Entry} {r : EntryResponse}
    (h : s.recvEntry cb ety = some (e, some r, s')) :
    r.term = s.currentTerm ∧ r.idx = s'.currentIdx ∧
      s'.replica.entries = s.replica.entries ++ [{ ety with term := s.currentTerm }] := by
  unfold recvEntry at h
  split at h
  · simp at h
  · split at h
    · simp at h
    · split at h
      · simp at h
      · obtain ⟨⟨e₁, s₁⟩, happend, h⟩ := Option.bind_eq_some_iff.mp h
        dsimp only at h
        split at h
        · simp at h
        · next he =>
          obtain ⟨s₂, hloop, h⟩ := Option.bind_eq_some_iff.mp h
          rw [not_not.mp he] at happend
          obtain ⟨hlist, hsameTerm⟩ := appendEntry_entries happend
          have hsame := recvEntryLoop_replica hloop
          have hentries : s₂.replica.entries = s₁.replica.entries := congrArg State.entries hsame
          have hterm : s₂.currentTerm = s.currentTerm := (congrArg State.term hsame).trans hsameTerm
          split at h
          · obtain ⟨s₃, hcommit, h⟩ := Option.bind_eq_some_iff.mp h
            simp only [Option.some.injEq, Prod.mk.injEq] at h
            obtain ⟨-, rfl, rfl⟩ := h
            unfold setCommitIdx at hcommit
            split at hcommit
            · rw [Option.some.injEq] at hcommit
              subst hcommit
              exact ⟨hterm, rfl, hentries.trans hlist⟩
            · cases hcommit
          · simp only [Option.bind_eq_bind, Option.bind_some, Option.some.injEq,
              Prod.mk.injEq] at h
            obtain ⟨-, rfl, rfl⟩ := h
            exact ⟨hterm, rfl, hentries.trans hlist⟩

/-! ## Snapshots -/

theorem beginSnapshot_goes {nonblockingApply : Bool}
    (h : s.beginSnapshot cb nonblockingApply = some (e, s')) : Goes cb changes s s' := by
  unfold beginSnapshot at h
  split at h
  · exact .of_answer h
  · split at h
    · exact .of_answer h
    · split at h
      · exact .of_answer h
      · obtain ⟨⟨e₁, s₁⟩, happly, h⟩ := Option.bind_eq_some_iff.mp h
        obtain ⟨hgoes, hcommit⟩ := applyAll_goes happly
        dsimp only at h
        split at h
        · simp only [Option.some.injEq, Prod.mk.injEq] at h
          exact h.2 ▸ hgoes
        · split at h
          · cases h
          · next hall =>
            simp only [Option.some.injEq, Prod.mk.injEq] at h
            -- the target was read before the entries were applied; applying does not move it
            have hmark : Move cb.applylog.isSome changes s₁.replica
                { s₁.replica with snapshot := some s₁.commitIdx } :=
              .beginSnapshot (not_not.mp hall).le
            rw [hcommit] at hmark
            exact h.2 ▸ hgoes.trans (.single hmark)

theorem cancelSnapshot_goes (cb : Cbs) (s : Server) : Goes cb changes s s.cancelSnapshot.2 := by
  unfold cancelSnapshot
  split
  · exact .refl
  · exact .single .endSnapshot

theorem setSnapshotMetadata_goes {idx : Nat} (cb : Cbs) (term : Nat)
    (h : s.snapshotInProgress = true → idx ≤ s.lastAppliedIdx) :
    Goes cb changes s (s.setSnapshotMetadata term idx) := by
  cases hprogress : s.snapshotInProgress with
  | false =>
    refine .of_eq ?_
    simp only [replica, setSnapshotMetadata, hprogress, Bool.false_eq_true, if_false]
  | true =>
    have hmark : Move cb.applylog.isSome changes s.replica
        { s.replica with snapshot := some idx } := .beginSnapshot (h hprogress)
    refine .single ?_
    simp only [replica, setSnapshotMetadata, hprogress, if_true] at hmark ⊢
    exact hmark

/-- Nothing is polled, or one entry from the front. -/
theorem pollEntry_cases (cb : Cbs) (s : Server) :
    (s.pollEntry cb).1 ≠ 0 ∧ (s.pollEntry cb).2.2.replica = s.replica ∨
      (s.pollEntry cb).1 = 0 ∧ (s.pollEntry cb).2.2.replica = s.replica.compact 1 := by
  have hpoll := Log.seen_poll cb.logPoll s.log
  unfold pollEntry
  dsimp only at hpoll ⊢
  unfold AbsLog.poll at hpoll
  split at hpoll
  · simp only [Prod.mk.injEq] at hpoll
    obtain ⟨he, -, habs⟩ := hpoll
    exact .inl ⟨by rw [he]; decide, replica_of_abs habs⟩
  · next ety younger hcons =>
    dsimp only at hpoll
    split at hpoll
    · next hans =>
      simp only [Prod.mk.injEq] at hpoll
      obtain ⟨he, -, habs⟩ := hpoll
      exact .inl ⟨by rw [he]; exact hans, replica_of_abs habs⟩
    · simp only [Prod.mk.injEq] at hpoll
      obtain ⟨he, -, habs⟩ := hpoll
      refine .inr ⟨he, ?_⟩
      have hbase : (s.log.poll cb.logPoll).2.2.base = s.log.base + 1 := congrArg AbsLog.base habs
      have hlist : (s.log.poll cb.logPoll).2.2.toList = younger := congrArg AbsLog.items habs
      rw [Log.abs_items] at hcons
      simp only [replica, State.compact, hbase, hlist, hcons, List.drop_succ_cons, List.drop_zero]

theorem pollEntry_goes (cb : Cbs) (h : s.log.base < s.lastAppliedIdx) :
    Goes cb changes s (s.pollEntry cb).2.2 := by
  obtain ⟨-, heq⟩ | ⟨-, heq⟩ := pollEntry_cases cb s
  · exact .of_eq heq
  · rw [Goes, heq]
    exact .single (.compact (.inl h))

theorem pollLoop_replica (cb : Cbs) (n : Nat) (s : Server) :
    ∃ k, k ≤ n ∧ (pollLoop cb n s).2.replica = s.replica.compact k := by
  induction n generalizing s with
  | zero => exact ⟨0, Nat.le_refl _, rfl⟩
  | succ n ih =>
    unfold pollLoop
    dsimp only
    obtain ⟨he, heq⟩ | ⟨he, heq⟩ := pollEntry_cases cb s
    · rw [if_pos he]
      exact ⟨0, Nat.zero_le _, heq⟩
    · rw [if_neg (not_not.mpr he)]
      -- one entry from the front, and then the rest of the loop
      obtain ⟨k, hk, hrest⟩ := ih (s.pollEntry cb).2.2
      refine ⟨k + 1, Nat.succ_le_succ hk, hrest.trans ?_⟩
      rw [heq]
      simp only [State.compact, List.drop_drop]
      rw [Nat.add_assoc, Nat.add_comm 1 k]

theorem sendSnapshotLoop_replica {ids : List NodeId} (h : sendSnapshotLoop cb ids s = some s') :
    s'.replica = s.replica := by
  induction ids generalizing s with
  | nil =>
    simp only [sendSnapshotLoop, Option.some.injEq] at h
    rw [← h]
  | cons id ids ih =>
    obtain ⟨node, -, h⟩ := Option.bind_eq_some_iff.mp h
    split at h
    · exact ih h
    · split at h
      · rw [ih h, replica_emit rfl]
      · exact ih h

theorem endSnapshot_goes (h : s.endSnapshot cb = some (e, s')) : Goes cb changes s s' := by
  unfold endSnapshot at h
  split at h
  · simp only [Option.some.injEq, Prod.mk.injEq] at h
    rw [← h.2]
  · next hprogress =>
    split at h
    · cases h
    · next hsome =>
      split at h
      · cases h
      · next hreach =>
        obtain ⟨k, hk, hpoll⟩ := pollLoop_replica cb s.getNumSnapshottableLogs s
        have hsnapshot : s.replica.snapshot = some s.snapshotLastIdx := by
          refine if_pos ?_
          simpa using (not_or.mp hprogress).1
        -- the entries polled are those up to the one the snapshot reaches
        have hle : s.replica.base + k ≤ s.snapshotLastIdx := by
          rw [not_not.mp hreach]
          show s.log.base + k ≤ s.commitIdx
          unfold getNumSnapshottableLogs at hk hsome
          split at hsome
          · exact absurd rfl hsome
          · next hcount =>
            rw [if_neg hcount] at hk
            omega
        have hgoes : Goes cb changes s (pollLoop cb s.getNumSnapshottableLogs s).2 := by
          rw [Goes, hpoll]
          exact .single (.compact (.inr ⟨_, hsnapshot, hle⟩))
        dsimp only at h
        split at h
        · simp only [Option.some.injEq, Prod.mk.injEq] at h
          exact h.2 ▸ hgoes
        · have hend := hgoes.trans (.single .endSnapshot)
          split at h
          · simp only [Option.some.injEq, Prod.mk.injEq] at h
            exact h.2 ▸ hend
          · obtain ⟨s₁, hloop, heq⟩ := Option.map_eq_some_iff.mp h
            simp only [Prod.mk.injEq] at heq
            have hsent := sendSnapshotLoop_replica hloop
            have hlast : Goes cb changes s s₁ := hend.trans (Goes.of_eq hsent)
            exact heq.2 ▸ hlast

/-- A snapshot of somebody else is refused, or taken over. -/
theorem beginLoadSnapshot_cases {T i : Nat} (h : s.beginLoadSnapshot T i = some (e, s')) :
    e ≠ 0 ∧ s' = s ∨ e = 0 ∧ Install T i s.replica s'.replica := by
  have hsame : ∀ {e' : Int}, e' ≠ 0 → some (e', s) = some (e, s') →
      e ≠ 0 ∧ s' = s ∨ e = 0 ∧ Install T i s.replica s'.replica := by
    intro e' he heq
    simp only [Option.some.injEq, Prod.mk.injEq] at heq
    exact Or.inl ⟨heq.1 ▸ he, heq.2.symm⟩
  unfold beginLoadSnapshot at h
  split at h
  · exact hsame (by decide) h
  · split at h
    · exact hsame (by decide) h
    · next happlied =>
      split at h
      · exact hsame (by decide) h
      · next hcurrent =>
        split at h
        · exact hsame (by decide) h
        · have hinstall := Install.mk (T := T) (i := i) (s := s.replica)
            (Nat.le_of_not_lt happlied) (by rw [replica_last]; exact Nat.le_of_not_lt hcurrent)
          have hsnapshot : s.replica.snapshot.map (fun _ => i)
              = if s.snapshotInProgress then some i else none := by
            unfold replica
            dsimp only
            split <;> rfl
          rw [hsnapshot] at hinstall
          dsimp only at h
          split at h
          · next hlt =>
            obtain ⟨s₁, hcommit, h⟩ := Option.bind_eq_some_iff.mp h
            obtain ⟨members, -, h⟩ := Option.bind_eq_some_iff.mp h
            simp only [Option.some.injEq, Prod.mk.injEq] at h
            unfold setCommitIdx at hcommit
            split at hcommit
            · rw [Option.some.injEq] at hcommit
              subst hcommit
              have hmax : max s.replica.commit i = i := Nat.max_eq_right (Nat.le_of_lt hlt)
              rw [hmax] at hinstall
              exact Or.inr ⟨h.1.symm, h.2 ▸ hinstall⟩
            · cases hcommit
          · next hge =>
            obtain ⟨s₁, hcommit, h⟩ := Option.bind_eq_some_iff.mp h
            obtain ⟨members, -, h⟩ := Option.bind_eq_some_iff.mp h
            simp only [Option.some.injEq, Prod.mk.injEq] at h
            rw [Option.some.injEq] at hcommit
            subst hcommit
            have hmax : max s.replica.commit i = s.commitIdx :=
              Nat.max_eq_left (Nat.le_of_not_lt hge)
            rw [hmax] at hinstall
            exact Or.inr ⟨h.1.symm, h.2 ▸ hinstall⟩

end Server

end HomeKeeper.Raft
