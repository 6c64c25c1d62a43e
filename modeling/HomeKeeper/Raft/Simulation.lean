import HomeKeeper.Raft.Settled
import HomeKeeper.Lib.ConsensusSteps

/-!
# A server moves as a node of the protocol

`Refines` says how the state of a server stands for a node of `Consensus`, and `OutOk` what a
message that was ever sent says about the history of the terms. For each call of a server there is
a lemma: from a state that refines its node, the call has a result, the node has moves that the
call stands for, and the result refines the node after them.
-/

namespace HomeKeeper.Raft

open Consensus

abbrev Protocol := Consensus.Sys NodeId Entry

abbrev Past := Consensus.Hist NodeId Entry

/-! ## Messages -/

/-- A request of a candidate says how up to date the log was with which it stood. -/
def RvOk (h : Past) (v : NodeId) (rv : RequestVote) : Prop :=
  ∃ ℓ, h.stood (rv.term, v) = some ℓ ∧ rv.candidateId = v ∧ rv.lastLogIdx = ℓ.length ∧
    rv.lastLogTerm = lastTerm Entry.term ℓ

/-- A message of a leader is a part of its log, and what it says to be committed is, within that
part. -/
structure AeOk (h : Past) (v : NodeId) (ae : AppendEntries) : Prop where
  lead : h.lead ae.term = some v
  slice : ∃ p, p.length = ae.prevLogIdx ∧ p ++ ae.entries <+: h.chain ae.term
  prev : ∀ i, ae.prevLogIdx = i + 1 →
    ∃ ety, (h.chain ae.term)[i]? = some ety ∧ ae.prevLogTerm = ety.term
  commit_le : ae.leaderCommit ≤ ae.prevLogIdx + ae.entries.length
  commit : ae.leaderCommit = 0 ∨ ∃ T i, (T, i) ∈ h.committed ∧ T ≤ ae.term ∧
    ae.leaderCommit ≤ i ∧ (h.chain T).take ae.leaderCommit <+: h.chain ae.term
  plain : ∀ ety ∈ ae.entries, ety.isCfgChange = false

def OutOk (h : Past) (v : NodeId) : Out → Prop
  | .requestvote _ rv => RvOk h v rv
  | .appendentries dest ae => dest ≠ v ∧ AeOk h v ae
  | _ => True

/-- The answer of `w` to `v`: a granted vote was cast. -/
def VoteReplyOk (h : Past) (w v : NodeId) (r : RequestVoteResponse) : Prop :=
  r.voteGranted = .granted → ∃ x, h.vote (r.term, w) = some (v, x)

/-- The answer of `w`: what it accepted it holds. -/
def AppendReplyOk (h : Past) (w : NodeId) (r : AppendEntriesResponse) : Prop :=
  r.success = true → (r.term, w, r.currentIdx) ∈ h.acks

section Grow
variable {Q : Quorums NodeId} {h h' : Past} {v w : NodeId}

theorem RvOk.grow (hg : Grow h h') {rv : RequestVote} (hrv : RvOk h v rv) : RvOk h' v rv := by
  obtain ⟨ℓ, hℓ, hrest⟩ := hrv
  exact ⟨ℓ, hg.stood _ _ hℓ, hrest⟩

theorem AeOk.grow (hist : History Entry.term Q h) (hg : Grow h h') {ae : AppendEntries}
    (hae : AeOk h v ae) : AeOk h' v ae where
  lead := hg.lead _ _ hae.lead
  slice := by
    obtain ⟨p, hp, hpre⟩ := hae.slice
    exact ⟨p, hp, hpre.trans (hg.chain _)⟩
  prev i hi := by
    obtain ⟨ety, hety, hterm⟩ := hae.prev i hi
    exact ⟨ety, prefix_getElem? (hg.chain _) hety, hterm⟩
  commit_le := hae.commit_le
  commit := by
    obtain hzero | ⟨T, i, hi, hT, hle, hpre⟩ := hae.commit
    · exact Or.inl hzero
    · refine Or.inr ⟨T, i, hg.committed hi, hT, hle, ?_⟩
      rw [take_eq_of_isPrefix (hg.chain T) (hle.trans (hist.committed_le hi))]
      exact hpre.trans (hg.chain _)
  plain := hae.plain

theorem OutOk.grow (hist : History Entry.term Q h) (hg : Grow h h') {o : Out}
    (ho : OutOk h v o) : OutOk h' v o := by
  cases o with
  | requestvote => exact RvOk.grow hg ho
  | appendentries => exact ⟨ho.1, AeOk.grow hist hg ho.2⟩
  | snapshot => trivial
  | applylog => trivial
  | logClear => trivial

theorem VoteReplyOk.grow (hg : Grow h h') {r : RequestVoteResponse} (hr : VoteReplyOk h w v r) :
    VoteReplyOk h' w v r := by
  intro hgranted
  obtain ⟨x, hx⟩ := hr hgranted
  exact ⟨x, hg.vote _ _ hx⟩

theorem AppendReplyOk.grow (hg : Grow h h') {r : AppendEntriesResponse}
    (hr : AppendReplyOk h w r) : AppendReplyOk h' w r := fun hs => hg.acks (hr hs)

end Grow

/-! ## A server and its node -/

def State.role : State → Role
  | .follower => .follower
  | .candidate => .candidate
  | .leader => .leader

/-- The server `s` is at the point of the protocol where the node `v` is. -/
structure Refines (ids : List NodeId) (sys : Protocol) (v : NodeId) (s : Server) : Prop where
  settled : Settled ids v s
  term_eq : sys.term v = s.currentTerm
  role_eq : sys.role v = s.state.role
  log_eq : sys.log v = s.log.toList
  commit_eq : sys.commit v = s.commitIdx
  voted : s.votedFor = -1 ∧ sys.vote (s.currentTerm, v) = none
    ∨ s.votedFor ≠ -1 ∧ ∃ x, sys.vote (s.currentTerm, v) = some (s.votedFor, x)
  votes : s.state = .candidate → ∀ n ∈ s.members.nodes, n.id ≠ v → n.votedForMe = true →
    n.id ∈ sys.voters s.currentTerm v
  matched : s.state = .leader → ∀ n ∈ s.members.nodes, n.id ≠ v →
    (n.matchIdx = 0 ∨ (s.currentTerm, n.id, n.matchIdx) ∈ sys.acks)
      ∧ n.nextIdx ≤ s.log.toList.length + 1
  outs : ∀ o ∈ s.out, OutOk sys.toHist v o
  applied_le : s.lastAppliedIdx ≤ s.commitIdx
  applied : ∀ ety idx, .applylog ety idx ∈ s.out →
    0 < idx ∧ idx ≤ s.lastAppliedIdx ∧ s.log.toList[idx - 1]? = some ety

/-- The node `v` has moves after which it is where `s` is. -/
def Sim (ids : List NodeId) (sys : Protocol) (v : NodeId) (s : Server) : Prop :=
  ∃ sys', Moves Entry.term (Quorums.majority ids) v sys sys' ∧ Refines ids sys' v s

abbrev Ok (ids : List NodeId) (sys : Protocol) : Prop :=
  Consensus.Inv Entry.term (Quorums.majority ids) sys

section
variable {ids : List NodeId} {sys sys' : Protocol} {v w : NodeId} {s s' : Server}

theorem Sim.refl (h : Refines ids sys v s) : Sim ids sys v s := ⟨sys, .refl, h⟩

/-- A server whose node has not moved still refines it, in a history that has grown. -/
theorem Refines.frame (hinv : Ok ids sys) (h : Refines ids sys w s) (hf : Frame w sys sys')
    (hg : Grow sys.toHist sys'.toHist) : Refines ids sys' w s where
  settled := h.settled
  term_eq := hf.term.trans h.term_eq
  role_eq := hf.role.trans h.role_eq
  log_eq := hf.log.trans h.log_eq
  commit_eq := hf.commit.trans h.commit_eq
  voted := by
    rw [hf.vote]
    exact h.voted
  votes hstate n hn hne hvote := by
    obtain ⟨x, hx⟩ := h.votes hstate n hn hne hvote
    exact ⟨x, hg.vote _ _ hx⟩
  matched hstate n hn hne := by
    obtain ⟨hmatch, hnext⟩ := h.matched hstate n hn hne
    exact ⟨hmatch.imp_right fun hack => hg.acks hack, hnext⟩
  outs o ho := (h.outs o ho).grow hinv.hist hg
  applied_le := h.applied_le
  applied := h.applied

/-! ## Time and messages -/

/-- What the clock and the guess of the leader are, the protocol does not know. -/
theorem Refines.quiet (h : Refines ids sys v s) (timeoutElapsed electionTimeoutRand : Nat)
    (currentLeader : Option NodeId) :
    Refines ids sys v { s with
      timeoutElapsed := timeoutElapsed
      electionTimeoutRand := electionTimeoutRand
      currentLeader := currentLeader } :=
  { h with
    settled := { h.settled with ids_eq := h.settled.ids_eq, node := h.settled.node } }

theorem Refines.emitted (h : Refines ids sys v s) {P : Out → Prop}
    (hemit : Settled.Emitted P s s') (hok : ∀ o, P o → OutOk sys.toHist v o)
    (happly : ∀ ety idx, ¬P (.applylog ety idx)) : Refines ids sys v s' := by
  obtain ⟨outs, rfl, houts⟩ := hemit
  refine { h with
    settled := { h.settled with ids_eq := h.settled.ids_eq, node := h.settled.node }
    outs := fun o ho => ?_
    applied := fun ety idx ho => ?_ }
  · obtain ho | ho := List.mem_append.mp ho
    · exact h.outs o ho
    · exact hok o (houts o ho)
  · obtain ho | ho := List.mem_append.mp ho
    · exact h.applied ety idx ho
    · exact absurd (houts _ ho) (happly ety idx)

/-! ## Terms -/

/-- A later term makes a follower that has not voted. -/
theorem Refines.stepDown (hinv : Ok ids sys) (h : Refines ids sys v s) (cb : Cbs) {T : Nat}
    (hT : s.currentTerm < T) :
    Sim ids sys v (({ s with currentTerm := T, votedFor := -1 } : Server).becomeFollower cb) := by
  have hlt : sys.term v < T := h.term_eq ▸ hT
  refine ⟨_, .single (.advance hlt), ?_⟩
  refine { h with
    settled := { h.settled with ids_eq := h.settled.ids_eq, node := h.settled.node }
    term_eq := Function.update_self ..
    role_eq := Function.update_self ..
    voted := Or.inl ⟨rfl, ?_⟩
    votes := nofun
    matched := nofun }
  by_contra hvote
  obtain ⟨x, hx⟩ := Option.ne_none_iff_exists'.mp hvote
  exact absurd ((hinv.node v).vote_le T x hx) (by omega)

/-- A candidate that hears of the leader of its term. -/
theorem Refines.yield (h : Refines ids sys v s) (cb : Cbs) (hstate : s.state = .candidate) :
    Sim ids sys v (s.becomeFollower cb) := by
  have hrole : sys.role v = .candidate := by rw [h.role_eq, hstate]; rfl
  refine ⟨_, .single (.yield hrole), ?_⟩
  exact { h with
    settled := { h.settled with ids_eq := h.settled.ids_eq, node := h.settled.node }
    role_eq := Function.update_self ..
    votes := nofun
    matched := nofun }

/-! ## Voting -/

/-- A vote for somebody who stood with a log that is up to date. -/
theorem Refines.cast (hinv : Ok ids sys) (h : Refines ids sys v s) {c : NodeId} (hc : c ≠ -1)
    (hnone : s.votedFor = -1) {ℓ : List Entry} (hstood : sys.stood (s.currentTerm, c) = some ℓ)
    (hup : UpToDate Entry.term ℓ s.log.toList) :
    ∃ sys', Moves Entry.term (Quorums.majority ids) v sys sys' ∧
      Refines ids sys' v { s with votedFor := c } ∧
      ∃ x, sys'.vote (s.currentTerm, v) = some (c, x) := by
  have hvote : sys.vote (s.currentTerm, v) = none := by
    obtain ⟨-, hvote⟩ | ⟨hne, -⟩ := h.voted
    · exact hvote
    · exact absurd hnone hne
  rw [← h.term_eq] at hvote hstood
  rw [← h.log_eq] at hup
  have hnew : ∀ x : NodeId × Option (List Entry),
      Function.update sys.vote (sys.term v, v) (some x) (s.currentTerm, v) = some x := by
    intro x
    rw [h.term_eq, Function.update_self]
  have hstep := Step.cast (Q := Quorums.majority ids) hvote hstood hup
  have hg := hstep.grow hinv
  refine ⟨_, .single hstep, ?_, _, hnew _⟩
  refine { h with
    settled := { h.settled with ids_eq := h.settled.ids_eq, node := h.settled.node }
    voted := Or.inr ⟨hc, _, hnew _⟩
    votes := fun hstate n hn hne hflag => ?_
    outs := fun o ho => (h.outs o ho).grow hinv.hist hg }
  obtain ⟨x, hx⟩ := h.votes hstate n hn hne hflag
  exact ⟨x, hg.vote _ _ hx⟩

theorem UpToDate.refl (ℓ : List Entry) : UpToDate Entry.term ℓ ℓ := Or.inr ⟨rfl, Nat.le_refl _⟩

theorem Settled.getLastLogTerm (h : Settled ids v s) :
    s.getLastLogTerm = lastTerm Entry.term s.log.toList := by
  unfold Server.getLastLogTerm lastTerm
  rw [h.currentIdx_eq, List.getLast?_eq_getElem?]
  cases hlen : s.log.toList.length with
  | zero =>
    rw [List.eq_nil_of_length_eq_zero hlen]
    rfl
  | succ n =>
    have hlt : n < s.log.toList.length := by omega
    rw [if_pos (Nat.succ_pos n), h.getEntryFromIdx_succ, Nat.succ_sub_one,
      List.getElem?_eq_getElem hlt]
    rfl

/-! ## Standing for election -/

/-- A candidate before its vote for itself. -/
def standing (cb : Cbs) (s : Server) : Server :=
  { s with
    members := { s.members with nodes := s.members.nodes.map (Node.voteForMe false) }
    currentLeader := none
    state := .candidate
    electionTimeoutRand := s.electionTimeout + cb.rand % s.electionTimeout
    timeoutElapsed := 0 }

theorem standForElection_cases (cb : Cbs) (s : Server) :
    s.standForElection cb = standing cb s
      ∨ s.standForElection cb = { standing cb s with votedFor := s.members.nodeid } := by
  obtain ⟨e, -, hvote⟩ | hvote := Server.voteForNodeid_cases (s := { s with
    members := { s.members with nodes := s.members.nodes.map (Node.voteForMe false) } }) cb
    (s.members.node.getD (-1))
  · left
    simp only [Server.standForElection, Server.vote, hvote]
    rfl
  · right
    simp only [Server.standForElection, Server.vote, hvote]
    rfl

theorem standForElection_keeps (cb : Cbs) (s : Server) :
    (s.standForElection cb).currentTerm = s.currentTerm ∧ (s.standForElection cb).log = s.log := by
  obtain hstand | hstand := standForElection_cases cb s
  · rw [hstand]
    exact ⟨rfl, rfl⟩
  · rw [hstand]
    exact ⟨rfl, rfl⟩

theorem Settled.standing (h : Settled ids v s) (cb : Cbs) : Settled ids v (standing cb s) := by
  refine { h with ids_eq := ?_, node := h.node, counts := ?_, next := ?_ }
  · rw [← h.ids_eq]
    show (s.members.nodes.map _).map Node.id = s.members.nodes.map Node.id
    rw [List.map_map]
    rfl
  · intro n hn
    obtain ⟨n₀, hn₀, rfl⟩ := List.mem_map.mp hn
    exact h.counts n₀ hn₀
  · intro n hn
    obtain ⟨n₀, hn₀, rfl⟩ := List.mem_map.mp hn
    exact h.next n₀ hn₀

theorem Refines.stand (hinv : Ok ids sys) (h : Refines ids sys v s) (cb : Cbs) {T : Nat}
    (hT : s.currentTerm < T) :
    ∃ sys', Moves Entry.term (Quorums.majority ids) v sys sys' ∧
      Refines ids sys' v (standing cb { s with currentTerm := T, votedFor := -1 }) ∧
      sys'.stood (T, v) = some s.log.toList := by
  have hlt : sys.term v < T := h.term_eq ▸ hT
  have hstep : Step Entry.term (Quorums.majority ids) v sys _ := .stand hlt
  have hg := hstep.grow hinv
  have hsettled : Settled ids v ({ s with currentTerm := T, votedFor := -1 } : Server) :=
    { h.settled with ids_eq := h.settled.ids_eq, node := h.settled.node }
  refine ⟨_, .single hstep, ?_, ?_⟩
  · refine { h with
      settled := hsettled.standing cb
      term_eq := Function.update_self ..
      role_eq := Function.update_self ..
      voted := Or.inl ⟨rfl, ?_⟩
      votes := fun _ n hn _ hflag => ?_
      matched := nofun
      outs := fun o ho => (h.outs o ho).grow hinv.hist hg }
    · -- nobody votes in a term before reaching it
      by_contra hvote
      obtain ⟨x, hx⟩ := Option.ne_none_iff_exists'.mp hvote
      exact absurd ((hinv.node v).vote_le T x hx) (by omega)
    · obtain ⟨n₀, -, rfl⟩ := List.mem_map.mp hn
      cases hflag
  · show Function.update sys.stood (T, v) (some (sys.log v)) (T, v) = _
    rw [Function.update_self, h.log_eq]

theorem Refines.becomeCandidate (hinv : Ok ids sys) (h : Refines ids sys v s) (hv : v ≠ -1)
    (cb : Cbs) : ∃ e s', s.becomeCandidate cb = some (e, s') ∧ Sim ids sys v s' := by
  unfold Server.becomeCandidate
  obtain ⟨e, he, hterm⟩ | hterm := Server.setCurrentTerm_cases cb (Nat.lt_succ_self s.currentTerm)
  · rw [hterm]
    dsimp only
    rw [if_pos he]
    exact ⟨e, s, rfl, .refl h⟩
  · rw [hterm]
    dsimp only
    rw [if_neg (fun hne => hne rfl)]
    obtain ⟨sys₁, hmoves₁, href₁, hstood⟩ := h.stand hinv cb (Nat.lt_succ_self s.currentTerm)
    have hinv₁ := hinv.moves hmoves₁
    have hid : ({ s with currentTerm := s.currentTerm + 1, votedFor := -1 } : Server).members.nodeid
        = v := h.settled.nodeid
    -- with or without its own vote, the candidate is one of the protocol
    obtain ⟨sys₂, hmoves₂, href₂, hstood₂⟩ : ∃ sys₂,
        Moves Entry.term (Quorums.majority ids) v sys sys₂ ∧
        Refines ids sys₂ v (({ s with currentTerm := s.currentTerm + 1, votedFor := -1 } :
          Server).standForElection cb) ∧
        sys₂.stood (s.currentTerm + 1, v) = some s.log.toList := by
      obtain hstand | hstand := standForElection_cases cb
        { s with currentTerm := s.currentTerm + 1, votedFor := -1 }
      · rw [hstand]
        exact ⟨sys₁, hmoves₁, href₁, hstood⟩
      · rw [hstand, hid]
        obtain ⟨sys₂, hmoves₂, href₂, -⟩ := href₁.cast hinv₁ hv rfl hstood (UpToDate.refl _)
        exact ⟨sys₂, hmoves₁.trans hmoves₂, href₂, (Moves.grow hinv₁ hmoves₂).stood _ _ hstood⟩
    have hids : ∀ id ∈ Server.nodeIds (Server.standForElection cb
        { s with currentTerm := s.currentTerm + 1, votedFor := -1 }), id ∈ ids :=
      fun id hid => href₂.settled.ids_eq ▸ hid
    obtain ⟨s', hloop, hemit⟩ := href₂.settled.becomeCandidateLoop cb hids
    rw [hloop, Option.map_some]
    refine ⟨0, s', rfl, sys₂, hmoves₂, href₂.emitted hemit ?_ ?_⟩
    · rintro o ⟨id, rfl⟩
      -- the requests carry the log the candidate stood with
      obtain ⟨hterm₂, hlog₂⟩ := standForElection_keeps cb
        { s with currentTerm := s.currentTerm + 1, votedFor := -1 }
      refine ⟨s.log.toList, ?_, href₂.settled.nodeid, ?_, ?_⟩
      · show sys₂.stood (Server.currentTerm _, v) = _
        rw [hterm₂, hstood₂]
      · exact href₂.settled.currentIdx_eq.trans (congrArg (fun l => l.toList.length) hlog₂)
      · exact href₂.settled.getLastLogTerm.trans (congrArg (fun l => lastTerm _ l.toList) hlog₂)
    · rintro ety idx ⟨id, heq⟩
      cases heq

/-! ## Requests for votes -/

/-- A vote is granted to a log that is up to date, by a server that has not voted. -/
theorem Settled.shouldGrantVote (h : Settled ids v s) (hv : v ∈ ids) (vr : RequestVote)
    {ℓ : List Entry} (hidx : vr.lastLogIdx = ℓ.length)
    (hterm : vr.lastLogTerm = lastTerm Entry.term ℓ) :
    ∃ grant, s.shouldGrantVote vr = some grant ∧
      (grant = true → s.currentTerm ≤ vr.term ∧ s.votedFor = -1 ∧
        UpToDate Entry.term ℓ s.log.toList) := by
  obtain ⟨n, hmy, hvoting⟩ := h.myNode hv
  unfold Server.shouldGrantVote
  simp only [hmy, Option.bind_eq_bind, Option.bind_some, hvoting, Bool.not_true, Bool.false_eq_true,
    if_false]
  split
  · exact ⟨false, rfl, nofun⟩
  · next hle =>
    split
    · exact ⟨false, rfl, nofun⟩
    · next hvoted =>
      have hvoted' : s.votedFor = -1 := not_not.mp hvoted
      have hlast := h.getLastLogTerm
      rw [h.currentIdx_eq]
      cases hlen : s.log.toList.length with
      | zero =>
        -- any log is up to date with an empty one
        refine ⟨true, rfl, fun _ => ⟨by omega, hvoted', ?_⟩⟩
        rw [List.eq_nil_of_length_eq_zero hlen]
        exact (Nat.eq_zero_or_pos (lastTerm Entry.term ℓ)).elim
          (fun hzero => Or.inr ⟨hzero.symm, Nat.zero_le _⟩) Or.inl
      | succ k =>
        have hlt : k < s.log.toList.length := by omega
        have hget := h.getEntryFromIdx_succ k
        rw [List.getElem?_eq_getElem hlt] at hget
        have hmine : s.log.toList[k].term = lastTerm Entry.term s.log.toList := by
          rw [← hlast, Server.getLastLogTerm, h.currentIdx_eq, hlen, if_pos (Nat.succ_pos k), hget]
        rw [if_neg (Nat.succ_ne_zero k), hget]
        dsimp only
        split
        · next hlater =>
          refine ⟨true, rfl, fun _ => ⟨by omega, hvoted', Or.inl ?_⟩⟩
          rw [← hmine, ← hterm]
          exact hlater
        · refine ⟨_, rfl, fun hgrant => ⟨by omega, hvoted', Or.inr ?_⟩⟩
          simp only [Bool.and_eq_true, beq_iff_eq, decide_eq_true_eq] at hgrant
          rw [← hmine, ← hterm, hlen, ← hidx]
          exact ⟨hgrant.1.symm, hgrant.2⟩

theorem Refines.decideVote (hinv : Ok ids sys) (h : Refines ids sys v s) (hv : v ∈ ids)
    {src : NodeId} (hsrc : src ≠ -1) {cb : Cbs} {node : Option NodeId} {rv : RequestVote}
    (hrv : RvOk sys.toHist src rv) (hterm : rv.term ≤ s.currentTerm) {e : Int}
    {r : RequestVoteResponse} (hres : s.decideVote cb node rv = some (e, r, s')) :
    ∃ sys', Moves Entry.term (Quorums.majority ids) v sys sys' ∧ Refines ids sys' v s' ∧
      VoteReplyOk sys'.toHist v src r := by
  obtain ⟨ℓ, hstood, hcand, hidx, hlast⟩ := hrv
  obtain ⟨grant, hshould, hgrant⟩ := h.settled.shouldGrantVote hv rv hidx hlast
  unfold Server.decideVote at hres
  rw [hshould, Option.bind_eq_bind, Option.bind_some] at hres
  cases grant with
  | false =>
    simp only [Bool.false_eq_true, if_false, Option.some.injEq, Prod.mk.injEq] at hres
    obtain ⟨-, rfl, rfl⟩ := hres
    refine ⟨sys, .refl, h, fun hgranted => ?_⟩
    -- neither `notGranted` nor `unknownNode` is a vote
    split at hgranted <;> cases hgranted
  | true =>
    obtain ⟨hle, hnone, hup⟩ := hgrant rfl
    have hsame : rv.term = s.currentTerm := Nat.le_antisymm hterm hle
    simp only [if_true] at hres
    split at hres
    · cases hres
    · obtain ⟨e', he', hvote⟩ | hvote := Server.voteForNodeid_cases (s := s) cb rv.candidateId
      · simp only [hvote, Option.some.injEq, Prod.mk.injEq] at hres
        obtain ⟨-, rfl, rfl⟩ := hres
        refine ⟨sys, .refl, h.quiet _ _ _, fun hgranted => ?_⟩
        rw [if_neg he'] at hgranted
        cases hgranted
      · simp only [hvote, Option.some.injEq, Prod.mk.injEq] at hres
        obtain ⟨-, rfl, rfl⟩ := hres
        rw [hsame] at hstood
        obtain ⟨sys', hmoves, href, hcast⟩ := h.cast hinv hsrc hnone hstood hup
        rw [← hcand] at href hcast
        refine ⟨sys', hmoves, href.quiet _ _ _, fun _ => ?_⟩
        rw [← hcand]
        exact hcast

theorem Refines.recvRequestvote (hinv : Ok ids sys) (h : Refines ids sys v s) (hv : v ∈ ids)
    {src : NodeId} (hsrc : src ≠ -1) {cb : Cbs} {rv : RequestVote}
    (hrv : RvOk sys.toHist src rv) {e : Int} {r : RequestVoteResponse}
    (hres : s.recvRequestvote cb (some src) rv = some (e, r, s')) :
    ∃ sys', Moves Entry.term (Quorums.majority ids) v sys sys' ∧ Refines ids sys' v s' ∧
      VoteReplyOk sys'.toHist v src r := by
  unfold Server.recvRequestvote at hres
  dsimp only at hres
  split at hres
  · simp only [Option.some.injEq, Prod.mk.injEq] at hres
    obtain ⟨-, rfl, rfl⟩ := hres
    exact ⟨sys, .refl, h, nofun⟩
  · split at hres
    · next hlt =>
      obtain ⟨e', he', hset⟩ | hset := Server.setCurrentTerm_cases cb hlt
      · simp only [hset, if_pos he', Option.some.injEq, Prod.mk.injEq] at hres
        obtain ⟨-, rfl, rfl⟩ := hres
        exact ⟨sys, .refl, h, nofun⟩
      · simp only [hset, ne_eq, not_true_eq_false, if_false] at hres
        obtain ⟨sys₁, hmoves₁, href₁⟩ := h.stepDown hinv cb hlt
        have hinv₁ := hinv.moves hmoves₁
        obtain ⟨sys₂, hmoves₂, href₂, hreply⟩ := (href₁.quiet _ _ none).decideVote hinv₁ hv hsrc
          (hrv.grow (Moves.grow hinv hmoves₁)) (Nat.le_refl _) hres
        exact ⟨sys₂, hmoves₁.trans hmoves₂, href₂, hreply⟩
    · next hge => exact h.decideVote hinv hv hsrc hrv (by omega) hres

/-- The server has a leader that is not `node`, and has heard it lately. -/
def HearsAnother (node : Option NodeId) (s : Server) : Prop :=
  s.currentLeader.isSome ∧ s.currentLeader ≠ node ∧ s.timeoutElapsed < s.electionTimeout

theorem Settled.decideVote_eq_none_iff (h : Settled ids v s) (hv : v ∈ ids) (cb : Cbs)
    (node : Option NodeId) {rv : RequestVote} {hist : Past} {src : NodeId}
    (hrv : RvOk hist src rv) :
    s.decideVote cb node rv = none ↔ s.shouldGrantVote rv = some true ∧ s.state ≠ .follower := by
  obtain ⟨ℓ, -, -, hidx, hlast⟩ := hrv
  obtain ⟨grant, hshould, -⟩ := h.shouldGrantVote hv rv hidx hlast
  unfold Server.decideVote
  rw [hshould, Option.bind_eq_bind, Option.bind_some]
  cases grant with
  | false => simp
  | true => cases hstate : s.state <;> simp

/-- The assertion in `raft_recv_requestvote` fails in one case: a server that stands or leads in
the term of the request has not voted, itself included. -/
theorem Settled.recvRequestvote_eq_none_iff (h : Settled ids v s) (hv : v ∈ ids) (cb : Cbs)
    {rv : RequestVote} {hist : Past} {src : NodeId} (hrv : RvOk hist src rv) :
    s.recvRequestvote cb (some src) rv = none ↔
      ¬ HearsAnother (some src) s ∧ rv.term = s.currentTerm ∧ s.votedFor = -1 ∧
        s.shouldGrantVote rv = some true ∧ s.state ≠ .follower := by
  unfold Server.recvRequestvote
  dsimp only
  split
  · next hhears =>
    refine iff_of_false nofun fun hnone => hnone.1 ?_
    exact hhears
  · next hhears =>
    have hnot : ¬ HearsAnother (some src) s := hhears
    split
    · next hlt =>
      -- a later term makes the server a follower, and a follower may grant
      refine iff_of_false ?_ fun hnone => absurd hnone.2.1 (by omega)
      obtain ⟨e', he', hset⟩ | hset := Server.setCurrentTerm_cases cb hlt
      · simp only [hset, if_pos he']
        nofun
      · simp only [hset, ne_eq, not_true_eq_false, if_false]
        intro hnone
        have hsettled : Settled ids v
            { ({ s with currentTerm := rv.term, votedFor := -1 } : Server).becomeFollower cb with
              currentLeader := none } := { h with }
        exact ((hsettled.decideVote_eq_none_iff hv cb _ hrv).mp hnone).2 rfl
    · next hge =>
      rw [h.decideVote_eq_none_iff hv cb _ hrv]
      constructor
      · rintro ⟨hgrant, hstate⟩
        obtain ⟨ℓ, -, -, hidx, hlast⟩ := hrv
        obtain ⟨grant, hshould, hif⟩ := h.shouldGrantVote hv rv hidx hlast
        rw [hgrant, Option.some.injEq] at hshould
        obtain ⟨hle, hvoted, -⟩ := hif hshould.symm
        exact ⟨hnot, by omega, hvoted, hgrant, hstate⟩
      · rintro ⟨-, -, -, hgrant, hstate⟩
        exact ⟨hgrant, hstate⟩

/-! ## Leading -/

/-- What a leader sends is a part of its log up to the end. -/
theorem AeOk.of_leader (hinv : Ok ids sys) (hsettled : Settled ids v s)
    (hterm : sys.term v = s.currentTerm) (hrole : sys.role v = .leader)
    (hlog : sys.log v = s.log.toList) (hcommit : sys.commit v = s.commitIdx) {nextIdx : Nat}
    (hpos : 0 < nextIdx) (hle : nextIdx ≤ s.log.toList.length + 1) :
    AeOk sys.toHist v (Settled.aeFrom s nextIdx) := by
  have hlead := (hinv.node v).leader hrole
  have hchain := (hinv.node v).chain hlead
  have hcommitLe := hinv.commit_le v
  have hknown := (hinv.node v).known
  rw [hterm] at hlead hchain hknown
  rw [hlog] at hchain hcommitLe hknown
  rw [hcommit] at hcommitLe hknown
  obtain ⟨hidx, hprev⟩ := hsettled.prevLog_eq hpos hle
  constructor
  · exact hlead
  · refine ⟨s.log.toList.take (nextIdx - 1), ?_, ?_⟩
    · show _ = (s.prevLog nextIdx).1
      rw [hidx, List.length_take]
      omega
    · show s.log.toList.take (nextIdx - 1) ++ s.log.toList.drop (nextIdx - 1) <+: sys.chain _
      rw [List.take_append_drop]
      exact hchain ▸ List.prefix_rfl
  · intro i hi
    replace hi : (s.prevLog nextIdx).1 = i + 1 := hi
    obtain ⟨ety, hety, hety'⟩ := hprev i (by omega)
    refine ⟨ety, ?_, hety'⟩
    show (sys.chain s.currentTerm)[i]? = some ety
    rw [hchain, hety]
  · show s.commitIdx ≤ (s.prevLog nextIdx).1 + (s.log.toList.drop (nextIdx - 1)).length
    rw [hidx, List.length_drop]
    omega
  · show s.commitIdx = 0 ∨ ∃ T i, (T, i) ∈ sys.committed ∧ T ≤ s.currentTerm ∧ s.commitIdx ≤ i ∧
      (sys.chain T).take s.commitIdx <+: sys.chain s.currentTerm
    rw [hchain]
    exact hknown
  · intro ety hety
    exact hsettled.plain ety (List.mem_of_mem_drop hety)

theorem Refines.aeOut (hinv : Ok ids sys) (h : Refines ids sys v s) (hstate : s.state = .leader)
    {o : Out} (ho : Settled.AeOut v s o) : OutOk sys.toHist v o := by
  obtain ⟨n, hn, hne, rfl⟩ := ho
  have hrole : sys.role v = .leader := by rw [h.role_eq, hstate]; rfl
  exact ⟨hne, AeOk.of_leader hinv h.settled h.term_eq hrole h.log_eq h.commit_eq
    (h.settled.next n hn) (h.matched hstate n hn hne).2⟩

theorem Settled.AeOut.not_applylog {ety : Entry} {idx : Nat} :
    ¬Settled.AeOut v s (.applylog ety idx) := by
  rintro ⟨n, -, -, heq⟩
  cases heq

open scoped Classical in
/-- The other nodes with a property, and perhaps the server itself, among all. -/
theorem countP_others_le {nodes : List Node} (hv : v ∈ nodes.map Node.id) {A : Set NodeId}
    {f : Node → Bool} (hf : ∀ n ∈ nodes, n.id ≠ v → f n = true → n.id ∈ A) (self : Bool)
    (hself : self = true → v ∈ A) :
    nodes.countP (fun n => decide (n.id ≠ v) && f n) + self.toNat
      ≤ (nodes.map Node.id).countP fun w => decide (w ∈ A) := by
  rw [List.countP_map,
    List.countP_eq_countP_filter_add nodes ((fun w => decide (w ∈ A)) ∘ Node.id)
      fun n => decide (n.id ≠ v)]
  refine Nat.add_le_add ?_ ?_
  · rw [List.countP_filter]
    refine List.countP_mono_left fun n hn hfn => ?_
    simp only [Bool.and_eq_true, decide_eq_true_eq] at hfn
    simp only [Function.comp, Bool.and_eq_true, decide_eq_true_eq]
    exact ⟨hf n hn hfn.1 hfn.2, hfn.1⟩
  · cases self with
    | false => exact Nat.zero_le _
    | true =>
      obtain ⟨n, hn, hnid⟩ := List.mem_map.mp hv
      refine List.countP_pos_iff.mpr ⟨n, List.mem_filter.mpr ⟨hn, by simp [hnid]⟩, ?_⟩
      simp only [Function.comp, decide_eq_true_eq, hnid]
      exact hself rfl

theorem Settled.reset (h : Settled ids v s) (todo : List NodeId) (k : Nat) (outs : List Out) :
    Settled ids v { s with
      members := ⟨Settled.resetAll todo v (k + 1) s.members.nodes, s.members.node⟩
      out := outs } := by
  refine { h with ids_eq := ?_, node := h.node, counts := ?_, next := ?_ }
  · rw [← h.ids_eq]
    show (s.members.nodes.map _).map Node.id = s.members.nodes.map Node.id
    rw [List.map_map]
    refine List.map_congr_left fun n _ => ?_
    simp only [Function.comp]
    split <;> rfl
  · intro n hn
    obtain ⟨n₀, hn₀, rfl⟩ := List.mem_map.mp hn
    split
    · exact h.counts n₀ hn₀
    · exact h.counts n₀ hn₀
  · intro n hn
    obtain ⟨n₀, hn₀, rfl⟩ := List.mem_map.mp hn
    split
    · show 0 < if k + 1 < 1 then 1 else k + 1
      split <;> omega
    · exact h.next n₀ hn₀

theorem Refines.becomeLeader (hinv : Ok ids sys) (h : Refines ids sys v s) (cb : Cbs)
    (hstate : s.state = .candidate)
    (hquorum : (Quorums.majority ids).IsQuorum (sys.voters s.currentTerm v)) :
    ∃ s', s.becomeLeader cb = some s' ∧ Sim ids sys v s' := by
  have hrole : sys.role v = .candidate := by rw [h.role_eq, hstate]; rfl
  rw [← h.term_eq] at hquorum
  have hstep : Step Entry.term (Quorums.majority ids) v sys _ := .elect hrole hquorum
  have hg := hstep.grow hinv
  have hinv' := hinv.step hstep
  have hsettled : Settled ids v { s.setState .leader with timeoutElapsed := 0 } :=
    { h.settled with ids_eq := h.settled.ids_eq, node := h.settled.node }
  have hids : ∀ id ∈ Server.nodeIds { s.setState .leader with timeoutElapsed := 0 }, id ∈ ids :=
    fun id hid => hsettled.ids_eq ▸ hid
  obtain ⟨s', outs, hloop, rfl, houts⟩ := hsettled.becomeLeaderLoop cb hids
  refine ⟨_, hloop, _, .single hstep, ?_⟩
  refine { h with
    settled := hsettled.reset _ _ _
    role_eq := Function.update_self ..
    votes := nofun
    matched := fun _ n hn hne => ?_
    outs := fun o ho => ?_
    applied := fun ety idx ho => ?_ }
  · -- nothing is known of the logs of the others yet
    obtain ⟨n₀, hn₀, rfl⟩ := List.mem_map.mp hn
    have hne₀ : n₀.id ≠ v := by
      split at hne <;> exact hne
    rw [if_pos ⟨List.mem_map_of_mem hn₀, hne₀⟩]
    refine ⟨Or.inl rfl, ?_⟩
    show (if s.currentIdx + 1 < 1 then 1 else s.currentIdx + 1) ≤ s.log.toList.length + 1
    rw [if_neg (by omega), h.settled.currentIdx_eq]
  · obtain ho | ho := List.mem_append.mp ho
    · exact (h.outs o ho).grow hinv.hist hg
    · obtain ⟨id, hne, rfl⟩ := houts o ho
      refine ⟨hne, AeOk.of_leader (s := { s.setState .leader with timeoutElapsed := 0 }) hinv'
        hsettled h.term_eq (Function.update_self ..) h.log_eq h.commit_eq (Nat.succ_pos _) ?_⟩
      exact Nat.le_of_eq (congrArg (· + 1) hsettled.currentIdx_eq)
  · obtain ho | ho := List.mem_append.mp ho
    · exact h.applied ety idx ho
    · obtain ⟨id, -, heq⟩ := houts _ ho
      cases heq

/-! ## Votes -/

/-- The votes a candidate counts were cast for it. -/
theorem Refines.voters_quorum (h : Refines ids sys v s) (hv : v ∈ ids) (hne : v ≠ -1)
    (hstate : s.state = .candidate)
    (hmajority : Server.votesIsMajority s.members.numVotingNodes s.getNvotesForMe = true) :
    (Quorums.majority ids).IsQuorum (sys.voters s.currentTerm v) := by
  have hmap : s.members.nodes.map Node.id = ids := h.settled.ids_eq
  have hcount : ids.length / 2 + 1 ≤ s.getNvotesForMe := by
    rw [Server.votesIsMajority, h.settled.numVotingNodes] at hmajority
    split at hmajority
    · cases hmajority
    · exact of_decide_eq_true hmajority
  -- the count of the source, with the server's own vote apart
  have hcongr : s.getNvotesForMe
      = s.members.nodes.countP (fun n => decide (n.id ≠ v) && (n.counts && n.votedForMe))
        + (decide (s.votedFor = v)).toNat := by
    unfold Server.getNvotesForMe
    rw [h.settled.nodeid]
    congr 1
    · refine List.countP_congr fun n _ => ?_
      simp only [h.settled.node, ne_eq, Option.some.injEq, Bool.and_assoc, eq_comm (a := v)]
    · by_cases hself : s.votedFor = v <;> simp [hself]
  have hothers := countP_others_le (A := sys.voters s.currentTerm v)
    (f := fun n => n.counts && n.votedForMe) (hmap ▸ hv)
    (fun n hn hne hf => h.votes hstate n hn hne (Bool.and_eq_true_iff.mp hf).2)
    (decide (s.votedFor = v)) (fun hself => by
      have hself' := of_decide_eq_true hself
      obtain ⟨hnone, -⟩ | ⟨-, x, hx⟩ := h.voted
      · exact absurd (hself'.symm.trans hnone) hne
      · exact ⟨x, by rw [hx, hself']⟩)
  rw [hmap] at hothers
  show ids.length / 2 < _
  omega

theorem Refines.noteVote (h : Refines ids sys v s) {src : NodeId}
    (hvote : src ∈ sys.voters s.currentTerm v) :
    Refines ids sys v { s with members := s.members.modify src (Node.voteForMe true) } := by
  refine { h with
    settled := h.settled.modify src (fun _ => rfl) (fun _ => rfl) (fun _ hn => hn)
    votes := fun hstate n hn hne hflag => ?_
    matched := fun hstate n hn hne => ?_ }
  · obtain ⟨n₀, hn₀, rfl⟩ := Settled.mem_modify hn
    by_cases hsrc : n₀.id = src
    · rw [if_pos hsrc]
      show n₀.id ∈ _
      rw [hsrc]
      exact hvote
    · rw [if_neg hsrc] at hne hflag ⊢
      exact h.votes hstate n₀ hn₀ hne hflag
  · obtain ⟨n₀, hn₀, rfl⟩ := Settled.mem_modify hn
    by_cases hsrc : n₀.id = src
    · rw [if_pos hsrc] at hne ⊢
      exact h.matched hstate n₀ hn₀ hne
    · rw [if_neg hsrc] at hne ⊢
      exact h.matched hstate n₀ hn₀ hne

theorem Refines.recvRequestvoteResponse (hinv : Ok ids sys) (h : Refines ids sys v s)
    (hv : v ∈ ids) (hne : v ≠ -1) (cb : Cbs) {src : NodeId} {r : RequestVoteResponse}
    (hreply : VoteReplyOk sys.toHist src v r) :
    ∃ e s', s.recvRequestvoteResponse cb (some src) r = some (e, s') ∧ Sim ids sys v s' := by
  unfold Server.recvRequestvoteResponse
  split
  · exact ⟨0, s, rfl, .refl h⟩
  · next hstate =>
    have hcandidate : s.state = .candidate := not_not.mp hstate
    split
    · next hlt =>
      obtain ⟨e, he, hset⟩ | hset := Server.setCurrentTerm_cases cb hlt
      · rw [hset]
        dsimp only
        rw [if_pos he]
        exact ⟨e, s, rfl, .refl h⟩
      · rw [hset]
        dsimp only
        rw [if_neg (fun hne => hne rfl)]
        obtain ⟨sys', hmoves, href⟩ := h.stepDown hinv cb hlt
        exact ⟨0, _, rfl, sys', hmoves, href.quiet _ _ none⟩
    · split
      · exact ⟨0, s, rfl, .refl h⟩
      · next hterm =>
        have hsame : s.currentTerm = r.term := not_not.mp hterm
        cases hgranted : r.voteGranted with
        | notGranted => exact ⟨0, s, rfl, .refl h⟩
        | unknownNode =>
          obtain ⟨n, hmy, -⟩ := h.settled.myNode hv
          simp only [hmy, Option.bind_eq_bind, Option.bind_some]
          exact ⟨_, s, rfl, .refl h⟩
        | granted =>
          have hvote : src ∈ sys.voters s.currentTerm v := by
            rw [hsame]
            exact hreply hgranted
          have h' := h.noteVote hvote
          dsimp only
          split
          · next hmajority =>
            obtain ⟨s', hlead, hsim⟩ :=
              h'.becomeLeader hinv cb hcandidate (h'.voters_quorum hv hne hcandidate hmajority)
            rw [hlead]
            exact ⟨0, s', rfl, hsim⟩
          · exact ⟨0, _, rfl, .refl h'⟩

end

end HomeKeeper.Raft
