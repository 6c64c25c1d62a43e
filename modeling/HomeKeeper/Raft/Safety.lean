import HomeKeeper.Raft.Cluster
import HomeKeeper.Raft.SimulationLog
import HomeKeeper.Raft.ServerMoves
import HomeKeeper.Lib.Run

/-!
# The safety of a cluster

A cluster is in a state of the protocol of `Consensus` (`Represents`), and stays in one along every
run (`Represents.run`). With the history growing, what is said about one point of a run can be
compared with what is said about another:

* one leader for a term, in the whole run;
* logs with an entry of one term in one place are equal up to there;
* what a server takes for committed, every leader of a term that is not earlier has in its log;
* what servers take for committed, or applied, is the same wherever both reach.

The members are at least two: a server that is alone leads without an election.
-/

namespace HomeKeeper.Raft

open Consensus

/-! ## The start -/

/-- The members can be added, and their ids are different and not the id of nobody. -/
structure Configured (cb : NodeId → Cbs) (ids : List NodeId) : Prop where
  nodup : ids.Nodup
  nobody : -1 ∉ ids
  two : 2 ≤ ids.length
  alloc : ∀ v id, (cb v).nodeNew id = true

theorem getNode_of_not_mem {m : Members} {id : NodeId} (h : id ∉ m.nodes.map Node.id) :
    m.getNode id = none := by
  refine List.find?_eq_none.mpr fun n hn heq => h ?_
  exact List.mem_map.mpr ⟨n, hn, by simpa using heq⟩

theorem foldl_addNode {cb : Cbs} (halloc : ∀ id, cb.nodeNew id = true) (v : NodeId) (s : Server)
    {ids : List NodeId} (hnodup : ids.Nodup) (hnew : ∀ id ∈ ids, id ∉ s.nodeIds) :
    ids.foldl (fun s id => s.addNode cb id (id == v)) s
      = { s with members :=
          ⟨s.members.nodes ++ ids.map Node.new, if v ∈ ids then some v else s.members.node⟩ } := by
  induction ids generalizing s with
  | nil => simp
  | cons id ids ih =>
    have hget : s.members.getNode id = none :=
      getNode_of_not_mem (hnew id (List.mem_cons_self ..))
    have hadd : s.addNode cb id (id == v) = { s with members :=
        ⟨s.members.nodes ++ [Node.new id], if id = v then some id else s.members.node⟩ } := by
      simp only [Server.addNode, Members.addNodeInternal, hget, halloc, Bool.not_true,
        Bool.false_eq_true, if_false, beq_iff_eq]
    obtain ⟨hnot, hnodup'⟩ := List.nodup_cons.mp hnodup
    rw [List.foldl_cons, hadd, ih _ hnodup' ?_]
    · simp only [List.append_assoc, List.singleton_append, List.map_cons]
      congr 2
      by_cases hv : v ∈ ids
      · rw [if_pos hv, if_pos (List.mem_cons_of_mem _ hv)]
      · rw [if_neg hv]
        by_cases hid : id = v
        · rw [if_pos hid, if_pos (by rw [hid]; exact List.mem_cons_self ..), hid]
        · rw [if_neg hid, if_neg (by simp [hv, Ne.symm hid])]
    · intro x hx hmem
      simp only [Server.nodeIds, List.map_append, List.mem_append] at hmem
      obtain hmem | hmem := hmem
      · exact hnew x (List.mem_cons_of_mem _ hx) hmem
      · obtain rfl : x = id := by simpa [Node.new] using hmem
        exact hnot hx

theorem startServer_eq {cb : Cbs} (halloc : ∀ id, cb.nodeNew id = true) {ids : List NodeId}
    (hnodup : ids.Nodup) {v : NodeId} (hv : v ∈ ids) :
    startServer cb ids v = { Server.new cb with members := ⟨ids.map Node.new, some v⟩ } := by
  rw [startServer, foldl_addNode halloc v _ hnodup (fun id _ => List.not_mem_nil), if_pos hv]
  rfl

theorem refines_start {cb : Cbs} (halloc : ∀ id, cb.nodeNew id = true) {ids : List NodeId}
    (hnodup : ids.Nodup) {v : NodeId} (hv : v ∈ ids) :
    Refines ids Sys.init v (startServer cb ids v) := by
  rw [startServer_eq halloc hnodup hv]
  -- a new node is active and votes, and its next entry is the first
  have hnode : ∀ n ∈ ids.map Node.new, ∃ id, n = Node.new id := by
    intro n hn
    obtain ⟨id, -, rfl⟩ := List.mem_map.mp hn
    exact ⟨id, rfl⟩
  constructor
  · refine ⟨?_, rfl, ?_, ?_, rfl, rfl, rfl, rfl, nofun⟩
    · show (ids.map Node.new).map Node.id = ids
      rw [List.map_map]
      exact List.map_id ids
    · intro n hn
      obtain ⟨id, rfl⟩ := hnode n hn
      rfl
    · intro n hn
      obtain ⟨id, rfl⟩ := hnode n hn
      exact Nat.one_pos
  · rfl
  · rfl
  · rfl
  · rfl
  · exact Or.inl ⟨rfl, rfl⟩
  · nofun
  · nofun
  · nofun
  · exact Nat.le_refl _
  · nofun

/-! ## Runs -/

/-- The cluster is at a point of the protocol. -/
structure Represents (ids : List NodeId) (cl : Cluster) (sys : Protocol) : Prop where
  inv : Ok ids sys
  server : ∀ v ∈ ids, Refines ids sys v (cl.server v)
  voteReplies : ∀ x ∈ cl.voteReplies, VoteReplyOk sys.toHist x.1 x.2.1 x.2.2
  appendReplies : ∀ x ∈ cl.appendReplies, x.1 ≠ x.2.1 ∧ AppendReplyOk sys.toHist x.1 x.2.2

section
variable {ids : List NodeId} {cl cl' : Cluster} {sys sys' : Protocol} {v : NodeId}

theorem Represents.start {cb : NodeId → Cbs} (h : Configured cb ids) :
    Represents ids (Cluster.start cb ids) Sys.init where
  inv := Inv.init
  server v hv := refines_start (h.alloc v) h.nodup hv
  voteReplies := nofun
  appendReplies := nofun

/-- One server moved, and answers may have been given. -/
theorem Represents.move (h : Represents ids cl sys)
    (hmoves : Moves Entry.term (Quorums.majority ids) v sys sys') {s : Server}
    (hserver : Refines ids sys' v s) (votes : List (NodeId × NodeId × RequestVoteResponse))
    (appends : List (NodeId × NodeId × AppendEntriesResponse))
    (hvotes : ∀ x ∈ votes, VoteReplyOk sys'.toHist x.1 x.2.1 x.2.2)
    (happends : ∀ x ∈ appends, x.1 ≠ x.2.1 ∧ AppendReplyOk sys'.toHist x.1 x.2.2) :
    Represents ids { cl.setServer v s with
      voteReplies := cl.voteReplies ++ votes
      appendReplies := cl.appendReplies ++ appends } sys' := by
  have hg := Moves.grow h.inv hmoves
  refine ⟨h.inv.moves hmoves, fun w hw => ?_, fun x hx => ?_, fun x hx => ?_⟩
  · -- the others have not moved, and see a longer history
    show Refines ids sys' w (Function.update cl.server v s w)
    by_cases hwv : w = v
    · rw [hwv, Function.update_self]
      exact hserver
    · rw [Function.update_of_ne hwv]
      exact (h.server w hw).frame h.inv (Moves.frame h.inv hmoves hwv) hg
  · obtain hx | hx := List.mem_append.mp hx
    · exact (h.voteReplies x hx).grow hg
    · exact hvotes x hx
  · obtain hx | hx := List.mem_append.mp hx
    · exact ⟨(h.appendReplies x hx).1, (h.appendReplies x hx).2.grow hg⟩
    · exact happends x hx

theorem Represents.moveOnly (h : Represents ids cl sys) {s : Server} (hsim : Sim ids sys v s) :
    ∃ sys', Represents ids (cl.setServer v s) sys' ∧ Grow sys.toHist sys'.toHist := by
  obtain ⟨sys', hmoves, href⟩ := hsim
  refine ⟨sys', ?_, Moves.grow h.inv hmoves⟩
  have hmove := h.move hmoves href [] [] nofun nofun
  simp only [List.append_nil] at hmove
  exact hmove

theorem Represents.perform (hnobody : -1 ∉ ids) (htwo : 2 ≤ ids.length)
    (h : Represents ids cl sys) {ev : Event} (hen : cl.Enabled ids ev)
    (hperform : cl.perform ev = some cl') :
    ∃ sys', Represents ids cl' sys' ∧ Grow sys.toHist sys'.toHist := by
  have hsome : ∀ {v : NodeId}, v ∈ ids → v ≠ -1 := fun hv heq => hnobody (heq ▸ hv)
  cases ev with
  | periodic v cb msec =>
    obtain ⟨e, s, hcall, hsim⟩ := (h.server v hen).periodic h.inv htwo hen (hsome hen) cb msec
    rw [Cluster.perform, hcall, Option.map_some, Option.some.injEq] at hperform
    exact hperform ▸ h.moveOnly hsim
  | recvEntry v cb ety =>
    obtain ⟨e, r, s, hcall, hsim⟩ := (h.server v hen.1).recvEntry h.inv htwo cb hen.2
    rw [Cluster.perform, hcall, Option.map_some, Option.some.injEq] at hperform
    exact hperform ▸ h.moveOnly hsim
  | recvRequestvote v cb src rv =>
    obtain ⟨⟨e, r, s⟩, hcall, rfl⟩ := Option.map_eq_some_iff.mp hperform
    -- a request that was sent is true of the history, however late it comes
    have hrv : RvOk sys.toHist src rv := (h.server src hen.2.1).outs _ hen.2.2
    obtain ⟨sys', hmoves, href, hreply⟩ :=
      (h.server v hen.1).recvRequestvote h.inv hen.1 (hsome hen.2.1) hrv hcall
    refine ⟨sys', ?_, Moves.grow h.inv hmoves⟩
    have hmove := h.move hmoves href [(v, src, r)] [] (by simpa using hreply) nofun
    simp only [List.append_nil] at hmove
    exact hmove
  | recvRequestvoteResponse v cb src r =>
    obtain ⟨e, s, hcall, hsim⟩ := (h.server v hen.1).recvRequestvoteResponse h.inv hen.1
      (hsome hen.1) cb (h.voteReplies _ hen.2.2)
    rw [Cluster.perform, hcall, Option.map_some, Option.some.injEq] at hperform
    exact hperform ▸ h.moveOnly hsim
  | recvAppendentries v cb src ae =>
    have hae : v ≠ src ∧ AeOk sys.toHist src ae := (h.server src hen.2.1).outs _ hen.2.2
    obtain ⟨e, r, s, hcall, sys', hmoves, href, hreply⟩ :=
      (h.server v hen.1).recvAppendentries h.inv cb hae.2
    rw [Cluster.perform, hcall, Option.map_some, Option.some.injEq] at hperform
    refine ⟨sys', ?_, Moves.grow h.inv hmoves⟩
    have hmove := h.move hmoves href [] [(v, src, r)] nofun (by simpa using ⟨hae.1, hreply⟩)
    simp only [List.append_nil] at hmove
    exact hperform ▸ hmove
  | recvAppendentriesResponse v cb src r =>
    obtain ⟨hne, hreply⟩ := h.appendReplies _ hen.2.2
    obtain ⟨e, s, hcall, hsim⟩ := (h.server v hen.1).recvAppendentriesResponse h.inv hen.1 cb
      hen.2.1 hne hreply
    rw [Cluster.perform, hcall, Option.map_some, Option.some.injEq] at hperform
    exact hperform ▸ h.moveOnly hsim

theorem Represents.step (hnobody : -1 ∉ ids) (htwo : 2 ≤ ids.length) (h : Represents ids cl sys)
    {ev : Event} (hstep : cl.step ids ev = some cl') :
    ∃ sys', Represents ids cl' sys' ∧ Grow sys.toHist sys'.toHist := by
  rw [Cluster.step] at hstep
  split at hstep
  · next hen => exact h.perform hnobody htwo hen hstep
  · cases hstep

/-- All calls but one come back. -/
theorem Represents.perform_eq_none_iff (hnobody : -1 ∉ ids) (htwo : 2 ≤ ids.length)
    (h : Represents ids cl sys) {ev : Event} (hen : cl.Enabled ids ev) :
    cl.perform ev = none ↔ ∃ v cb src rv, ev = .recvRequestvote v cb src rv ∧
      ¬ HearsAnother (some src) (cl.server v) ∧ rv.term = (cl.server v).currentTerm ∧
      (cl.server v).votedFor = -1 ∧ (cl.server v).shouldGrantVote rv = some true ∧
      (cl.server v).state ≠ .follower := by
  have hsome : ∀ {v : NodeId}, v ∈ ids → v ≠ -1 := fun hv heq => hnobody (heq ▸ hv)
  cases ev with
  | periodic v cb msec =>
    obtain ⟨e, s, hcall, -⟩ := (h.server v hen).periodic h.inv htwo hen (hsome hen) cb msec
    simp [Cluster.perform, hcall]
  | recvEntry v cb ety =>
    obtain ⟨e, r, s, hcall, -⟩ := (h.server v hen.1).recvEntry h.inv htwo cb hen.2
    simp [Cluster.perform, hcall]
  | recvRequestvote v cb src rv =>
    have hrv : RvOk sys.toHist src rv := (h.server src hen.2.1).outs _ hen.2.2
    rw [Cluster.perform, Option.map_eq_none_iff,
      (h.server v hen.1).settled.recvRequestvote_eq_none_iff hen.1 cb hrv]
    constructor
    · intro hcase
      exact ⟨v, cb, src, rv, rfl, hcase⟩
    · rintro ⟨v', cb', src', rv', heq, hcase⟩
      cases heq
      exact hcase
  | recvRequestvoteResponse v cb src r =>
    obtain ⟨e, s, hcall, -⟩ := (h.server v hen.1).recvRequestvoteResponse h.inv hen.1
      (hsome hen.1) cb (h.voteReplies _ hen.2.2)
    simp [Cluster.perform, hcall]
  | recvAppendentries v cb src ae =>
    have hae : v ≠ src ∧ AeOk sys.toHist src ae := (h.server src hen.2.1).outs _ hen.2.2
    obtain ⟨e, r, s, hcall, -⟩ := (h.server v hen.1).recvAppendentries h.inv cb hae.2
    simp [Cluster.perform, hcall]
  | recvAppendentriesResponse v cb src r =>
    obtain ⟨hne, hreply⟩ := h.appendReplies _ hen.2.2
    obtain ⟨e, s, hcall, -⟩ := (h.server v hen.1).recvAppendentriesResponse h.inv hen.1 cb
      hen.2.1 hne hreply
    simp [Cluster.perform, hcall]

theorem Represents.run (hnobody : -1 ∉ ids) (htwo : 2 ≤ ids.length) (h : Represents ids cl sys)
    {evs : List Event} (hrun : StepSystem.run (Cluster.step ids) cl evs = some cl') :
    ∃ sys', Represents ids cl' sys' ∧ Grow sys.toHist sys'.toHist := by
  induction evs generalizing cl sys with
  | nil =>
    rw [StepSystem.run_nil, Option.some.injEq] at hrun
    exact ⟨sys, hrun ▸ h, Grow.refl _⟩
  | cons ev evs ih =>
    obtain ⟨cl₁, hstep, hrest⟩ := StepSystem.run_cons.mp hrun
    obtain ⟨sys₁, h₁, hg₁⟩ := h.step hnobody htwo hstep
    obtain ⟨sys', h', hg'⟩ := ih h₁ hrest
    exact ⟨sys', h', hg₁.trans hg'⟩

end

/-! ## Safety

In what follows a run leads from the start to `cl₁` and on to `cl₂`. -/

theorem Represents.log_matching {ids : List NodeId} {cl₁ cl₂ : Cluster} {sys₁ sys₂ : Protocol}
    (h₁ : Represents ids cl₁ sys₁) (h₂ : Represents ids cl₂ sys₂)
    (hg : Grow sys₁.toHist sys₂.toHist) {v w : NodeId} (hv : v ∈ ids) (hw : w ∈ ids) {i : Nat}
    {ety ety' : Entry} (hety : (cl₁.server v).log.toList[i]? = some ety)
    (hety' : (cl₂.server w).log.toList[i]? = some ety') (hterm : ety.term = ety'.term) :
    (cl₁.server v).log.toList.take (i + 1) = (cl₂.server w).log.toList.take (i + 1) := by
  rw [← (h₁.server v hv).log_eq] at hety ⊢
  rw [← (h₂.server w hw).log_eq] at hety' ⊢
  exact h₁.inv.log_matching h₂.inv hg hety hety' hterm

theorem Represents.committed_prefix {ids : List NodeId} {cl₁ cl₂ : Cluster} {sys₁ sys₂ : Protocol}
    (h₁ : Represents ids cl₁ sys₁) (h₂ : Represents ids cl₂ sys₂)
    (hg : Grow sys₁.toHist sys₂.toHist) {v : NodeId} (hv : v ∈ ids) {T' : Nat}
    (hterm : (cl₁.server v).currentTerm ≤ T') (hlead : sys₂.lead T' ≠ none) :
    (cl₁.server v).log.toList.take (cl₁.server v).commitIdx <+: sys₂.chain T' := by
  rw [← (h₁.server v hv).log_eq, ← (h₁.server v hv).commit_eq]
  rw [← (h₁.server v hv).term_eq] at hterm
  exact h₁.inv.committed_prefix h₂.inv hg hterm hlead

theorem Represents.commit_agree {ids : List NodeId} {cl₁ cl₂ : Cluster} {sys₁ sys₂ : Protocol}
    (h₁ : Represents ids cl₁ sys₁) (h₂ : Represents ids cl₂ sys₂)
    (hg : Grow sys₁.toHist sys₂.toHist) {v w : NodeId} (hv : v ∈ ids) (hw : w ∈ ids) {k : Nat}
    (hk : k ≤ (cl₁.server v).commitIdx) (hk' : k ≤ (cl₂.server w).commitIdx) :
    (cl₁.server v).log.toList.take k = (cl₂.server w).log.toList.take k := by
  rw [← (h₁.server v hv).commit_eq] at hk
  rw [← (h₂.server w hw).commit_eq] at hk'
  rw [← (h₁.server v hv).log_eq, ← (h₂.server w hw).log_eq]
  exact h₁.inv.agree h₂.inv hg hk hk'

/-! ### A run of two servers

The server 0 is elected, replicates an entry, and both apply it. -/

theorem configured_two : Configured (fun _ => obliging) [0, 1] :=
  ⟨by decide, by decide, Nat.le_refl _, fun _ _ => rfl⟩

def runTwo (cl : Cluster) (evs : List Event) : Option Cluster :=
  StepSystem.run (Cluster.step [0, 1]) cl evs

def startTwo : Cluster := Cluster.start (fun _ => obliging) [0, 1]

def electing : List Event :=
  [.periodic 0 obliging 1000, .recvRequestvote 1 obliging 0 ⟨1, 0, 0, 0⟩,
    .recvRequestvoteResponse 0 obliging 1 ⟨1, .granted⟩]

def committing : List Event :=
  [.recvEntry 0 obliging ⟨0, 7, .normal, []⟩,
    .recvAppendentries 1 obliging 0 ⟨1, 0, 0, 0, [⟨1, 7, .normal, []⟩]⟩,
    .recvAppendentriesResponse 0 obliging 1 ⟨1, true, 1, 1⟩, .periodic 0 obliging 200]

def following : List Event :=
  [.recvAppendentries 1 obliging 0 ⟨1, 1, 1, 1, []⟩, .periodic 1 obliging 0]

def elected : Cluster := (runTwo startTwo electing).get (by decide)

def committed : Cluster := (runTwo elected committing).get (by decide)

def followed : Cluster := (runTwo committed following).get (by decide)

theorem run_elected :
    StepSystem.run (Cluster.step [0, 1]) (Cluster.start (fun _ => obliging) [0, 1]) electing
      = some elected :=
  (Option.some_get _).symm

theorem run_committed :
    StepSystem.run (Cluster.step [0, 1]) (Cluster.start (fun _ => obliging) [0, 1])
      (electing ++ committing) = some committed :=
  StepSystem.run_append.mpr ⟨elected, run_elected, (Option.some_get _).symm⟩

theorem run_followed : StepSystem.run (Cluster.step [0, 1]) committed following = some followed :=
  (Option.some_get _).symm

section
variable {cb : NodeId → Cbs} {ids : List NodeId} {evs evs' : List Event} {cl₁ cl₂ : Cluster}
  {v w : NodeId}

theorem represents_two (hconf : Configured cb ids)
    (hrun : StepSystem.run (Cluster.step ids) (Cluster.start cb ids) evs = some cl₁)
    (hrun' : StepSystem.run (Cluster.step ids) cl₁ evs' = some cl₂) :
    ∃ sys₁ sys₂, Represents ids cl₁ sys₁ ∧ Represents ids cl₂ sys₂ ∧
      Grow sys₁.toHist sys₂.toHist := by
  obtain ⟨sys₁, h₁, -⟩ := (Represents.start hconf).run hconf.nobody hconf.two hrun
  obtain ⟨sys₂, h₂, hg⟩ := h₁.run hconf.nobody hconf.two hrun'
  exact ⟨sys₁, sys₂, h₁, h₂, hg⟩

/-- A term has one leader in the whole run. -/
theorem cluster_election_safety (hconf : Configured cb ids)
    (hrun : StepSystem.run (Cluster.step ids) (Cluster.start cb ids) evs = some cl₁)
    (hrun' : StepSystem.run (Cluster.step ids) cl₁ evs' = some cl₂) (hv : v ∈ ids) (hw : w ∈ ids)
    (hleader : (cl₁.server v).state = .leader) (hleader' : (cl₂.server w).state = .leader)
    (hterm : (cl₁.server v).currentTerm = (cl₂.server w).currentTerm) : v = w := by
  obtain ⟨sys₁, sys₂, h₁, h₂, hg⟩ := represents_two hconf hrun hrun'
  have hrole : sys₁.role v = .leader := by rw [(h₁.server v hv).role_eq, hleader]; rfl
  have hrole' : sys₂.role w = .leader := by rw [(h₂.server w hw).role_eq, hleader']; rfl
  rw [← (h₁.server v hv).term_eq, ← (h₂.server w hw).term_eq] at hterm
  exact h₁.inv.leader_unique h₂.inv hg hrole hrole' hterm

theorem cluster_election_safety_two :
    (elected.server 0).state = .leader ∧ ∀ w ∈ [0, 1], (committed.server w).state = .leader →
      (elected.server 0).currentTerm = (committed.server w).currentTerm → 0 = w := by
  refine ⟨by decide, fun w hw hleader hterm => ?_⟩
  have hrun : StepSystem.run (Cluster.step [0, 1]) elected committing = some committed :=
    (Option.some_get _).symm
  exact cluster_election_safety configured_two run_elected hrun (by decide) hw (by decide) hleader
    hterm

/-- Two logs, perhaps at different times, with an entry of one term in one place. -/
theorem cluster_log_matching (hconf : Configured cb ids)
    (hrun : StepSystem.run (Cluster.step ids) (Cluster.start cb ids) evs = some cl₁)
    (hrun' : StepSystem.run (Cluster.step ids) cl₁ evs' = some cl₂) (hv : v ∈ ids) (hw : w ∈ ids)
    {i : Nat} {ety ety' : Entry} (hety : (cl₁.server v).log.toList[i]? = some ety)
    (hety' : (cl₂.server w).log.toList[i]? = some ety') (hterm : ety.term = ety'.term) :
    (cl₁.server v).log.toList.take (i + 1) = (cl₂.server w).log.toList.take (i + 1) := by
  obtain ⟨sys₁, sys₂, h₁, h₂, hg⟩ := represents_two hconf hrun hrun'
  exact h₁.log_matching h₂ hg hv hw hety hety' hterm

theorem cluster_log_matching_two :
    (committed.server 0).log.toList.take 1 = (followed.server 1).log.toList.take 1 := by
  have hety : (committed.server 0).log.toList[0]? = some ⟨1, 7, .normal, []⟩ := by decide
  have hety' : (followed.server 1).log.toList[0]? = some ⟨1, 7, .normal, []⟩ := by decide
  exact cluster_log_matching configured_two run_committed run_followed (by decide) (by decide)
    hety hety' rfl

/-- What one server takes for committed, a leader then or later, of a term that is not earlier,
has in its log. -/
theorem cluster_leader_completeness (hconf : Configured cb ids)
    (hrun : StepSystem.run (Cluster.step ids) (Cluster.start cb ids) evs = some cl₁)
    (hrun' : StepSystem.run (Cluster.step ids) cl₁ evs' = some cl₂) (hv : v ∈ ids) (hw : w ∈ ids)
    (hleader : (cl₂.server w).state = .leader)
    (hterm : (cl₁.server v).currentTerm ≤ (cl₂.server w).currentTerm) :
    (cl₁.server v).log.toList.take (cl₁.server v).commitIdx <+: (cl₂.server w).log.toList := by
  obtain ⟨sys₁, sys₂, h₁, h₂, hg⟩ := represents_two hconf hrun hrun'
  have hlead := (h₂.inv.node w).leader (by rw [(h₂.server w hw).role_eq, hleader]; rfl)
  have hchain := (h₂.inv.node w).chain hlead
  rw [(h₂.server w hw).term_eq] at hlead hchain
  rw [(h₂.server w hw).log_eq] at hchain
  rw [← hchain]
  exact h₁.committed_prefix h₂ hg hv hterm (by rw [hlead]; exact Option.some_ne_none w)

theorem cluster_leader_completeness_two :
    (committed.server 0).commitIdx = 1 ∧
      (committed.server 0).log.toList.take (committed.server 0).commitIdx
        <+: (followed.server 0).log.toList :=
  ⟨by decide, cluster_leader_completeness configured_two run_committed run_followed (by decide)
    (by decide) (by decide) (by decide)⟩

/-- No message of a leader contradicts what a server that has not passed its term takes for
committed: the conflicts for which the source shuts a server down do not come up. -/
theorem cluster_message_agreement (hconf : Configured cb ids)
    (hrun : StepSystem.run (Cluster.step ids) (Cluster.start cb ids) evs = some cl₁)
    (hrun' : StepSystem.run (Cluster.step ids) cl₁ evs' = some cl₂) (hv : v ∈ ids) (hw : w ∈ ids)
    {dest : NodeId} {ae : AppendEntries} (hae : .appendentries dest ae ∈ (cl₂.server w).out)
    (hterm : (cl₁.server v).currentTerm ≤ ae.term) {i : Nat} {ety : Entry}
    (hi : i < (cl₁.server v).commitIdx) (hety : (cl₁.server v).log.toList[i]? = some ety) :
    (ae.prevLogIdx = i + 1 → ae.prevLogTerm = ety.term) ∧
      ∀ j ety', ae.prevLogIdx + j = i → ae.entries[j]? = some ety' → ety' = ety := by
  obtain ⟨sys₁, sys₂, h₁, h₂, hg⟩ := represents_two hconf hrun hrun'
  obtain ⟨-, hmsg⟩ : dest ≠ w ∧ AeOk sys₂.toHist w ae := (h₂.server w hw).outs _ hae
  have hpre := h₁.committed_prefix h₂ hg hv hterm (by rw [hmsg.lead]; exact Option.some_ne_none w)
  have hchain : (sys₂.chain ae.term)[i]? = some ety := by
    refine prefix_getElem? hpre ?_
    rw [List.getElem?_take_of_lt hi, hety]
  constructor
  · intro hprev
    obtain ⟨ety', hety', hterm'⟩ := hmsg.prev i hprev
    rw [hchain, Option.some.injEq] at hety'
    rw [hterm', hety']
  · intro j ety' hj hety'
    obtain ⟨p, hp, hslice⟩ := hmsg.slice
    have hget : (p ++ ae.entries)[i]? = some ety' := by
      rw [← hj, ← hp, List.getElem?_append_right (Nat.le_add_right ..), Nat.add_sub_cancel_left,
        hety']
    have hsent := prefix_getElem? hslice hget
    rw [hchain, Option.some.injEq] at hsent
    exact hsent.symm

theorem cluster_message_agreement_two :
    .appendentries 1 ⟨1, 1, 1, 1, []⟩ ∈ (followed.server 0).out ∧
      ((1 : Nat) = 0 + 1 → (1 : Nat) = (⟨1, 7, .normal, []⟩ : Entry).term) := by
  have hae : .appendentries 1 ⟨1, 1, 1, 1, []⟩ ∈ (followed.server 0).out := by decide
  have hety : (committed.server 0).log.toList[0]? = some ⟨1, 7, .normal, []⟩ := by decide
  exact ⟨hae, (cluster_message_agreement configured_two run_committed run_followed (by decide)
    (by decide) hae (by decide) (by decide) hety).1⟩

/-- What servers take for committed, perhaps at different times, is the same as far as both reach;
for one server, what is committed never changes. -/
theorem cluster_commit_agreement (hconf : Configured cb ids)
    (hrun : StepSystem.run (Cluster.step ids) (Cluster.start cb ids) evs = some cl₁)
    (hrun' : StepSystem.run (Cluster.step ids) cl₁ evs' = some cl₂) (hv : v ∈ ids) (hw : w ∈ ids)
    {k : Nat} (hk : k ≤ (cl₁.server v).commitIdx) (hk' : k ≤ (cl₂.server w).commitIdx) :
    (cl₁.server v).log.toList.take k = (cl₂.server w).log.toList.take k := by
  obtain ⟨sys₁, sys₂, h₁, h₂, hg⟩ := represents_two hconf hrun hrun'
  exact h₁.commit_agree h₂ hg hv hw hk hk'

theorem cluster_commit_agreement_two :
    (committed.server 0).log.toList.take 1 = (followed.server 1).log.toList.take 1 :=
  cluster_commit_agreement configured_two run_committed run_followed (by decide) (by decide)
    (by decide) (by decide)

/-- The state machines are given the same entries: what two servers ever applied under one index
is one entry. -/
theorem cluster_applied_agreement (hconf : Configured cb ids)
    (hrun : StepSystem.run (Cluster.step ids) (Cluster.start cb ids) evs = some cl₁) (hv : v ∈ ids)
    (hw : w ∈ ids) {ety ety' : Entry} {idx : Nat} (hety : .applylog ety idx ∈ (cl₁.server v).out)
    (hety' : .applylog ety' idx ∈ (cl₁.server w).out) : ety = ety' := by
  obtain ⟨sys, h, -⟩ := (Represents.start hconf).run hconf.nobody hconf.two hrun
  have happlied := (h.server v hv).applied_le
  have happlied' := (h.server w hw).applied_le
  obtain ⟨hpos, hidx, hget⟩ := (h.server v hv).applied ety idx hety
  obtain ⟨-, hidx', hget'⟩ := (h.server w hw).applied ety' idx hety'
  -- what was applied is committed, and there the logs agree
  have hsame := h.commit_agree h (Grow.refl _) hv hw (hidx.trans happlied) (hidx'.trans happlied')
  have hentry := congrArg (fun l => l[idx - 1]?) hsame
  simp only [List.getElem?_take_of_lt (show idx - 1 < idx by omega), hget, hget',
    Option.some.injEq] at hentry
  exact hentry

theorem cluster_applied_agreement_two :
    .applylog ⟨1, 7, .normal, []⟩ 1 ∈ (followed.server 0).out ∧
      ∀ ety, .applylog ety 1 ∈ (followed.server 1).out → ⟨1, 7, .normal, []⟩ = ety := by
  refine ⟨by decide, fun ety hety => ?_⟩
  have hrun := StepSystem.run_append.mpr ⟨committed, run_committed, run_followed⟩
  exact cluster_applied_agreement configured_two hrun (by decide) (by decide) (v := 0)
    (by decide) hety

/-! ## Clients -/

/-- What `raft_msg_entry_response_committed` tells a client of any server: if it is 1, the entry
that the client gave is committed where it was put. -/
theorem cluster_client_committed (hconf : Configured cb ids)
    (hrun : StepSystem.run (Cluster.step ids) (Cluster.start cb ids) evs = some cl₁) (hv : v ∈ ids)
    (hw : w ∈ ids) {cb' : Cbs} {ety : Entry} (hplain : ety.isCfgChange = false) {e : Int}
    {r : EntryResponse} {s : Server}
    (hcall : (cl₁.server v).recvEntry cb' ety = some (e, some r, s))
    (hrun' : StepSystem.run (Cluster.step ids) (cl₁.setServer v s) evs' = some cl₂)
    (hcommitted : (cl₂.server w).msgEntryResponseCommitted r = 1) :
    r.idx ≤ (cl₂.server w).commitIdx ∧
      (cl₂.server w).getEntryFromIdx r.idx = some { ety with term := r.term } := by
  obtain ⟨sys, h, -⟩ := (Represents.start hconf).run hconf.nobody hconf.two hrun
  have hperform : cl₁.perform (.recvEntry v cb' ety) = some (cl₁.setServer v s) := by
    rw [Cluster.perform, hcall, Option.map_some]
  have hen : cl₁.Enabled ids (.recvEntry v cb' ety) := ⟨hv, hplain⟩
  obtain ⟨sys₁, h₁, -⟩ := h.perform hconf.nobody hconf.two hen hperform
  obtain ⟨sys₂, h₂, hg⟩ := h₁.run hconf.nobody hconf.two hrun'
  obtain ⟨hterm, hidx, hentries⟩ := Server.recvEntry_response hcall
  have hlist : s.log.toList = (cl₁.server v).log.toList ++ [{ ety with term := r.term }] := by
    rw [hterm]
    exact hentries
  have hserver : (cl₁.setServer v s).server v = s := Function.update_self ..
  have hsettled := (h₁.server v hv).settled
  rw [hserver] at hsettled
  have hlen : r.idx = (cl₁.server v).log.toList.length + 1 := by
    rw [hidx, hsettled.currentIdx_eq, hlist, List.length_append, List.length_singleton]
  have hput : ((cl₁.setServer v s).server v).log.toList[r.idx - 1]?
      = some { ety with term := r.term } := by
    rw [hserver, hlist, hlen, Nat.add_sub_cancel, List.getElem?_concat_length]
  -- an entry of the same term in the same place is the entry itself
  unfold Server.msgEntryResponseCommitted at hcommitted
  rw [show r.idx = r.idx - 1 + 1 by omega, (h₂.server w hw).settled.getEntryFromIdx_succ]
    at hcommitted ⊢
  split at hcommitted
  · cases hcommitted
  · next ety' hety' =>
    split at hcommitted
    · cases hcommitted
    · next hsame =>
      split at hcommitted
      · next hle =>
        have hmatch := h₁.log_matching h₂ hg hv hw hput hety' (not_not.mp hsame)
        have hentry := congrArg (fun ℓ => ℓ[r.idx - 1]?) hmatch
        simp only [List.getElem?_take_of_lt (Nat.lt_succ_self _), hput] at hentry
        exact ⟨hle, hentry.symm⟩
      · cases hcommitted

theorem cluster_client_committed_two :
    (followed.server 1).msgEntryResponseCommitted ⟨7, 1, 1⟩ = 1 ∧
      (followed.server 1).getEntryFromIdx 1 = some ⟨1, 7, .normal, []⟩ := by
  have hcall : (elected.server 0).recvEntry obliging ⟨0, 7, .normal, []⟩
      = some (0, some ⟨7, 1, 1⟩, (((elected.server 0).recvEntry obliging
        ⟨0, 7, .normal, []⟩).get (by decide)).2.2) := by rfl
  have hrest : StepSystem.run (Cluster.step [0, 1])
      (elected.setServer 0 (((elected.server 0).recvEntry obliging
        ⟨0, 7, .normal, []⟩).get (by decide)).2.2) (committing.tail ++ following)
      = some followed := by rfl
  exact ⟨by decide, (cluster_client_committed configured_two run_elected (v := 0) (w := 1)
    (by decide) (by decide) (by decide) hcall hrest (by decide)).2⟩

/-! ## Assertions -/

/-- Of the assertions that the calls pass, one can fail: a server that stands or leads, but could
not make its vote for itself persistent, is asked for its vote in the same term. -/
theorem cluster_abort_iff (hconf : Configured cb ids)
    (hrun : StepSystem.run (Cluster.step ids) (Cluster.start cb ids) evs = some cl₁) {ev : Event}
    (hen : cl₁.Enabled ids ev) :
    cl₁.step ids ev = none ↔ ∃ v cb src rv, ev = .recvRequestvote v cb src rv ∧
      ¬ HearsAnother (some src) (cl₁.server v) ∧ rv.term = (cl₁.server v).currentTerm ∧
      (cl₁.server v).votedFor = -1 ∧ (cl₁.server v).shouldGrantVote rv = some true ∧
      (cl₁.server v).state ≠ .follower := by
  obtain ⟨sys, h, -⟩ := (Represents.start hconf).run hconf.nobody hconf.two hrun
  rw [Cluster.step, if_pos hen]
  exact h.perform_eq_none_iff hconf.nobody hconf.two hen

/-- Callbacks that cannot keep a vote. -/
def forgetful : Cbs := { obliging with persistVote := some fun _ => -1 }

/-- The servers stand at the same time, and the first has not kept its vote. -/
def standing₂ : List Event := [.periodic 0 forgetful 1000, .periodic 1 obliging 1000]

def bothStand : Cluster := (runTwo startTwo standing₂).get (by decide)

theorem cluster_abort_both_stand :
    bothStand.step [0, 1] (.recvRequestvote 0 obliging 1 ⟨1, 1, 0, 0⟩) = none := by
  have hrun : runTwo startTwo standing₂ = some bothStand := (Option.some_get _).symm
  refine (cluster_abort_iff configured_two hrun ?_).mpr ?_
  · decide
  · exact ⟨0, obliging, 1, ⟨1, 1, 0, 0⟩, rfl, fun h => absurd h.1 (by decide), by decide, by decide,
      by decide, by decide⟩

end

end HomeKeeper.Raft
