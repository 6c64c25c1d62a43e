import HomeKeeper.Raft.Node
import HomeKeeper.Lib.Run

/-!
# `raft/raft_server.c` — a Raft server

The state of a server, and the functions its user calls: `periodic` when time has passed, a `recv`
function for each kind of message, `recvEntry` for a request of a client. The functions follow
`raft_server.c` and `raft_server_properties.c` statement by statement.

* The callbacks are a parameter of each call, as the answers they give in it. No callback is asked
  the same question twice in one call, so these are functions of what is asked; a callback the
  user did not give is `none`.
* What a call hands to the callbacks (messages to send, entries to apply) is written down in
  `out`, oldest first.
* A failed assertion or a null pointer that is read ends the process: the call is `none`.
* Terms, indices and times are natural numbers: `long` and `int` are taken to be wide enough. For
  terms that is below 2^31, as `__should_grant_vote` keeps one in `int ety_term`.
-/

namespace HomeKeeper.Raft

/-! ## Messages -/

/-- `msg_requestvote_t`. -/
structure RequestVote where
  term : Nat
  candidateId : NodeId
  lastLogIdx : Nat
  lastLogTerm : Nat
  deriving DecidableEq, Repr

/-- `RAFT_REQUESTVOTE_ERR_*`. -/
inductive VoteGranted where
  | granted
  | notGranted
  | unknownNode
  deriving DecidableEq, Repr

/-- `msg_requestvote_response_t`. -/
structure RequestVoteResponse where
  term : Nat
  voteGranted : VoteGranted
  deriving DecidableEq, Repr

/-- `msg_appendentries_t`; `n_entries` is the length of `entries`. -/
structure AppendEntries where
  term : Nat
  prevLogIdx : Nat
  prevLogTerm : Nat
  leaderCommit : Nat
  entries : List Entry
  deriving DecidableEq, Repr

/-- `msg_appendentries_response_t`. -/
structure AppendEntriesResponse where
  term : Nat
  success : Bool
  currentIdx : Nat
  firstIdx : Nat
  deriving DecidableEq, Repr

/-- `msg_entry_response_t`. -/
structure EntryResponse where
  id : Int
  term : Nat
  idx : Nat
  deriving DecidableEq, Repr

/-- What a server hands to its callbacks. -/
inductive Out where
  | requestvote (dest : NodeId) (rv : RequestVote)
  | appendentries (dest : NodeId) (ae : AppendEntries)
  | snapshot (dest : NodeId)
  | applylog (ety : Entry) (idx : Nat)
  | logClear (ety : Entry) (idx : Nat)
  deriving DecidableEq, Repr

/-- `raft_cbs_t`, as the answers in one call, with the allocator and `rand`. -/
structure Cbs where
  sendRequestvote : Option (NodeId → RequestVote → Int)
  sendAppendentries : Option (NodeId → AppendEntries → Int)
  sendSnapshot : Bool
  applylog : Option (Entry → Nat → Int)
  persistVote : Option (NodeId → Int)
  persistTerm : Option (Nat → NodeId → Int)
  logOffer : Option (Entry → Nat → Int)
  logPop : Option (Entry → Nat → Int)
  logPoll : Option (Entry → Nat → Int)
  /-- Whether there is a `log_clear`, whose answers are not read. -/
  logClear : Bool
  logGetNodeId : Option (Entry → Nat → NodeId)
  nodeHasSufficientLogs : Option (NodeId → Int)
  /-- Whether a log buffer of a size can be doubled. -/
  calloc : Nat → Bool
  /-- Whether there is memory for a node. -/
  nodeNew : NodeId → Bool
  rand : Nat

/-- Callbacks that answer 0 to everything. -/
def obliging : Cbs where
  sendRequestvote := some fun _ _ => 0
  sendAppendentries := some fun _ _ => 0
  sendSnapshot := false
  applylog := some fun _ _ => 0
  persistVote := some fun _ => 0
  persistTerm := some fun _ _ => 0
  logOffer := none
  logPop := none
  logPoll := none
  logClear := false
  logGetNodeId := none
  nodeHasSufficientLogs := none
  calloc _ := true
  nodeNew _ := true
  rand := 0

/-! ## The server -/

/-- `raft_state_e`. -/
inductive State where
  | follower
  | candidate
  | leader
  deriving DecidableEq, Repr

/-- `RAFT_NODE_STATUS_*`. -/
inductive NodeStatus where
  | disconnected
  | connected
  | connecting
  | disconnecting
  deriving DecidableEq, Repr

/-- `raft_server_private_t`. `votingCfgChangeLogIdx` is `none` for -1, and of `snapshot_flags`
there is the one flag that is read. -/
structure Server where
  currentTerm : Nat
  votedFor : NodeId
  log : Log
  commitIdx : Nat
  lastAppliedIdx : Nat
  state : State
  timeoutElapsed : Nat
  electionTimeout : Nat
  electionTimeoutRand : Nat
  requestTimeout : Nat
  currentLeader : Option NodeId
  members : Members
  votingCfgChangeLogIdx : Option Nat
  connected : NodeStatus
  snapshotInProgress : Bool
  snapshotNonblockingApply : Bool
  snapshotLastIdx : Nat
  snapshotLastTerm : Nat
  savedSnapshotLastIdx : Nat
  savedSnapshotLastTerm : Nat
  out : List Out

namespace Server

def emit (o : Out) (s : Server) : Server := { s with out := s.out ++ [o] }

/-- `raft_get_current_idx`. -/
def currentIdx (s : Server) : Nat := s.log.currentIdx

/-- `raft_get_entry_from_idx`. -/
def getEntryFromIdx (s : Server) (idx : Nat) : Option Entry := s.log.getAtIdx idx

/-- `raft_get_last_log_term`. -/
def getLastLogTerm (s : Server) : Nat :=
  if 0 < s.currentIdx then
    match s.getEntryFromIdx s.currentIdx with
    | some ety => ety.term
    | none => 0
  else 0

/-- `raft_randomize_election_timeout`: from `election_timeout` up to twice as long. -/
def randomizeElectionTimeout (cb : Cbs) (s : Server) : Server :=
  { s with electionTimeoutRand := s.electionTimeout + cb.rand % s.electionTimeout }

/-- `raft_set_election_timeout`; `rand () % 0` ends the process. -/
def setElectionTimeout (cb : Cbs) (msec : Nat) (s : Server) : Option Server :=
  if msec = 0 then none
  else some ({ s with electionTimeout := msec }.randomizeElectionTimeout cb)

/-- `raft_set_request_timeout`. -/
def setRequestTimeout (msec : Nat) (s : Server) : Server := { s with requestTimeout := msec }

/-- `raft_set_state`. -/
def setState (state : State) (s : Server) : Server :=
  { s with
    currentLeader := if state = .leader then s.members.node else s.currentLeader
    state := state }

/-- `raft_new`. -/
def new (cb : Cbs) : Server where
  currentTerm := 0
  votedFor := -1
  log := Log.new
  commitIdx := 0
  lastAppliedIdx := 0
  state := .follower
  timeoutElapsed := 0
  electionTimeout := 1000
  electionTimeoutRand := 1000 + cb.rand % 1000
  requestTimeout := 200
  currentLeader := none
  members := ⟨[], none⟩
  votingCfgChangeLogIdx := none
  connected := .disconnected
  snapshotInProgress := false
  snapshotNonblockingApply := false
  snapshotLastIdx := 0
  snapshotLastTerm := 0
  savedSnapshotLastIdx := 0
  savedSnapshotLastTerm := 0
  out := []

/-- `raft_add_node`. -/
def addNode (cb : Cbs) (id : NodeId) (isSelf : Bool) (s : Server) : Server :=
  { s with members := (s.members.addNodeInternal (cb.nodeNew id) id isSelf).2 }

/-- `raft_add_non_voting_node`. -/
def addNonVotingNode (cb : Cbs) (id : NodeId) (isSelf : Bool) (s : Server) : Server :=
  { s with members := (s.members.addNonVotingNodeInternal (cb.nodeNew id) id isSelf).2 }

/-- `raft_remove_node`. -/
def removeNode (id : NodeId) (s : Server) : Option Server :=
  (s.members.removeNode id).map fun members => { s with members := members }

/-- `raft_node_set_voting` on a node of the server. -/
def nodeSetVoting (id : NodeId) (voting : Bool) (s : Server) : Option Server :=
  (s.members.changeVoting id voting).map fun members => { s with members := members }

/-- A function of `raft_node.c` that only writes to its node, which must be there. -/
def nodeWrite (id : NodeId) (f : Node → Node) (s : Server) : Option Server :=
  (s.members.getNode id).map fun _ => { s with members := s.members.modify id f }

/-- `raft_node_set_active`. -/
def nodeSetActive (id : NodeId) (active : Bool) (s : Server) : Option Server :=
  s.nodeWrite id (Node.setActive active)

/-- `raft_node_set_voting_committed`. -/
def nodeSetVotingCommitted (id : NodeId) (voting : Bool) (s : Server) : Option Server :=
  s.nodeWrite id (Node.setVotingCommitted voting)

/-- `raft_node_set_addition_committed`. -/
def nodeSetAdditionCommitted (id : NodeId) (committed : Bool) (s : Server) : Option Server :=
  s.nodeWrite id (Node.setAdditionCommitted committed)

/-- `raft_set_current_term`: a new term comes without a vote. -/
def setCurrentTerm (cb : Cbs) (term : Nat) (s : Server) : Int × Server :=
  if s.currentTerm < term then
    let e := match cb.persistTerm with
      | none => 0
      | some persistTerm => persistTerm term (-1)
    if e ≠ 0 then (e, s) else (0, { s with currentTerm := term, votedFor := -1 })
  else (0, s)

theorem setCurrentTerm_cases (cb : Cbs) {s : Server} {T : Nat} (hT : s.currentTerm < T) :
    (∃ e, e ≠ 0 ∧ s.setCurrentTerm cb T = (e, s))
      ∨ s.setCurrentTerm cb T = (0, { s with currentTerm := T, votedFor := -1 }) := by
  unfold setCurrentTerm
  rw [if_pos hT]
  cases cb.persistTerm with
  | none => exact Or.inr rfl
  | some persistTerm =>
    by_cases he : persistTerm T (-1) = 0
    · exact Or.inr (if_neg fun hne => hne he)
    · exact Or.inl ⟨_, he, if_pos he⟩

/-- `raft_vote_for_nodeid`. -/
def voteForNodeid (cb : Cbs) (nodeid : NodeId) (s : Server) : Int × Server :=
  let e := match cb.persistVote with
    | none => 0
    | some persistVote => persistVote nodeid
  if e ≠ 0 then (e, s) else (0, { s with votedFor := nodeid })

theorem voteForNodeid_cases (cb : Cbs) {s : Server} (id : NodeId) :
    (∃ e, e ≠ 0 ∧ s.voteForNodeid cb id = (e, s))
      ∨ s.voteForNodeid cb id = (0, { s with votedFor := id }) := by
  unfold voteForNodeid
  cases cb.persistVote with
  | none => exact Or.inr rfl
  | some persistVote =>
    by_cases he : persistVote id = 0
    · exact Or.inr (if_neg fun hne => hne he)
    · exact Or.inl ⟨_, he, if_pos he⟩

/-- `raft_vote`. -/
def vote (cb : Cbs) (node : Option NodeId) (s : Server) : Int × Server :=
  s.voteForNodeid cb (node.getD (-1))

/-- `raft_become_follower`. -/
def becomeFollower (cb : Cbs) (s : Server) : Server :=
  { (s.setState .follower).randomizeElectionTimeout cb with timeoutElapsed := 0 }

/-- `raft_set_commit_idx`. -/
def setCommitIdx (idx : Nat) (s : Server) : Option Server :=
  if s.commitIdx ≤ idx ∧ idx ≤ s.currentIdx then some { s with commitIdx := idx } else none

/-- `raft_append_entry`: the index noted down for a change of the voting members is that of the
entry before it. -/
def appendEntry (cb : Cbs) (ety : Entry) (s : Server) : Option (Int × Server) := do
  let cfg := if ety.isVotingCfgChange then some s.currentIdx else s.votingCfgChangeLogIdx
  let (e, log, members) ← s.log.appendEntry cb.logOffer (raftOfferLog cb.logGetNodeId cb.nodeNew)
    (cb.calloc s.log.size) ety s.members
  some (e, { s with votingCfgChangeLogIdx := cfg, log := log, members := members })

/-- `raft_delete_entry_from_idx`. -/
def deleteEntryFromIdx (cb : Cbs) (idx : Nat) (s : Server) : Option (Int × Server) :=
  if s.commitIdx < idx then do
    let cfg := match s.votingCfgChangeLogIdx with
      | some i => if idx ≤ i then none else some i
      | none => none
    let (e, log, members) ← s.log.delete cb.logPop (raftPopLog cb.logGetNodeId) idx s.members
    some (e, { s with votingCfgChangeLogIdx := cfg, log := log, members := members })
  else none

/-! ## Sending -/

/-- `raft_send_requestvote`. -/
def sendRequestvote (cb : Cbs) (id : NodeId) (s : Server) : Option (Int × Server) :=
  if s.members.node = some id then none
  else
    let rv : RequestVote :=
      { term := s.currentTerm
        candidateId := s.members.nodeid
        lastLogIdx := s.currentIdx
        lastLogTerm := s.getLastLogTerm }
    match cb.sendRequestvote with
    | none => some (0, s)
    | some send => some (send id rv, s.emit (.requestvote id rv))

/-- `prev_log_idx` and `prev_log_term` of a message that begins at `nextIdx`. -/
def prevLog (s : Server) (nextIdx : Nat) : Nat × Nat :=
  if 1 < nextIdx then
    match s.getEntryFromIdx (nextIdx - 1) with
    | none => (s.snapshotLastIdx, s.snapshotLastTerm)
    | some prevEty => (nextIdx - 1, prevEty.term)
  else (0, 0)

/-- `raft_send_appendentries`. -/
def sendAppendentries (cb : Cbs) (id : NodeId) (s : Server) : Option (Int × Server) :=
  if s.members.node = some id then none
  else
    match cb.sendAppendentries with
    | none => some (-1, s)
    | some send => do
      let node ← s.members.getNode id
      if 0 < s.snapshotLastIdx ∧ node.nextIdx < s.snapshotLastIdx then
        some (raftErrNeedsSnapshot, if cb.sendSnapshot then s.emit (.snapshot id) else s)
      else
        let entries ← s.log.getFromIdx node.nextIdx
        let ae : AppendEntries :=
          { term := s.currentTerm
            prevLogIdx := (s.prevLog node.nextIdx).1
            prevLogTerm := (s.prevLog node.nextIdx).2
            leaderCommit := s.commitIdx
            entries := entries }
        some (send id ae, s.emit (.appendentries id ae))

/-- The nodes of a loop `for (i = 0; i < me->num_nodes; i++)`. -/
def nodeIds (s : Server) : List NodeId := s.members.nodes.map Node.id

/-- The loop of `raft_send_appendentries_all`, which ends at the first error. -/
def sendAppendentriesLoop (cb : Cbs) : List NodeId → Server → Option (Int × Server)
  | [], s => some (0, s)
  | id :: ids, s => do
    let node ← s.members.getNode id
    if s.members.node = some id ∨ !node.isActive then sendAppendentriesLoop cb ids s
    else
      let (e, s) ← s.sendAppendentries cb id
      if e ≠ 0 then some (e, s) else sendAppendentriesLoop cb ids s

/-- `raft_send_appendentries_all`. -/
def sendAppendentriesAll (cb : Cbs) (s : Server) : Option (Int × Server) :=
  let s := { s with timeoutElapsed := 0 }
  sendAppendentriesLoop cb s.nodeIds s

/-! ## Elections -/

/-- The loop of `raft_become_leader`. -/
def becomeLeaderLoop (cb : Cbs) : List NodeId → Server → Option Server
  | [], s => some s
  | id :: ids, s => do
    let node ← s.members.getNode id
    if s.members.node = some id ∨ !node.isActive then becomeLeaderLoop cb ids s
    else
      let s := { s with
        members := s.members.modify id fun n =>
          (n.setNextIdx (s.currentIdx + 1)).setMatchIdx 0 }
      -- an error of sending is not looked at
      let (_, s) ← s.sendAppendentries cb id
      becomeLeaderLoop cb ids s

/-- `raft_become_leader`. -/
def becomeLeader (cb : Cbs) (s : Server) : Option Server :=
  let s := { s.setState .leader with timeoutElapsed := 0 }
  becomeLeaderLoop cb s.nodeIds s

/-- The second loop of `raft_become_candidate`. -/
def becomeCandidateLoop (cb : Cbs) : List NodeId → Server → Option Server
  | [], s => some s
  | id :: ids, s => do
    let node ← s.members.getNode id
    if s.members.node ≠ some id ∧ node.counts then
      let (_, s) ← s.sendRequestvote cb id
      becomeCandidateLoop cb ids s
    else becomeCandidateLoop cb ids s

/-- `raft_become_candidate` after the term was raised. The server is a candidate also when its
vote for itself could not be made persistent, and has then not voted. -/
def standForElection (cb : Cbs) (s : Server) : Server :=
  let s := { s with
    members := { s.members with nodes := s.members.nodes.map (Node.voteForMe false) } }
  let s := (s.vote cb s.members.node).2
  let s := ({ s with currentLeader := none }).setState .candidate
  { s.randomizeElectionTimeout cb with timeoutElapsed := 0 }

/-- `raft_become_candidate`, which is what `raft_election_start` does. -/
def becomeCandidate (cb : Cbs) (s : Server) : Option (Int × Server) :=
  let (e, s) := s.setCurrentTerm cb (s.currentTerm + 1)
  if e ≠ 0 then some (e, s)
  else
    let s := s.standForElection cb
    (becomeCandidateLoop cb s.nodeIds s).map fun s => (0, s)

/-- `__should_grant_vote`. -/
def shouldGrantVote (vr : RequestVote) (s : Server) : Option Bool := do
  let my ← s.members.myNode
  if !my.voting then some false
  else if vr.term < s.currentTerm then some false
  -- `raft_already_voted`
  else if s.votedFor ≠ -1 then some false
  -- our log is not more up to date if it is empty
  else if s.currentIdx = 0 then some true
  else
    let etyTerm := match s.getEntryFromIdx s.currentIdx with
      | some ety => some ety.term
      | none => if s.snapshotLastIdx = s.currentIdx then some s.snapshotLastTerm else none
    match etyTerm with
    | none => some false
    | some etyTerm =>
      if etyTerm < vr.lastLogTerm then some true
      else some (vr.lastLogTerm == etyTerm && decide (s.currentIdx ≤ vr.lastLogIdx))

/-- `raft_recv_requestvote` from the check of the vote on. -/
def decideVote (cb : Cbs) (node : Option NodeId) (vr : RequestVote) (s : Server) :
    Option (Int × RequestVoteResponse × Server) := do
  let grant ← s.shouldGrantVote vr
  if grant then
    -- `assert (!(raft_is_leader (me_) || raft_is_candidate (me_)))`
    if s.state = .leader ∨ s.state = .candidate then none
    else
      let (e, s) := s.voteForNodeid cb vr.candidateId
      let s := { s with currentLeader := none, timeoutElapsed := 0 }
      some (e, ⟨s.currentTerm, if e = 0 then .granted else .notGranted⟩, s)
  else
    some (0, ⟨s.currentTerm, if node.isNone then .unknownNode else .notGranted⟩, s)

/-- `raft_recv_requestvote`. -/
def recvRequestvote (cb : Cbs) (node : Option NodeId) (vr : RequestVote) (s : Server) :
    Option (Int × RequestVoteResponse × Server) :=
  let node := match node with
    | some id => some id
    | none => (s.members.getNode vr.candidateId).map Node.id
  -- a server that hears its leader does not vote for another
  if s.currentLeader.isSome ∧ s.currentLeader ≠ node ∧ s.timeoutElapsed < s.electionTimeout then
    some (0, ⟨s.currentTerm, .notGranted⟩, s)
  else if s.currentTerm < vr.term then
    let (e, s) := s.setCurrentTerm cb vr.term
    if e ≠ 0 then some (e, ⟨s.currentTerm, .notGranted⟩, s)
    else ({ s.becomeFollower cb with currentLeader := none }).decideVote cb node vr
  else s.decideVote cb node vr

/-- `raft_votes_is_majority`. -/
def votesIsMajority (numNodes nvotes : Nat) : Bool :=
  if numNodes < nvotes then false else decide (numNodes / 2 + 1 ≤ nvotes)

/-- `raft_get_nvotes_for_me`. -/
def getNvotesForMe (s : Server) : Nat :=
  s.members.nodes.countP (fun n => s.members.node ≠ some n.id && n.counts && n.votedForMe)
    + if s.votedFor = s.members.nodeid then 1 else 0

/-- `raft_recv_requestvote_response`. -/
def recvRequestvoteResponse (cb : Cbs) (node : Option NodeId) (r : RequestVoteResponse)
    (s : Server) : Option (Int × Server) :=
  if s.state ≠ .candidate then some (0, s)
  else if s.currentTerm < r.term then
    let (e, s) := s.setCurrentTerm cb r.term
    if e ≠ 0 then some (e, s) else some (0, { s.becomeFollower cb with currentLeader := none })
  -- an answer to a request of an earlier term
  else if s.currentTerm ≠ r.term then some (0, s)
  else
    match r.voteGranted with
    | .granted =>
      let s := match node with
        | some id => { s with members := s.members.modify id (Node.voteForMe true) }
        | none => s
      if votesIsMajority s.members.numVotingNodes s.getNvotesForMe then
        (s.becomeLeader cb).map fun s => (0, s)
      else some (0, s)
    | .notGranted => some (0, s)
    | .unknownNode => do
      let my ← s.members.myNode
      some (if my.voting ∧ s.connected = .disconnecting then raftErrShutdown else 0, s)

end Server

end HomeKeeper.Raft
