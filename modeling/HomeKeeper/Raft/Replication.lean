import HomeKeeper.Raft.Server

/-!
# `raft/raft_server.c` — replication

The second half of the server: what a follower does with the entries of its leader and the leader
with the answers, requests of clients, applying what is committed, and the clock. The loops of
`raft_recv_appendentries` are functions of their own, with the index of the last entry dealt with
as `r->current_idx` has it.
-/

namespace HomeKeeper.Raft

namespace Server

/-! ## Applying -/

/-- `raft_is_apply_allowed`. -/
def isApplyAllowed (s : Server) : Bool := !s.snapshotInProgress || s.snapshotNonblockingApply

/-- The end of `raft_apply_entry`: a change of the members is now committed. -/
def commitMembers (cb : Cbs) (ety : Entry) (idx : Nat) (s : Server) : Option Server :=
  if !ety.isCfgChange then some s
  else do
    let getNodeId ← cb.logGetNodeId
    let nodeId := getNodeId ety idx
    match ety.type with
    | .addNode => do
      -- the source takes the node for granted here, and looks for it below
      let _ ← s.members.getNode nodeId
      some { s with
        members := s.members.modify nodeId fun n =>
          ((n.setAdditionCommitted true).setVotingCommitted true).setHasSufficientLogs
        connected := if nodeId = s.members.nodeid then .connected else s.connected }
    | .addNonvotingNode => do
      let _ ← s.members.getNode nodeId
      some { s with members := s.members.modify nodeId (Node.setAdditionCommitted true) }
    | .demoteNode =>
      some { s with members := s.members.modify nodeId (Node.setVotingCommitted false) }
    | .removeNode =>
      match s.members.getNode nodeId with
      | some _ => (s.members.removeNode nodeId).map fun members => { s with members := members }
      | none => some s
    | _ => some s

/-- `raft_apply_entry`. -/
def applyEntry (cb : Cbs) (s : Server) : Option (Int × Server) :=
  if !s.isApplyAllowed then some (-1, s)
  else if s.lastAppliedIdx = s.commitIdx then some (-1, s)
  else
    let logIdx := s.lastAppliedIdx + 1
    match s.getEntryFromIdx logIdx with
    | none => some (-1, s)
    | some ety =>
      -- the index is counted before the state machine is asked
      let s := { s with lastAppliedIdx := logIdx }
      let s := if cb.applylog.isSome then s.emit (.applylog ety logIdx) else s
      if answer cb.applylog ety logIdx = raftErrShutdown then some (raftErrShutdown, s)
      else
        let s := { s with
          votingCfgChangeLogIdx :=
            if s.votingCfgChangeLogIdx = some logIdx then none else s.votingCfgChangeLogIdx }
        (s.commitMembers cb ety logIdx).map fun s => (0, s)

/-- The loop of `raft_apply_all`, which goes round once for each entry that is committed and not
applied. -/
def applyLoop (cb : Cbs) : Nat → Server → Option (Int × Server)
  | 0, s => some (0, s)
  | n + 1, s =>
    if s.lastAppliedIdx < s.commitIdx then do
      let (e, s) ← s.applyEntry cb
      if e ≠ 0 then some (e, s) else applyLoop cb n s
    else some (0, s)

/-- `raft_apply_all`. -/
def applyAll (cb : Cbs) (s : Server) : Option (Int × Server) :=
  if !s.isApplyAllowed then some (0, s)
  else applyLoop cb (s.commitIdx - s.lastAppliedIdx) s

/-! ## The clock -/

/-- The first step of `raft_periodic`: the only voting node leads without an election. -/
def leadAlone (cb : Cbs) (s : Server) : Option Server :=
  if s.members.numVotingNodes = 1 then do
    let my ← s.members.myNode
    if my.voting ∧ s.state ≠ .leader then s.becomeLeader cb else some s
  else some s

/-- The second step: a leader sends, another server stands for election when it has waited long
enough. -/
def timeouts (cb : Cbs) (s : Server) : Option (Int × Server) :=
  if s.state = .leader then
    if s.requestTimeout ≤ s.timeoutElapsed then (s.sendAppendentriesAll cb).map fun x => (0, x.2)
    else some (0, s)
  else if s.electionTimeoutRand ≤ s.timeoutElapsed ∧ !s.snapshotInProgress then
    if 1 < s.members.numVotingNodes then do
      let my ← s.members.myNode
      if my.voting then s.becomeCandidate cb else some (0, s)
    else some (0, s)
  else some (0, s)

/-- `raft_periodic`. -/
def periodic (cb : Cbs) (msec : Nat) (s : Server) : Option (Int × Server) := do
  let s ← ({ s with timeoutElapsed := s.timeoutElapsed + msec }).leadAlone cb
  let (e, s) ← s.timeouts cb
  if e ≠ 0 then some (e, s)
  else if s.lastAppliedIdx < s.commitIdx ∧ s.isApplyAllowed then s.applyAll cb
  else some (0, s)

/-! ## The entries of a leader -/

/-- The terms in `raft_recv_appendentries`, with whether the message is of the present leader. -/
def acceptTerm (cb : Cbs) (ae : AppendEntries) (s : Server) : Int × Bool × Server :=
  if s.state = .candidate ∧ s.currentTerm = ae.term then (0, true, s.becomeFollower cb)
  else if s.currentTerm < ae.term then
    let (e, s) := s.setCurrentTerm cb ae.term
    if e ≠ 0 then (e, false, s) else (0, true, s.becomeFollower cb)
  else if ae.term < s.currentTerm then (0, false, s)
  else (0, true, s)

/-- The entry before the new ones, with whether it is as the leader has it. -/
def checkPrev (cb : Cbs) (ae : AppendEntries) (s : Server) : Option (Int × Bool × Server) :=
  if 0 < ae.prevLogIdx then
    if ae.prevLogIdx = s.snapshotLastIdx then
      if s.snapshotLastTerm ≠ ae.prevLogTerm then some (raftErrShutdown, false, s)
      else some (0, true, s)
    else
      match s.getEntryFromIdx ae.prevLogIdx with
      | none => some (0, false, s)
      | some ety =>
        if ety.term ≠ ae.prevLogTerm then
          -- should never happen: a conflict with a committed entry
          if ae.prevLogIdx ≤ s.commitIdx then some (raftErrShutdown, false, s)
          else (s.deleteEntryFromIdx cb ae.prevLogIdx).map fun x => (x.1, false, x.2)
        else some (0, true, s)
  else some (0, true, s)

/-- The first loop: over the entries that are in the log already, up to the first that is not or
is another there. It leaves the index reached and the entries to append. -/
def matchLoop (cb : Cbs) : List Entry → Nat → Server → Option (Int × Nat × List Entry × Server)
  | [], idx, s => some (0, idx, [], s)
  | ety :: etys, idx, s =>
    match s.getEntryFromIdx (idx + 1) with
    | some existingEty =>
      if existingEty.term ≠ ety.term then
        if idx + 1 ≤ s.commitIdx then some (raftErrShutdown, idx, [], s)
        else
          (s.deleteEntryFromIdx cb (idx + 1)).map fun x => (x.1, idx, ety :: etys, x.2)
      else matchLoop cb etys (idx + 1) s
    | none => some (0, idx, ety :: etys, s)

/-- The second loop. -/
def appendLoop (cb : Cbs) : List Entry → Nat → Server → Option (Int × Nat × Server)
  | [], idx, s => some (0, idx, s)
  | ety :: etys, idx, s => do
    let (e, s) ← s.appendEntry cb ety
    if e ≠ 0 then some (e, idx, s) else appendLoop cb etys (idx + 1) s

/-- The commit index of the leader, as far as the log reaches. -/
def followCommit (leaderCommit : Nat) (s : Server) : Option Server :=
  if s.commitIdx < leaderCommit then s.setCommitIdx (min (max s.currentIdx 1) leaderCommit)
  else some s

/-- The entries of a message whose previous entry fits, with the index reached. -/
def storeEntries (cb : Cbs) (ae : AppendEntries) (s : Server) : Option (Int × Nat × Server) := do
  let (e, idx, etys, s) ← s.matchLoop cb ae.entries ae.prevLogIdx
  if e ≠ 0 then some (e, idx, s)
  else
    let (e, idx, s) ← s.appendLoop cb etys idx
    if e ≠ 0 then some (e, idx, s)
    else
      let s ← s.followCommit ae.leaderCommit
      some (0, idx, s)

/-- The answer where `r->success` is 0. -/
def refuse (ae : AppendEntries) (s : Server) : AppendEntriesResponse :=
  ⟨s.currentTerm, false, s.currentIdx, ae.prevLogIdx + 1⟩

/-- `raft_recv_appendentries`. -/
def recvAppendentries (cb : Cbs) (node : Option NodeId) (ae : AppendEntries) (s : Server) :
    Option (Int × AppendEntriesResponse × Server) :=
  let (e, go, s) := s.acceptTerm cb ae
  if !go then some (e, s.refuse ae, s)
  else do
    let (e, go, s) ← ({ s with currentLeader := node, timeoutElapsed := 0 }).checkPrev cb ae
    if !go then some (e, s.refuse ae, s)
    else
      let (e, idx, s) ← s.storeEntries cb ae
      some (e, ⟨s.currentTerm, true, idx, ae.prevLogIdx + 1⟩, s)

/-! ## The answers of the followers -/

/-- How many voting nodes have the entry `point`, the server among them. -/
def replicated (point : Nat) (s : Server) : Nat :=
  1 + s.members.nodes.countP fun n =>
    s.members.node ≠ some n.id && n.counts && decide (point ≤ n.matchIdx)

/-- The leader commits an entry of its own term that a majority has. -/
def advanceCommit (point : Nat) (s : Server) : Option Server :=
  if 0 < point ∧ s.commitIdx < point then do
    let ety ← s.getEntryFromIdx point
    if ety.term = s.currentTerm ∧ s.members.numVotingNodes / 2 < s.replicated point then
      s.setCommitIdx point
    else some s
  else some s

/-- `raft_recv_appendentries_response` where the follower refused: it goes back in the log. -/
def backUp (cb : Cbs) (id : NodeId) (node : Node) (r : AppendEntriesResponse) (s : Server) :
    Option (Int × Server) :=
  if node.nextIdx = 0 then none
  -- a stale answer
  else if r.currentIdx < node.matchIdx then some (0, s)
  else
    let nextIdx := if r.currentIdx < node.nextIdx - 1
      then min (r.currentIdx + 1) s.currentIdx
      else node.nextIdx - 1
    let s := { s with members := s.members.modify id (Node.setNextIdx nextIdx) }
    (s.sendAppendentries cb id).map fun x => (0, x.2)

/-- A node that does not vote yet and has nearly all of the log may be proposed as a voter. -/
def noteSufficientLogs (cb : Cbs) (id : NodeId) (node : Node) (r : AppendEntriesResponse)
    (s : Server) : Server :=
  match cb.nodeHasSufficientLogs with
  | none => s
  | some hasSufficientLogs =>
    if !node.voting && s.votingCfgChangeLogIdx.isNone && decide (s.currentIdx ≤ r.currentIdx + 1)
        && !node.votingCommitted && !node.hasSufficientLog && hasSufficientLogs id == 0 then
      { s with members := s.members.modify id Node.setHasSufficientLogs }
    else s

/-- `raft_recv_appendentries_response`. -/
def recvAppendentriesResponse (cb : Cbs) (node : Option NodeId) (r : AppendEntriesResponse)
    (s : Server) : Option (Int × Server) :=
  match node with
  | none => some (-1, s)
  | some id =>
    if s.state ≠ .leader then some (raftErrNotLeader, s)
    else if s.currentTerm < r.term then
      let (e, s) := s.setCurrentTerm cb r.term
      if e ≠ 0 then some (e, s) else some (0, { s.becomeFollower cb with currentLeader := none })
    else if s.currentTerm ≠ r.term then some (0, s)
    else do
      let node ← s.members.getNode id
      if !r.success then s.backUp cb id node r
      else
        let s := s.noteSufficientLogs cb id node r
        if r.currentIdx ≤ node.matchIdx then some (0, s)
        else if s.currentIdx < r.currentIdx then none
        else
          let s := { s with
            members := s.members.modify id fun n =>
              (n.setNextIdx (r.currentIdx + 1)).setMatchIdx r.currentIdx }
          let s ← s.advanceCommit r.currentIdx
          -- send what is left at once
          if (s.getEntryFromIdx (r.currentIdx + 1)).isSome then
            (s.sendAppendentries cb id).map fun x => (0, x.2)
          else some (0, s)

/-! ## Requests of clients -/

/-- The loop of `raft_recv_entry`: the entry goes to those who are not behind. -/
def recvEntryLoop (cb : Cbs) : List NodeId → Server → Option Server
  | [], s => some s
  | id :: ids, s => do
    let node ← s.members.getNode id
    if s.members.node = some id ∨ !node.counts ∨ node.nextIdx ≠ s.currentIdx then
      recvEntryLoop cb ids s
    else
      let (_, s) ← s.sendAppendentries cb id
      recvEntryLoop cb ids s

/-- `raft_recv_entry`; the answer is filled in where the entry was taken. -/
def recvEntry (cb : Cbs) (ety : Entry) (s : Server) :
    Option (Int × Option EntryResponse × Server) :=
  if ety.isVotingCfgChange ∧ s.votingCfgChangeLogIdx.isSome then
    some (raftErrOneVotingChangeOnly, none, s)
  else if ety.isVotingCfgChange ∧ !s.isApplyAllowed then
    some (raftErrSnapshotInProgress, none, s)
  else if s.state ≠ .leader then some (raftErrNotLeader, none, s)
  else do
    let ety := { ety with term := s.currentTerm }
    let (e, s) ← s.appendEntry cb ety
    if e ≠ 0 then some (e, none, s)
    else
      let s ← recvEntryLoop cb s.nodeIds s
      let s ← if s.members.numVotingNodes = 1 then s.setCommitIdx s.currentIdx else some s
      let r : EntryResponse := ⟨ety.id, s.currentTerm, s.currentIdx⟩
      let s := { s with
        votingCfgChangeLogIdx :=
          if ety.isVotingCfgChange then some s.currentIdx else s.votingCfgChangeLogIdx }
      some (0, some r, s)

/-- `raft_msg_entry_response_committed`. -/
def msgEntryResponseCommitted (r : EntryResponse) (s : Server) : Int :=
  match s.getEntryFromIdx r.idx with
  | none => 0
  | some ety => if r.term ≠ ety.term then -1 else if r.idx ≤ s.commitIdx then 1 else 0

end Server

end HomeKeeper.Raft
