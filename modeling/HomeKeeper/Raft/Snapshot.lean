import HomeKeeper.Raft.Replication

/-!
# `raft/raft_server.c` — snapshots

The log is compacted in two calls, with the state machine writing its snapshot between them:
`beginSnapshot` notes down how far it reaches and `endSnapshot` polls the entries up to there.
A server that is too far behind is given a snapshot instead of entries, also in two calls.
-/

namespace HomeKeeper.Raft

namespace Server

/-- `raft_set_snapshot_metadata`. -/
def setSnapshotMetadata (term idx : Nat) (s : Server) : Server :=
  { s with
    savedSnapshotLastTerm := s.snapshotLastTerm
    savedSnapshotLastIdx := s.snapshotLastIdx
    snapshotLastTerm := term
    snapshotLastIdx := idx }

/-- `raft_get_num_snapshottable_logs`. -/
def getNumSnapshottableLogs (s : Server) : Nat :=
  if s.log.count ≤ 1 then 0 else s.commitIdx - s.log.base

/-- `raft_begin_snapshot`; `nonblockingApply` is the flag. -/
def beginSnapshot (cb : Cbs) (nonblockingApply : Bool) (s : Server) : Option (Int × Server) :=
  if s.getNumSnapshottableLogs = 0 then some (-1, s)
  else if s.commitIdx = 0 then some (-1, s)
  else
    match s.getEntryFromIdx s.commitIdx with
    | none => some (-1, s)
    | some ety => do
      let snapshotTarget := s.commitIdx
      let (e, s) ← s.applyAll cb
      if e ≠ 0 then some (e, s)
      else if s.commitIdx ≠ s.lastAppliedIdx then none
      else
        let s := s.setSnapshotMetadata ety.term snapshotTarget
        some (0, { s with
          snapshotInProgress := true
          snapshotNonblockingApply := nonblockingApply })

/-- `raft_cancel_snapshot`. -/
def cancelSnapshot (s : Server) : Int × Server :=
  if !s.snapshotInProgress then (-1, s)
  else
    (0,
      { s with
        snapshotLastIdx := s.savedSnapshotLastIdx
        snapshotLastTerm := s.savedSnapshotLastTerm
        snapshotInProgress := false })

/-- `raft_poll_entry`, with the entry it hands out. -/
def pollEntry (cb : Cbs) (s : Server) : Int × Option Entry × Server :=
  let (e, ety, log) := s.log.poll cb.logPoll
  (e, ety, { s with log := log })

/-- The first loop of `raft_end_snapshot`. -/
def pollLoop (cb : Cbs) : Nat → Server → Int × Server
  | 0, s => (0, s)
  | n + 1, s =>
    let (e, _, s) := s.pollEntry cb
    if e ≠ 0 then (-1, s) else pollLoop cb n s

/-- The second loop: the nodes that need what is gone are sent the snapshot. -/
def sendSnapshotLoop (cb : Cbs) : List NodeId → Server → Option Server
  | [], s => some s
  | id :: ids, s => do
    let node ← s.members.getNode id
    if s.members.node = some id ∨ !node.isActive then sendSnapshotLoop cb ids s
    else if 0 < s.snapshotLastIdx ∧ node.nextIdx < s.snapshotLastIdx ∧ cb.sendSnapshot then
      sendSnapshotLoop cb ids (s.emit (.snapshot id))
    else sendSnapshotLoop cb ids s

/-- `raft_end_snapshot`. -/
def endSnapshot (cb : Cbs) (s : Server) : Option (Int × Server) :=
  if !s.snapshotInProgress ∨ s.snapshotLastIdx = 0 then some (-1, s)
  else if s.getNumSnapshottableLogs = 0 then none
  else if s.snapshotLastIdx ≠ s.commitIdx then none
  else
    let (e, s) := pollLoop cb s.getNumSnapshottableLogs s
    if e ≠ 0 then some (-1, s)
    else
      let s := { s with snapshotInProgress := false }
      if s.state ≠ .leader then some (0, s)
      else (sendSnapshotLoop cb s.nodeIds s).map fun s => (0, s)

/-- The members `raft_begin_load_snapshot` leaves: oneself, or the first node where there is none
of one's id. -/
def onlySelf (m : Members) : Option Members := do
  let my ← m.myNode.orElse fun _ => m.nodes.head?.map (Node.setActive false)
  some { m with nodes := [my] }

/-- `raft_begin_load_snapshot`. The term becomes that of the snapshot, and the vote is forgotten. -/
def beginLoadSnapshot (lastIncludedTerm lastIncludedIndex : Nat) (s : Server) :
    Option (Int × Server) :=
  if lastIncludedIndex = 0 ∨ lastIncludedTerm = 0 then some (-1, s)
  -- loading it would break the safety of the cluster
  else if lastIncludedIndex < s.lastAppliedIdx then some (-1, s)
  -- it is not needed
  else if lastIncludedIndex < s.currentIdx then some (-1, s)
  else if lastIncludedTerm = s.snapshotLastTerm ∧ lastIncludedIndex = s.snapshotLastIdx then
    some (raftErrSnapshotAlreadyLoaded, s)
  else do
    let s := ({ s with currentTerm := lastIncludedTerm, votedFor := -1 }).setState .follower
    let s := { s with currentLeader := none, log := s.log.loadFromSnapshot lastIncludedIndex }
    let s ← if s.commitIdx < lastIncludedIndex then s.setCommitIdx lastIncludedIndex else some s
    let s := { s with lastAppliedIdx := lastIncludedIndex }
    let s := s.setSnapshotMetadata lastIncludedTerm s.lastAppliedIdx
    let members ← onlySelf s.members
    some (0, { s with members := members })

/-- `raft_end_load_snapshot`. -/
def endLoadSnapshot (s : Server) : Int × Server :=
  (0,
    { s with
      members := { s.members with
        nodes := s.members.nodes.map fun n =>
          let n := (n.setVotingCommitted n.voting).setAdditionCommitted true
          if n.voting then n.setHasSufficientLogs else n } })

/-- `raft_clear`. A snapshot that is in progress stays so. -/
def clear (cb : Cbs) (s : Server) : Server :=
  let s := { s with currentTerm := 0, votedFor := -1, timeoutElapsed := 0 }
  let s := (s.randomizeElectionTimeout cb).setState .follower
  { s with
    votingCfgChangeLogIdx := none
    currentLeader := none
    commitIdx := 0
    lastAppliedIdx := 0
    members := ⟨[], none⟩
    out := s.out ++ (s.log.clearEntries cb.logClear).map fun x => .logClear x.1 x.2
    log := s.log.clear }

end Server

end HomeKeeper.Raft
