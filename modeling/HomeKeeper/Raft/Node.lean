import HomeKeeper.Raft.Log

/-!
# `raft/raft_node.c` and the members of a cluster

A server keeps a node for every member, itself included. A node is a pointer in the source and is
known by its id here: `raft_add_node_internal` never adds a second node of an id, so among the
nodes of a server the two are the same. A null pointer that is read and an assertion that fails
end the process: the call has no result.

`raftOfferLog` and `raftPopLog` are the two hooks of the log: membership follows an entry as soon
as it is in the log, and goes back when it is taken out.
-/

namespace HomeKeeper.Raft

/-- `raft_node_private_t`, with the bits of `flags` apart. -/
structure Node where
  id : NodeId
  nextIdx : Nat
  matchIdx : Nat
  votedForMe : Bool
  voting : Bool
  hasSufficientLog : Bool
  inactive : Bool
  votingCommitted : Bool
  additionCommitted : Bool
  deriving DecidableEq, Repr

namespace Node

/-- `raft_node_new`. -/
def new (id : NodeId) : Node where
  id := id
  nextIdx := 1
  matchIdx := 0
  votedForMe := false
  voting := true
  hasSufficientLog := false
  inactive := false
  votingCommitted := false
  additionCommitted := false

/-- `raft_node_set_next_idx`; the log begins at 1. -/
def setNextIdx (nextIdx : Nat) (n : Node) : Node :=
  { n with nextIdx := if nextIdx < 1 then 1 else nextIdx }

def setMatchIdx (matchIdx : Nat) (n : Node) : Node := { n with matchIdx := matchIdx }

def voteForMe (vote : Bool) (n : Node) : Node := { n with votedForMe := vote }

/-- `raft_node_set_voting` without its assertion that this is a change. -/
def setVoting (voting : Bool) (n : Node) : Node := { n with voting := voting }

def setHasSufficientLogs (n : Node) : Node := { n with hasSufficientLog := true }

def setActive (active : Bool) (n : Node) : Node := { n with inactive := !active }

def isActive (n : Node) : Bool := !n.inactive

def setVotingCommitted (voting : Bool) (n : Node) : Node := { n with votingCommitted := voting }

def setAdditionCommitted (committed : Bool) (n : Node) : Node :=
  { n with additionCommitted := committed }

/-- Active and voting, the nodes the majorities are counted over. -/
def counts (n : Node) : Bool := n.isActive && n.voting

end Node

/-- `nodes` and `node` of a server. -/
structure Members where
  nodes : List Node
  node : Option NodeId
  deriving DecidableEq, Repr

namespace Members

/-- `raft_get_node`. -/
def getNode (id : NodeId) (m : Members) : Option Node := m.nodes.find? fun n => n.id == id

/-- `raft_get_nodeid`. -/
def nodeid (m : Members) : NodeId := m.node.getD (-1)

/-- `raft_get_my_node`. -/
def myNode (m : Members) : Option Node := m.getNode m.nodeid

/-- `raft_get_num_voting_nodes`. -/
def numVotingNodes (m : Members) : Nat := m.nodes.countP Node.counts

/-- A write through the pointer to the node `id`. -/
def modify (id : NodeId) (f : Node → Node) (m : Members) : Members :=
  { m with nodes := m.nodes.map fun n => if n.id = id then f n else n }

/-- `raft_add_node_internal`, with whether a node came back. `alloc` is whether there is memory
for the node and the array. -/
def addNodeInternal (alloc : Bool) (id : NodeId) (isSelf : Bool) (m : Members) : Bool × Members :=
  match m.getNode id with
  | some node =>
    -- a node that exists becomes voting, but is not added twice
    if !node.voting then (true, m.modify id (Node.setVoting true)) else (false, m)
  | none =>
    if !alloc then (false, m)
    else
      (true,
        { nodes := m.nodes ++ [Node.new id]
          node := if isSelf then some id else m.node })

/-- `raft_add_non_voting_node_internal`. -/
def addNonVotingNodeInternal (alloc : Bool) (id : NodeId) (isSelf : Bool) (m : Members) :
    Bool × Members :=
  if (m.getNode id).isSome then (false, m)
  else
    let (added, m) := m.addNodeInternal alloc id isSelf
    if !added then (false, m) else (true, m.modify id (Node.setVoting false))

/-- `raft_remove_node`. -/
def removeNode (id : NodeId) (m : Members) : Option Members :=
  if (m.getNode id).isNone then none
  else some { m with nodes := m.nodes.eraseP fun n => n.id == id }

end Members

/-! ## Configuration entries -/

/-- `raft_entry_is_voting_cfg_change`. -/
def Entry.isVotingCfgChange (ety : Entry) : Bool :=
  ety.type == .addNode || ety.type == .demoteNode

/-- `raft_entry_is_cfg_change`. -/
def Entry.isCfgChange (ety : Entry) : Bool :=
  ety.type == .addNode || ety.type == .addNonvotingNode || ety.type == .demoteNode
    || ety.type == .removeNode

/-- `raft_node_set_voting` on the node `id`: the node is there, and this is a change. -/
def Members.changeVoting (id : NodeId) (voting : Bool) (m : Members) : Option Members := do
  let node ← m.getNode id
  if node.voting = voting then none else some (m.modify id (Node.setVoting voting))

/-- `raft_offer_log`. -/
def raftOfferLog (logGetNodeId : Option (Entry → Nat → NodeId)) (alloc : NodeId → Bool)
    (m : Members) (ety : Entry) (idx : Nat) : Option Members :=
  if !ety.isCfgChange then some m
  else do
    let getNodeId ← logGetNodeId
    let nodeId := getNodeId ety idx
    let isSelf := nodeId == m.nodeid
    match ety.type with
    | .addNonvotingNode =>
      if isSelf then some m
      else
        match m.getNode nodeId with
        | some node =>
          if node.isActive then some m else some (m.modify nodeId (Node.setActive true))
        | none =>
          let (added, m) := m.addNonVotingNodeInternal (alloc nodeId) nodeId isSelf
          if added then some m else none
    | .addNode =>
      let (added, m) := m.addNodeInternal (alloc nodeId) nodeId isSelf
      if added then some m else none
    | .demoteNode =>
      match m.getNode nodeId with
      | some _ => m.changeVoting nodeId false
      | none => some m
    | .removeNode =>
      match m.getNode nodeId with
      | some _ => some (m.modify nodeId (Node.setActive false))
      | none => some m
    | _ => none

/-- `raft_pop_log`. -/
def raftPopLog (logGetNodeId : Option (Entry → Nat → NodeId)) (m : Members) (ety : Entry)
    (idx : Nat) : Option Members :=
  if !ety.isCfgChange then some m
  else do
    let getNodeId ← logGetNodeId
    let nodeId := getNodeId ety idx
    match ety.type with
    | .demoteNode => m.changeVoting nodeId true
    | .removeNode => do
      let _ ← m.getNode nodeId
      some (m.modify nodeId (Node.setActive true))
    | .addNonvotingNode =>
      -- `assert (0)` after the removal of oneself
      if nodeId = m.nodeid then none else m.removeNode nodeId
    | .addNode => m.changeVoting nodeId false
    | _ => none

end HomeKeeper.Raft
