import HomeKeeper.Raft.Replication
import Mathlib.Logic.Function.Basic

/-!
# A cluster of servers

The servers `ids`, each made by `raft_new` and given all of them by `raft_add_node`, and the
messages between them. What a server sent is in its `out` for ever, and an answer is kept with
who gave it to whom, so that a message may be delivered late, more than once, out of order, or not
at all.

An event is one call of one server, with its own callbacks: time passes, a client asks for an
entry, or a message arrives. The entries of clients leave the members alone, and nobody takes a
snapshot; a call that ends the process cannot happen.
-/

namespace HomeKeeper.Raft

/-- A server after its user added the members `ids`. -/
def startServer (cb : Cbs) (ids : List NodeId) (v : NodeId) : Server :=
  ids.foldl (fun s id => s.addNode cb id (id == v)) (Server.new cb)

structure Cluster where
  server : NodeId → Server
  /-- Who answered whom. -/
  voteReplies : List (NodeId × NodeId × RequestVoteResponse)
  appendReplies : List (NodeId × NodeId × AppendEntriesResponse)

inductive Event where
  | periodic (v : NodeId) (cb : Cbs) (msec : Nat)
  | recvEntry (v : NodeId) (cb : Cbs) (ety : Entry)
  | recvRequestvote (v : NodeId) (cb : Cbs) (src : NodeId) (rv : RequestVote)
  | recvRequestvoteResponse (v : NodeId) (cb : Cbs) (src : NodeId) (r : RequestVoteResponse)
  | recvAppendentries (v : NodeId) (cb : Cbs) (src : NodeId) (ae : AppendEntries)
  | recvAppendentriesResponse (v : NodeId) (cb : Cbs) (src : NodeId) (r : AppendEntriesResponse)

namespace Cluster

def start (cb : NodeId → Cbs) (ids : List NodeId) : Cluster where
  server v := startServer (cb v) ids v
  voteReplies := []
  appendReplies := []

def setServer (cl : Cluster) (v : NodeId) (s : Server) : Cluster :=
  { cl with server := Function.update cl.server v s }

/-- The calls that can be made: a message arrives only where it was sent to. -/
def Enabled (ids : List NodeId) (cl : Cluster) : Event → Prop
  | .periodic v _ _ => v ∈ ids
  | .recvEntry v _ ety => v ∈ ids ∧ ety.isCfgChange = false
  | .recvRequestvote v _ src rv => v ∈ ids ∧ src ∈ ids ∧ .requestvote v rv ∈ (cl.server src).out
  | .recvRequestvoteResponse v _ src r => v ∈ ids ∧ src ∈ ids ∧ (src, v, r) ∈ cl.voteReplies
  | .recvAppendentries v _ src ae =>
    v ∈ ids ∧ src ∈ ids ∧ .appendentries v ae ∈ (cl.server src).out
  | .recvAppendentriesResponse v _ src r => v ∈ ids ∧ src ∈ ids ∧ (src, v, r) ∈ cl.appendReplies

instance (ids : List NodeId) (cl : Cluster) : (ev : Event) → Decidable (cl.Enabled ids ev)
  | .periodic v _ _ => inferInstanceAs (Decidable (v ∈ ids))
  | .recvEntry v _ ety => inferInstanceAs (Decidable (v ∈ ids ∧ ety.isCfgChange = false))
  | .recvRequestvote v _ src rv =>
    inferInstanceAs (Decidable (v ∈ ids ∧ src ∈ ids ∧ .requestvote v rv ∈ (cl.server src).out))
  | .recvRequestvoteResponse v _ src r =>
    inferInstanceAs (Decidable (v ∈ ids ∧ src ∈ ids ∧ (src, v, r) ∈ cl.voteReplies))
  | .recvAppendentries v _ src ae =>
    inferInstanceAs (Decidable (v ∈ ids ∧ src ∈ ids ∧ .appendentries v ae ∈ (cl.server src).out))
  | .recvAppendentriesResponse v _ src r =>
    inferInstanceAs (Decidable (v ∈ ids ∧ src ∈ ids ∧ (src, v, r) ∈ cl.appendReplies))

/-- One call of one server, with the answer put where it can be delivered. -/
def perform (cl : Cluster) : Event → Option Cluster
  | .periodic v cb msec => ((cl.server v).periodic cb msec).map fun x => cl.setServer v x.2
  | .recvEntry v cb ety => ((cl.server v).recvEntry cb ety).map fun x => cl.setServer v x.2.2
  | .recvRequestvote v cb src rv =>
    ((cl.server v).recvRequestvote cb (some src) rv).map fun x =>
      { cl.setServer v x.2.2 with voteReplies := cl.voteReplies ++ [(v, src, x.2.1)] }
  | .recvRequestvoteResponse v cb src r =>
    ((cl.server v).recvRequestvoteResponse cb (some src) r).map fun x => cl.setServer v x.2
  | .recvAppendentries v cb src ae =>
    ((cl.server v).recvAppendentries cb (some src) ae).map fun x =>
      { cl.setServer v x.2.2 with appendReplies := cl.appendReplies ++ [(v, src, x.2.1)] }
  | .recvAppendentriesResponse v cb src r =>
    ((cl.server v).recvAppendentriesResponse cb (some src) r).map fun x => cl.setServer v x.2

/-- `none` where the call cannot be made or ends the process. -/
def step (ids : List NodeId) (cl : Cluster) (ev : Event) : Option Cluster :=
  if cl.Enabled ids ev then cl.perform ev else none

end Cluster

end HomeKeeper.Raft
