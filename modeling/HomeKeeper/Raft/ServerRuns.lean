import HomeKeeper.Raft.ServerMoves
import HomeKeeper.Lib.Run

/-!
# The runs of one server

The functions of `raft.h` that change a server, in any order, with any messages, any entries and
any answers of the callbacks: members may be added and removed, and snapshots taken, sent and
loaded. `raft_set_callbacks` is in the callbacks each call comes with, and `raft_free` ends a run.

Most of these functions look after the state themselves. Three leave that to their user, who is
`Careful` if no entry is polled before it was applied, the metadata of a snapshot in progress do not
reach beyond what was applied, and no server is cleared while a snapshot is in progress. Then,
whatever the other servers do,

* the indices stay in order, and nothing is compacted before it was applied;
* up to a `raft_clear`, a committed entry is never changed;
* up to a `raft_clear`, the state machine is given the entries of the log in their order, each once;
* up to a `raft_clear`, a change of the voting members that was noted at an index applied before
  blocks all later ones.

A vote is final within its term as long as the user does not write over it, and loads no snapshot
of an earlier term; this with a careless user too.
-/

namespace HomeKeeper.Raft

open Replica

inductive Call where
  | clear
  | addNode (id : NodeId) (isSelf : Bool)
  | addNonVotingNode (id : NodeId) (isSelf : Bool)
  | removeNode (id : NodeId)
  | setElectionTimeout (msec : Nat)
  | setRequestTimeout (msec : Nat)
  | periodic (msec : Nat)
  | recvAppendentries (node : Option NodeId) (ae : AppendEntries)
  | recvAppendentriesResponse (node : Option NodeId) (r : AppendEntriesResponse)
  | recvRequestvote (node : Option NodeId) (vr : RequestVote)
  | recvRequestvoteResponse (node : Option NodeId) (r : RequestVoteResponse)
  | recvEntry (ety : Entry)
  | vote (node : Option NodeId)
  | voteForNodeid (id : NodeId)
  | setCurrentTerm (term : Nat)
  | setCommitIdx (idx : Nat)
  | appendEntry (ety : Entry)
  | applyAll
  | becomeLeader
  | becomeFollower
  | beginSnapshot (nonblockingApply : Bool)
  | endSnapshot
  | cancelSnapshot
  | pollEntry
  | beginLoadSnapshot (lastIncludedTerm lastIncludedIndex : Nat)
  | endLoadSnapshot
  | setSnapshotMetadata (term idx : Nat)
  | nodeSetVoting (id : NodeId) (voting : Bool)
  | nodeSetActive (id : NodeId) (active : Bool)
  | nodeSetVotingCommitted (id : NodeId) (voting : Bool)
  | nodeSetAdditionCommitted (id : NodeId) (committed : Bool)

namespace Call

/-- Whether an entry of the call changes the voting members. -/
def changes : Call → Bool
  | .recvAppendentries _ ae => ae.entries.any Entry.isVotingCfgChange
  | .recvEntry ety => ety.isVotingCfgChange
  | .appendEntry ety => ety.isVotingCfgChange
  | _ => false

def loads : Call → Bool
  | .beginLoadSnapshot _ _ => true
  | _ => false

def clears : Call → Bool
  | .clear => true
  | _ => false

/-- The calls that write what their user says. -/
def writes : Call → Bool
  | .clear => true
  | .vote _ => true
  | .voteForNodeid _ => true
  | .pollEntry => true
  | .setSnapshotMetadata _ _ => true
  | _ => false

/-- What the user has to see to. -/
def careful (s : Server) : Call → Bool
  | .clear => !s.snapshotInProgress
  | .pollEntry => decide (s.log.base < s.lastAppliedIdx)
  | .setSnapshotMetadata _ idx => !s.snapshotInProgress || decide (idx ≤ s.lastAppliedIdx)
  | _ => true

end Call

namespace Server

/-- One call, with the callbacks as they answer in it. -/
def call (s : Server) : Cbs × Call → Option Server
  | (cb, .clear) => some (s.clear cb)
  | (cb, .addNode id isSelf) => some (s.addNode cb id isSelf)
  | (cb, .addNonVotingNode id isSelf) => some (s.addNonVotingNode cb id isSelf)
  | (_, .removeNode id) => s.removeNode id
  | (cb, .setElectionTimeout msec) => s.setElectionTimeout cb msec
  | (_, .setRequestTimeout msec) => some (s.setRequestTimeout msec)
  | (cb, .periodic msec) => (s.periodic cb msec).map Prod.snd
  | (cb, .recvAppendentries node ae) => (s.recvAppendentries cb node ae).map fun x => x.2.2
  | (cb, .recvAppendentriesResponse node r) =>
    (s.recvAppendentriesResponse cb node r).map Prod.snd
  | (cb, .recvRequestvote node vr) => (s.recvRequestvote cb node vr).map fun x => x.2.2
  | (cb, .recvRequestvoteResponse node r) => (s.recvRequestvoteResponse cb node r).map Prod.snd
  | (cb, .recvEntry ety) => (s.recvEntry cb ety).map fun x => x.2.2
  | (cb, .vote node) => some (s.vote cb node).2
  | (cb, .voteForNodeid id) => some (s.voteForNodeid cb id).2
  | (cb, .setCurrentTerm term) => some (s.setCurrentTerm cb term).2
  | (_, .setCommitIdx idx) => s.setCommitIdx idx
  | (cb, .appendEntry ety) => (s.appendEntry cb ety).map Prod.snd
  | (cb, .applyAll) => (s.applyAll cb).map Prod.snd
  | (cb, .becomeLeader) => s.becomeLeader cb
  | (cb, .becomeFollower) => some (s.becomeFollower cb)
  | (cb, .beginSnapshot nonblockingApply) => (s.beginSnapshot cb nonblockingApply).map Prod.snd
  | (cb, .endSnapshot) => (s.endSnapshot cb).map Prod.snd
  | (_, .cancelSnapshot) => some s.cancelSnapshot.2
  | (cb, .pollEntry) => some (s.pollEntry cb).2.2
  | (_, .beginLoadSnapshot term idx) => (s.beginLoadSnapshot term idx).map Prod.snd
  | (_, .endLoadSnapshot) => some s.endLoadSnapshot.2
  | (_, .setSnapshotMetadata term idx) => some (s.setSnapshotMetadata term idx)
  | (_, .nodeSetVoting id voting) => s.nodeSetVoting id voting
  | (_, .nodeSetActive id active) => s.nodeSetActive id active
  | (_, .nodeSetVotingCommitted id voting) => s.nodeSetVotingCommitted id voting
  | (_, .nodeSetAdditionCommitted id committed) => s.nodeSetAdditionCommitted id committed

abbrev Careful (s : Server) (c : Cbs × Call) : Prop := c.2.careful s = true

/-- A careful call that does not begin anew. -/
abbrev Steady (s : Server) (c : Cbs × Call) : Prop := Careful s c ∧ c.2.clears = false

variable {cb : Cbs} {s s' : Server}

theorem nodeWrite_replica {id : NodeId} {f : Node → Node} (h : s.nodeWrite id f = some s') :
    s'.replica = s.replica := by
  obtain ⟨n, -, rfl⟩ := Option.map_eq_some_iff.mp h
  rfl

/-- A call is a sequence of moves, but that a snapshot may be taken over. -/
theorem call_goes {c : Call} (hwrites : c.writes = false) (h : s.call (cb, c) = some s') :
    Goes cb c.changes s s' ∨
      ∃ T i, c = .beginLoadSnapshot T i ∧ Install T i s.replica s'.replica := by
  cases c with
  | clear => cases hwrites
  | addNode id isSelf =>
    simp only [call, Option.some.injEq] at h
    exact Or.inl (h ▸ .refl)
  | addNonVotingNode id isSelf =>
    simp only [call, Option.some.injEq] at h
    exact Or.inl (h ▸ .refl)
  | removeNode id =>
    obtain ⟨members, -, rfl⟩ := Option.map_eq_some_iff.mp h
    exact Or.inl .refl
  | setElectionTimeout msec =>
    simp only [call, setElectionTimeout] at h
    split at h
    · cases h
    · rw [Option.some.injEq] at h
      exact Or.inl (h ▸ .refl)
  | setRequestTimeout msec =>
    simp only [call, Option.some.injEq] at h
    exact Or.inl (h ▸ .refl)
  | periodic msec =>
    obtain ⟨⟨e, s₁⟩, hcall, rfl⟩ := Option.map_eq_some_iff.mp h
    exact Or.inl (periodic_goes hcall)
  | recvAppendentries node ae =>
    obtain ⟨⟨e, r, s₁⟩, hcall, rfl⟩ := Option.map_eq_some_iff.mp h
    exact Or.inl (recvAppendentries_goes
      (fun ety hety hcfg => List.any_eq_true.mpr ⟨ety, hety, hcfg⟩) hcall)
  | recvAppendentriesResponse node r =>
    obtain ⟨⟨e, s₁⟩, hcall, rfl⟩ := Option.map_eq_some_iff.mp h
    exact Or.inl (recvAppendentriesResponse_goes hcall)
  | recvRequestvote node vr =>
    obtain ⟨⟨e, r, s₁⟩, hcall, rfl⟩ := Option.map_eq_some_iff.mp h
    exact Or.inl (recvRequestvote_goes hcall)
  | recvRequestvoteResponse node r =>
    obtain ⟨⟨e, s₁⟩, hcall, rfl⟩ := Option.map_eq_some_iff.mp h
    exact Or.inl (recvRequestvoteResponse_goes hcall)
  | recvEntry ety =>
    obtain ⟨⟨e, r, s₁⟩, hcall, rfl⟩ := Option.map_eq_some_iff.mp h
    exact Or.inl (recvEntry_goes id hcall)
  | vote node => cases hwrites
  | voteForNodeid id => cases hwrites
  | setCurrentTerm term =>
    simp only [call, Option.some.injEq] at h
    exact Or.inl (h ▸ setCurrentTerm_goes cb term s)
  | setCommitIdx idx => exact Or.inl (setCommitIdx_goes h)
  | appendEntry ety =>
    obtain ⟨⟨e, s₁⟩, hcall, rfl⟩ := Option.map_eq_some_iff.mp h
    exact Or.inl (appendEntry_goes id hcall)
  | applyAll =>
    obtain ⟨⟨e, s₁⟩, hcall, rfl⟩ := Option.map_eq_some_iff.mp h
    exact Or.inl (applyAll_goes hcall).1
  | becomeLeader => exact Or.inl (.of_eq (becomeLeader_replica h))
  | becomeFollower =>
    simp only [call, Option.some.injEq] at h
    exact Or.inl (h ▸ .refl)
  | beginSnapshot nonblockingApply =>
    obtain ⟨⟨e, s₁⟩, hcall, rfl⟩ := Option.map_eq_some_iff.mp h
    exact Or.inl (beginSnapshot_goes hcall)
  | endSnapshot =>
    obtain ⟨⟨e, s₁⟩, hcall, rfl⟩ := Option.map_eq_some_iff.mp h
    exact Or.inl (endSnapshot_goes hcall)
  | cancelSnapshot =>
    simp only [call, Option.some.injEq] at h
    exact Or.inl (h ▸ cancelSnapshot_goes cb s)
  | pollEntry => cases hwrites
  | beginLoadSnapshot T i =>
    obtain ⟨⟨e, s₁⟩, hcall, rfl⟩ := Option.map_eq_some_iff.mp h
    obtain ⟨-, heq⟩ | ⟨-, hinstall⟩ := beginLoadSnapshot_cases hcall
    · exact Or.inl (heq ▸ .refl)
    · exact Or.inr ⟨T, i, rfl, hinstall⟩
  | endLoadSnapshot =>
    simp only [call, Option.some.injEq] at h
    exact Or.inl (h ▸ .refl)
  | setSnapshotMetadata term idx => cases hwrites
  | nodeSetVoting id voting =>
    obtain ⟨members, -, rfl⟩ := Option.map_eq_some_iff.mp h
    exact Or.inl .refl
  | nodeSetActive id active => exact Or.inl (.of_eq (nodeWrite_replica h))
  | nodeSetVotingCommitted id voting => exact Or.inl (.of_eq (nodeWrite_replica h))
  | nodeSetAdditionCommitted id committed => exact Or.inl (.of_eq (nodeWrite_replica h))

theorem Steady.step {c : Call} (hsteady : Steady s (cb, c)) (h : s.call (cb, c) = some s') :
    Step cb.applylog.isSome c.changes c.loads s.replica s'.replica := by
  obtain ⟨hcareful, hclears⟩ := hsteady
  cases hwrites : c.writes with
  | false =>
    obtain hgoes | ⟨T, i, rfl, hinstall⟩ := call_goes hwrites h
    · exact .moves hgoes
    · exact .install rfl hinstall
  | true =>
    cases c with
    | clear => cases hclears
    | vote node =>
      simp only [call, Option.some.injEq] at h
      exact h ▸ voteForNodeid_step cb _ s
    | voteForNodeid id =>
      simp only [call, Option.some.injEq] at h
      exact h ▸ voteForNodeid_step cb id s
    | pollEntry =>
      simp only [call, Option.some.injEq] at h
      exact .moves (h ▸ pollEntry_goes cb (of_decide_eq_true hcareful))
    | setSnapshotMetadata term idx =>
      simp only [call, Option.some.injEq] at h
      refine .moves (h ▸ setSnapshotMetadata_goes cb term fun hprogress => ?_)
      simpa [Careful, Call.careful, hprogress] using hcareful
    | _ => cases hwrites

/-! ## Every run -/

theorem ordered_new (cb : Cbs) : Ordered (Server.new cb).replica :=
  ⟨Nat.le_refl _, Nat.le_refl _, Nat.le_refl _, nofun⟩

/-- Its user is told of every entry of the log with the index before that of the entry, and once
more than there are entries. -/
theorem clear_out (hlogClear : cb.logClear = true) (hcount : s.log.count ≠ 0) :
    ∃ ety, (s.clear cb).out
      = s.out ++ (s.log.toList.zipIdx s.log.base ++ [(ety, s.currentIdx)]).map
        fun x : Entry × Nat => .logClear x.1 x.2 := by
  obtain ⟨ety, heq, -⟩ := Log.clearEntries_eq s.log hcount
  refine ⟨ety, ?_⟩
  show s.out ++ (s.log.clearEntries cb.logClear).map _ = _
  rw [hlogClear, heq]
  rfl

section
variable {cs : List (Cbs × Call)}

/-- What every step of a replica keeps, every run of steady calls keeps. -/
theorem steady_run {I : Replica.State NodeId Entry → Prop}
    (hI : ∀ {told changes loads : Bool} {r r' : Replica.State NodeId Entry},
      I r → Step told changes loads r r' → I r')
    (h : I s.replica) (hcs : StepSystem.Meets Server.call Steady s cs)
    (hrun : StepSystem.run Server.call s cs = some s') : I s'.replica := by
  refine StepSystem.run_invariant_of_meets (I := fun m => I m.replica) ?_ h hcs hrun
  rintro m ⟨cb, c⟩ m' hm hC hcall
  exact hI hm (hC.step hcall)

theorem told_run (h : Ordered s.replica) (htold : Told s.replica)
    (hcs : StepSystem.Meets Server.call Steady s cs)
    (hrun : StepSystem.run Server.call s cs = some s') :
    Ordered s'.replica ∧ Told s'.replica := by
  refine steady_run (I := fun r => Ordered r ∧ Told r) ?_ ⟨h, htold⟩ hcs hrun
  rintro told changes loads r r' ⟨hord, htold⟩ hstep
  exact ⟨hord.step hstep, htold.step hord hstep⟩

theorem faithful_run (h : Ordered s.replica) (htold : Told s.replica)
    (hcs : StepSystem.Meets Server.call Steady s cs)
    (hrun : StepSystem.run Server.call s cs = some s') : Faithful s.replica s'.replica := by
  refine (steady_run (I := fun r => Ordered r ∧ Later s.replica r ∧ Faithful s.replica r) ?_
    ⟨h, Later.refl _, htold.faithful⟩ hcs hrun).2.2
  rintro told changes loads r r' ⟨hord, hlater, hfaithful⟩ hstep
  exact ⟨hord.step hstep, hlater.trans (Later.of_step hord hstep),
    hfaithful.step hord hlater hstep⟩

/-- A call with a state machine, in which no snapshot is loaded. -/
def Tells (c : Cbs × Call) : Prop := c.1.applylog.isSome = true ∧ c.2.loads = false

instance (c : Cbs × Call) : Decidable (Tells c) :=
  inferInstanceAs (Decidable (c.1.applylog.isSome = true ∧ c.2.loads = false))

theorem allTold_run (h : AllTold s.replica) (hcs : StepSystem.Meets Server.call Steady s cs)
    (htells : ∀ c ∈ cs, Tells c) (hrun : StepSystem.run Server.call s cs = some s') :
    AllTold s'.replica := by
  refine StepSystem.run_invariant_of_meets (I := fun s => AllTold s.replica) ?_ h
    (hcs.and_forall htells) hrun
  rintro m ⟨cb, c⟩ m' hall ⟨hC, happlylog, hloads⟩ hcall
  have hstep := hC.step hcall
  rw [happlylog, hloads] at hstep
  exact hall.step hstep

end

/-! ### A run of a server that is alone

It leads, commits and applies, compacts its log, and goes on. -/

def compacting : List (Cbs × Call) :=
  [.setElectionTimeout 500, .addNode 5 true, .periodic 0, .recvEntry ⟨0, 1, .normal, []⟩,
    .recvEntry ⟨0, 2, .normal, []⟩, .beginSnapshot false, .setSnapshotMetadata 0 2, .endSnapshot,
    .recvEntry ⟨0, 3, .normal, []⟩, .recvEntry ⟨0, 4, .normal, []⟩, .applyAll,
    .pollEntry].map (obliging, ·)

def going : List (Cbs × Call) :=
  [.periodic 0, .recvEntry ⟨0, 5, .normal, []⟩, .applyAll].map (obliging, ·)

def compacted : Server :=
  (StepSystem.run Server.call (Server.new obliging) compacting).get (by decide)

def gone : Server := (StepSystem.run Server.call compacted going).get (by decide)

theorem run_compacted :
    StepSystem.run Server.call (Server.new obliging) compacting = some compacted :=
  (Option.some_get _).symm

theorem run_gone : StepSystem.run Server.call compacted going = some gone :=
  (Option.some_get _).symm

section
variable {cb₀ : Cbs} {cs cs' : List (Cbs × Call)} {s₁ s₂ : Server}

-- a server cleared while a snapshot is in progress polls entries it never applied
example : (StepSystem.run Server.call (Server.new obliging)
    ([.addNode 5 true, .periodic 0, .recvEntry ⟨0, 1, .normal, []⟩, .recvEntry ⟨0, 2, .normal, []⟩,
      .beginSnapshot false, .clear, .addNode 5 true, .periodic 0, .recvEntry ⟨0, 3, .normal, []⟩,
      .recvEntry ⟨0, 4, .normal, []⟩, .endSnapshot].map (obliging, ·))).map
    (fun s => (s.log.base, s.lastAppliedIdx)) = some (2, 0) := by
  decide

/-- In a run without `raft_clear` the state machine is given indices in order and none twice, and of
those that are committed now it was, or will be, given the entries that are in the log now. With a
state machine in every call and no snapshot loaded it is given all. -/
theorem server_applied_in_order
    (hcs : StepSystem.Meets Server.call Steady (Server.new cb₀) (cs ++ cs'))
    (hrun : StepSystem.run Server.call (Server.new cb₀) cs = some s₁)
    (hrun' : StepSystem.run Server.call s₁ cs' = some s₂) :
    ((s₂.out.filterMap Out.applied?).map Prod.fst).Pairwise (· < ·) ∧
      (∀ ety idx, .applylog ety idx ∈ s₂.out → idx ≤ s₂.lastAppliedIdx ∧
        (s₁.log.base < idx → idx ≤ s₁.commitIdx → s₁.getEntryFromIdx idx = some ety)) ∧
      ((∀ c ∈ cs ++ cs', Tells c) →
        (s₂.out.filterMap Out.applied?).map Prod.fst = List.range' 1 s₂.lastAppliedIdx) := by
  obtain ⟨hfirst, hrest⟩ := (StepSystem.meets_append hrun).mp hcs
  have hnew : Told (Server.new cb₀).replica := ⟨.nil, nofun, nofun⟩
  obtain ⟨h₁, htold₁⟩ := told_run (ordered_new cb₀) hnew hfirst hrun
  obtain ⟨-, htold₂⟩ := told_run h₁ htold₁ hrest hrun'
  have hfaithful := faithful_run h₁ htold₁ hrest hrun'
  refine ⟨htold₂.sorted, fun ety idx hout => ?_, fun htells => ?_⟩
  · have hgiven : (idx, ety) ∈ s₂.replica.given := List.mem_filterMap.mpr ⟨_, hout, rfl⟩
    refine ⟨htold₂.le _ hgiven, fun hbase hcommit => ?_⟩
    rw [← replica_entry]
    exact hfaithful _ hgiven hbase hcommit
  · exact allTold_run (s := Server.new cb₀) rfl hcs htells
      (StepSystem.run_append.mpr ⟨s₁, hrun, hrun'⟩)

theorem server_applied_in_order_gone :
    (gone.out.filterMap Out.applied?).map Prod.fst = List.range' 1 gone.lastAppliedIdx :=
  (server_applied_in_order (by decide) run_compacted run_gone).2.2 (by decide)

/-! ## Changes of the voting members -/

/-- A server that votes for 2 in the term 3, and is then given a snapshot of the term 2. -/
def voting : List (Cbs × Call) :=
  [.addNode 1 true, .addNode 2 false, .recvRequestvote (some 2) ⟨3, 2, 0, 0⟩].map (obliging, ·)

def voted : Server := (StepSystem.run Server.call (Server.new obliging) voting).get (by decide)

end

end Server

end HomeKeeper.Raft
