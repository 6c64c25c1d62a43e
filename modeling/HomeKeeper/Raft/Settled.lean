import HomeKeeper.Raft.Replication
import HomeKeeper.Raft.LogRefine

/-!
# A server with settled members

The members `ids` are fixed and all of them vote, and the log was never compacted: the state of a
server while no configuration entry is requested and no snapshot is taken. Most branches of the
functions of a server are closed then. What is left of each function is said once here, in terms
of the list of its log, together with the fact that none of its assertions fails.
-/

namespace HomeKeeper.Raft

theorem raftOfferLog_of_plain {logGetNodeId : Option (Entry → Nat → NodeId)}
    {alloc : NodeId → Bool} (m : Members) {ety : Entry} (h : ety.isCfgChange = false) (idx : Nat) :
    raftOfferLog logGetNodeId alloc m ety idx = some m := by
  rw [raftOfferLog, h]
  rfl

theorem raftPopLog_of_plain {logGetNodeId : Option (Entry → Nat → NodeId)} (m : Members)
    {ety : Entry} (h : ety.isCfgChange = false) (idx : Nat) :
    raftPopLog logGetNodeId m ety idx = some m := by
  rw [raftPopLog, h]
  rfl

theorem isVotingCfgChange_of_plain {ety : Entry} (h : ety.isCfgChange = false) :
    ety.isVotingCfgChange = false := by
  unfold Entry.isCfgChange at h
  unfold Entry.isVotingCfgChange
  simp only [Bool.or_eq_false_iff] at h ⊢
  exact ⟨h.1.1.1, h.1.2⟩

/-- Fixed members that all vote, and no snapshot. -/
structure Settled (ids : List NodeId) (v : NodeId) (s : Server) : Prop where
  ids_eq : s.nodeIds = ids
  node : s.members.node = some v
  counts : ∀ n ∈ s.members.nodes, n.counts = true
  next : ∀ n ∈ s.members.nodes, 0 < n.nextIdx
  base : s.log.base = 0
  front : s.log.front = 0
  snapshot : s.snapshotLastIdx = 0
  progress : s.snapshotInProgress = false
  plain : ∀ ety ∈ s.log.toList, ety.isCfgChange = false

namespace Settled

variable {ids : List NodeId} {v : NodeId} {s : Server}

theorem currentIdx_eq (h : Settled ids v s) : s.currentIdx = s.log.toList.length := by
  rw [Log.length_toList]
  show s.log.count + s.log.base = s.log.count
  rw [h.base, Nat.add_zero]

theorem getEntryFromIdx_succ (h : Settled ids v s) (i : Nat) :
    s.getEntryFromIdx (i + 1) = s.log.toList[i]? := by
  rw [Server.getEntryFromIdx, Log.getAtIdx_eq, Log.abs_getAt, h.base, if_neg (by omega)]
  rfl

theorem getNode (h : Settled ids v s) {id : NodeId} (hid : id ∈ ids) :
    ∃ n ∈ s.members.nodes, n.id = id ∧ s.members.getNode id = some n := by
  rw [← h.ids_eq, Server.nodeIds] at hid
  obtain ⟨n, hn, hnid⟩ := List.mem_map.mp hid
  have hsome : (s.members.nodes.find? fun n => n.id == id).isSome :=
    List.find?_isSome.mpr ⟨n, hn, by simp [hnid]⟩
  obtain ⟨m, hm⟩ := Option.isSome_iff_exists.mp hsome
  have hmid := List.find?_some hm
  exact ⟨m, List.mem_of_find?_eq_some hm, by simpa using hmid, hm⟩

theorem nodeid (h : Settled ids v s) : s.members.nodeid = v := by
  rw [Members.nodeid, h.node]
  rfl

theorem myNode (h : Settled ids v s) (hv : v ∈ ids) :
    ∃ n, s.members.myNode = some n ∧ n.voting = true := by
  obtain ⟨n, hn, -, hget⟩ := h.getNode hv
  have hcounts := h.counts n hn
  simp only [Node.counts, Bool.and_eq_true] at hcounts
  exact ⟨n, by rw [Members.myNode, h.nodeid, hget], hcounts.2⟩

theorem numVotingNodes (h : Settled ids v s) : s.members.numVotingNodes = ids.length := by
  rw [Members.numVotingNodes, List.countP_eq_length.mpr h.counts, ← h.ids_eq, Server.nodeIds,
    List.length_map]

theorem isActive (h : Settled ids v s) {n : Node} (hn : n ∈ s.members.nodes) :
    n.isActive = true := by
  have hcounts := h.counts n hn
  simp only [Node.counts, Bool.and_eq_true] at hcounts
  exact hcounts.1

/-! ## Changing a node -/

theorem mem_modify {m : Members} {id : NodeId} {f : Node → Node} {n : Node}
    (hn : n ∈ (m.modify id f).nodes) :
    ∃ n₀ ∈ m.nodes, n = if n₀.id = id then f n₀ else n₀ := by
  obtain ⟨n₀, hn₀, heq⟩ := List.mem_map.mp hn
  exact ⟨n₀, hn₀, heq.symm⟩

theorem modify (h : Settled ids v s) (id : NodeId) {f : Node → Node}
    (hid : ∀ n, (f n).id = n.id) (hcounts : ∀ n, (f n).counts = n.counts)
    (hnext : ∀ n, 0 < n.nextIdx → 0 < (f n).nextIdx) :
    Settled ids v { s with members := s.members.modify id f } := by
  refine { h with ids_eq := ?_, node := h.node, counts := ?_, next := ?_ }
  · rw [← h.ids_eq]
    show (s.members.nodes.map _).map Node.id = s.members.nodes.map Node.id
    rw [List.map_map]
    refine List.map_congr_left fun n _ => ?_
    show (if n.id = id then f n else n).id = n.id
    split
    · exact hid n
    · rfl
  · intro n hn
    obtain ⟨n₀, hn₀, rfl⟩ := mem_modify hn
    split
    · rw [hcounts]
      exact h.counts n₀ hn₀
    · exact h.counts n₀ hn₀
  · intro n hn
    obtain ⟨n₀, hn₀, rfl⟩ := mem_modify hn
    split
    · exact hnext _ (h.next n₀ hn₀)
    · exact h.next n₀ hn₀

/-! ## Sending -/

/-- The message for a node whose next entry is `nextIdx`. -/
def aeFrom (s : Server) (nextIdx : Nat) : AppendEntries where
  term := s.currentTerm
  prevLogIdx := (s.prevLog nextIdx).1
  prevLogTerm := (s.prevLog nextIdx).2
  leaderCommit := s.commitIdx
  entries := s.log.toList.drop (nextIdx - 1)

theorem sendAppendentries (h : Settled ids v s) (cb : Cbs) {id : NodeId} (hid : id ∈ ids)
    (hne : id ≠ v) :
    ∃ n ∈ s.members.nodes, n.id = id ∧ ∃ e s', s.sendAppendentries cb id = some (e, s') ∧
      (s' = s ∨ s' = s.emit (.appendentries id (aeFrom s n.nextIdx))) := by
  obtain ⟨n, hn, hnid, hget⟩ := h.getNode hid
  refine ⟨n, hn, hnid, ?_⟩
  have hself : s.members.node ≠ some id := by
    rw [h.node]
    exact fun heq => hne (Option.some.inj heq).symm
  unfold Server.sendAppendentries
  rw [if_neg hself]
  cases cb.sendAppendentries with
  | none => exact ⟨-1, s, rfl, Or.inl rfl⟩
  | some send =>
    have hpos := h.next n hn
    have hbase : s.log.base < n.nextIdx := by rw [h.base]; exact hpos
    -- nothing was polled, so a message has all entries to the end
    have hbatch := Log.getFromIdx_of_front_zero s.log h.front hbase
    rw [h.base, Nat.sub_zero] at hbatch
    have hsnap : ¬(0 < s.snapshotLastIdx ∧ n.nextIdx < s.snapshotLastIdx) := by
      rw [h.snapshot]
      omega
    simp only [hget, Option.bind_eq_bind, Option.bind_some, if_neg hsnap, hbatch]
    exact ⟨_, _, rfl, Or.inr rfl⟩

/-- What a message to a node says: the entry before the next one, and all that follow. -/
theorem prevLog_eq (h : Settled ids v s) {nextIdx : Nat} (hpos : 0 < nextIdx)
    (hle : nextIdx ≤ s.log.toList.length + 1) :
    (s.prevLog nextIdx).1 = nextIdx - 1 ∧
      ∀ i, nextIdx = i + 2 →
        ∃ ety, s.log.toList[i]? = some ety ∧ (s.prevLog nextIdx).2 = ety.term := by
  unfold Server.prevLog
  by_cases hone : 1 < nextIdx
  · obtain ⟨i, rfl⟩ : ∃ i, nextIdx = i + 2 := ⟨nextIdx - 2, by omega⟩
    have hget := h.getEntryFromIdx_succ i
    have hlt : i < s.log.toList.length := by omega
    rw [List.getElem?_eq_getElem hlt] at hget
    rw [if_pos hone, show i + 2 - 1 = i + 1 by omega, hget]
    refine ⟨rfl, fun j hj => ?_⟩
    obtain rfl : i = j := by omega
    exact ⟨_, List.getElem?_eq_getElem hlt, rfl⟩
  · rw [if_neg hone]
    exact ⟨by show 0 = nextIdx - 1; omega, fun i hi => by omega⟩

/-- Nothing but messages happened, all of a kind. -/
def Emitted (P : Out → Prop) (s s' : Server) : Prop :=
  ∃ outs, s' = { s with out := s.out ++ outs } ∧ ∀ o ∈ outs, P o

theorem Emitted.refl (P : Out → Prop) (s : Server) : Emitted P s s :=
  ⟨[], by rw [List.append_nil], fun _ ho => absurd ho List.not_mem_nil⟩

theorem Emitted.cons {P : Out → Prop} {o : Out} {s' : Server} (ho : P o)
    (h : Emitted P (s.emit o) s') : Emitted P s s' := by
  obtain ⟨outs, rfl, houts⟩ := h
  refine ⟨o :: outs, ?_, fun x hx => ?_⟩
  · simp only [Server.emit, List.append_assoc, List.singleton_append]
  · obtain rfl | hx := List.mem_cons.mp hx
    · exact ho
    · exact houts x hx

theorem emit (h : Settled ids v s) (o : Out) : Settled ids v (s.emit o) :=
  { h with ids_eq := h.ids_eq, node := h.node }

/-- A message of a leader to one of the others. -/
def AeOut (v : NodeId) (s : Server) (o : Out) : Prop :=
  ∃ n ∈ s.members.nodes, n.id ≠ v ∧ o = .appendentries n.id (aeFrom s n.nextIdx)

theorem sendAppendentriesLoop (h : Settled ids v s) (cb : Cbs) {todo : List NodeId}
    (htodo : ∀ id ∈ todo, id ∈ ids) :
    ∃ e s', Server.sendAppendentriesLoop cb todo s = some (e, s') ∧ Emitted (AeOut v s) s s' := by
  induction todo generalizing s with
  | nil => exact ⟨0, s, rfl, Emitted.refl ..⟩
  | cons id todo ih =>
    have hrest : ∀ x ∈ todo, x ∈ ids := fun x hx => htodo x (List.mem_cons_of_mem _ hx)
    have hid := htodo id (List.mem_cons_self ..)
    obtain ⟨n, hn, -, hget⟩ := h.getNode hid
    rw [Server.sendAppendentriesLoop, hget]
    simp only [Option.bind_eq_bind, Option.bind_some]
    by_cases hself : id = v
    · rw [if_pos (Or.inl (by rw [h.node, hself]))]
      exact ih h hrest
    · rw [if_neg (by simp [h.node, h.isActive hn, Ne.symm hself])]
      obtain ⟨n', hn', hnid', e, s₁, hsend, hs₁⟩ := h.sendAppendentries cb hid hself
      simp only [hsend, Option.bind_some]
      obtain rfl | rfl := hs₁
      · -- the loop ends at the first error
        split
        · exact ⟨e, _, rfl, Emitted.refl ..⟩
        · exact ih h hrest
      · have hout : AeOut v s (.appendentries id (aeFrom s n'.nextIdx)) :=
          ⟨n', hn', by rwa [hnid'], by rw [hnid']⟩
        split
        · exact ⟨e, _, rfl, Emitted.cons hout (Emitted.refl ..)⟩
        · obtain ⟨e', s', hloop, hemit⟩ := ih (h.emit _) hrest
          exact ⟨e', s', hloop, Emitted.cons hout hemit⟩

theorem recvEntryLoop (h : Settled ids v s) (cb : Cbs) {todo : List NodeId}
    (htodo : ∀ id ∈ todo, id ∈ ids) :
    ∃ s', Server.recvEntryLoop cb todo s = some s' ∧ Emitted (AeOut v s) s s' := by
  induction todo generalizing s with
  | nil => exact ⟨s, rfl, Emitted.refl ..⟩
  | cons id todo ih =>
    have hrest : ∀ x ∈ todo, x ∈ ids := fun x hx => htodo x (List.mem_cons_of_mem _ hx)
    have hid := htodo id (List.mem_cons_self ..)
    obtain ⟨n, hn, -, hget⟩ := h.getNode hid
    rw [Server.recvEntryLoop, hget]
    simp only [Option.bind_eq_bind, Option.bind_some]
    split
    · exact ih h hrest
    · next hgo =>
      have hself : id ≠ v := by
        rintro rfl
        exact hgo (Or.inl h.node)
      obtain ⟨n', hn', hnid', e, s₁, hsend, hs₁⟩ := h.sendAppendentries cb hid hself
      simp only [hsend, Option.bind_some]
      obtain rfl | rfl := hs₁
      · exact ih h hrest
      · obtain ⟨s', hloop, hemit⟩ := ih (h.emit _) hrest
        exact ⟨s', hloop, Emitted.cons ⟨n', hn', by rwa [hnid'], by rw [hnid']⟩ hemit⟩

/-- The message of a candidate. -/
def rvFrom (s : Server) : RequestVote where
  term := s.currentTerm
  candidateId := s.members.nodeid
  lastLogIdx := s.currentIdx
  lastLogTerm := s.getLastLogTerm

theorem becomeCandidateLoop (h : Settled ids v s) (cb : Cbs) {todo : List NodeId}
    (htodo : ∀ id ∈ todo, id ∈ ids) :
    ∃ s', Server.becomeCandidateLoop cb todo s = some s'
      ∧ Emitted (fun o => ∃ id, o = .requestvote id (rvFrom s)) s s' := by
  induction todo generalizing s with
  | nil => exact ⟨s, rfl, Emitted.refl ..⟩
  | cons id todo ih =>
    have hrest : ∀ x ∈ todo, x ∈ ids := fun x hx => htodo x (List.mem_cons_of_mem _ hx)
    obtain ⟨n, hn, -, hget⟩ := h.getNode (htodo id (List.mem_cons_self ..))
    rw [Server.becomeCandidateLoop, hget]
    simp only [Option.bind_eq_bind, Option.bind_some]
    split
    · next hgo =>
      rw [Server.sendRequestvote, if_neg hgo.1]
      cases cb.sendRequestvote with
      | none =>
        simp only [Option.bind_some]
        exact ih h hrest
      | some send =>
        simp only [Option.bind_some]
        obtain ⟨s', hloop, hemit⟩ := ih (h.emit (.requestvote id (rvFrom s))) hrest
        exact ⟨s', hloop, Emitted.cons ⟨id, rfl⟩ hemit⟩
    · exact ih h hrest

/-! ## A new leader -/

/-- A follower as a new leader takes it to be. -/
def resetNode (nextIdx : Nat) (n : Node) : Node := (n.setNextIdx nextIdx).setMatchIdx 0

/-- The nodes `todo` reset, but for the leader itself. -/
def resetAll (todo : List NodeId) (v : NodeId) (nextIdx : Nat) (nodes : List Node) : List Node :=
  nodes.map fun n => if n.id ∈ todo ∧ n.id ≠ v then resetNode nextIdx n else n

theorem resetAll_cons_self (todo : List NodeId) (v : NodeId) (k : Nat) (nodes : List Node) :
    resetAll (v :: todo) v k nodes = resetAll todo v k nodes := by
  refine List.map_congr_left fun n _ => ?_
  by_cases hn : n.id = v
  · simp [hn]
  · simp [hn]

theorem resetAll_modify {id : NodeId} (hid : id ≠ v) (todo : List NodeId) (k : Nat) (m : Members) :
    resetAll todo v k (m.modify id (resetNode k)).nodes = resetAll (id :: todo) v k m.nodes := by
  show (m.nodes.map _).map _ = m.nodes.map _
  rw [List.map_map]
  refine List.map_congr_left fun n _ => ?_
  have hreset : resetNode k (resetNode k n) = resetNode k n := rfl
  by_cases hn : n.id = id
  · simp only [Function.comp, hn, if_true, hreset, ite_self, List.mem_cons_self, true_and,
      hid, ne_eq, not_false_eq_true]
  · simp only [Function.comp, hn, if_false, List.mem_cons, false_or]

theorem becomeLeaderLoop (h : Settled ids v s) (cb : Cbs) {todo : List NodeId}
    (htodo : ∀ id ∈ todo, id ∈ ids) :
    ∃ s' outs, Server.becomeLeaderLoop cb todo s = some s' ∧
      s' = { s with
        members := ⟨resetAll todo v (s.currentIdx + 1) s.members.nodes, s.members.node⟩
        out := s.out ++ outs } ∧
      ∀ o ∈ outs, ∃ id, id ≠ v ∧ o = .appendentries id (aeFrom s (s.currentIdx + 1)) := by
  induction todo generalizing s with
  | nil =>
    refine ⟨s, [], rfl, ?_, fun o ho => absurd ho List.not_mem_nil⟩
    simp [resetAll]
  | cons id todo ih =>
    have hrest : ∀ x ∈ todo, x ∈ ids := fun x hx => htodo x (List.mem_cons_of_mem _ hx)
    have hid := htodo id (List.mem_cons_self ..)
    obtain ⟨n, hn, -, hget⟩ := h.getNode hid
    rw [Server.becomeLeaderLoop, hget]
    simp only [Option.bind_eq_bind, Option.bind_some]
    by_cases hself : id = v
    · rw [if_pos (Or.inl (by rw [h.node, hself])), hself, resetAll_cons_self]
      exact ih h hrest
    · rw [if_neg (by simp [h.node, h.isActive hn, Ne.symm hself])]
      have hset : Settled ids v { s with
          members := s.members.modify id (resetNode (s.currentIdx + 1)) } := by
        refine h.modify id (fun _ => rfl) (fun _ => rfl) (fun n _ => ?_)
        show 0 < if s.currentIdx + 1 < 1 then 1 else s.currentIdx + 1
        split <;> omega
      obtain ⟨n', hn', hnid', e, s₁, hsend, hs₁⟩ := hset.sendAppendentries cb hid hself
      -- the node is sent what was just set for it
      have hnext : n'.nextIdx = s.currentIdx + 1 := by
        obtain ⟨n₀, -, rfl⟩ := mem_modify hn'
        split at hnid' <;> rename_i hn₀
        · rw [if_pos hn₀]
          show (if s.currentIdx + 1 < 1 then 1 else s.currentIdx + 1) = _
          rw [if_neg (by omega)]
        · exact absurd hnid' hn₀
      have hmod : (fun n : Node => (n.setNextIdx (s.currentIdx + 1)).setMatchIdx 0)
          = resetNode (s.currentIdx + 1) := rfl
      simp only [hmod, hsend, Option.bind_some]
      rw [← resetAll_modify hself]
      rw [hnext] at hs₁
      obtain rfl | rfl := hs₁
      · exact ih hset hrest
      · obtain ⟨s', outs, hloop, hs', houts⟩ := ih (hset.emit _) hrest
        refine ⟨s', .appendentries id (aeFrom s (s.currentIdx + 1)) :: outs, hloop, ?_,
          fun o ho => ?_⟩
        · rw [hs']
          simp only [Server.emit, List.append_assoc, List.singleton_append]
          rfl
        · obtain rfl | ho := List.mem_cons.mp ho
          · exact ⟨id, hself, rfl⟩
          · exact houts o ho

/-! ## The log -/

theorem deleteEntryFromIdx (h : Settled ids v s) (cb : Cbs) {i : Nat} (hi : s.commitIdx ≤ i)
    (hlt : i < s.log.toList.length) :
    ∃ e k s', s.deleteEntryFromIdx cb (i + 1) = some (e, s') ∧ i ≤ k ∧ (e = 0 → k = i) ∧
      s'.log.toList = s.log.toList.take k ∧ Settled ids v s' ∧
      ∃ cfg, s' = { s with log := s'.log, votingCfgChangeLogIdx := cfg } := by
  have hplain : ∀ ety ∈ s.log.toList, ∀ j, raftPopLog cb.logGetNodeId s.members ety j
      = some s.members := fun ety hety j => raftPopLog_of_plain s.members (h.plain ety hety) j
  obtain ⟨e, l', hdelete⟩ := Log.delete_of_plain cb.logPop (Nat.succ_ne_zero i) hplain
  obtain ⟨hbase, hpre, hmin, hzero⟩ := Log.delete_spec (Nat.succ_ne_zero i) hdelete
  rw [Log.length_toList] at hlt
  -- a callback may stop the deletion early, never beyond `i`
  have hkeep : min (i.succ - 1 - s.log.base) s.log.count = i := by
    rw [h.base]
    omega
  rw [hkeep] at hmin hzero
  have htake : l'.toList = s.log.toList.take l'.count := by
    rw [← Log.length_toList l']
    exact List.prefix_iff_eq_take.mp hpre
  unfold Server.deleteEntryFromIdx
  rw [if_pos (by omega)]
  simp only [hdelete, Option.bind_eq_bind, Option.bind_some]
  refine ⟨e, l'.count, _, rfl, hmin, hzero, htake, ?_, _, rfl⟩
  refine { h with
    ids_eq := h.ids_eq
    node := h.node
    base := hbase.trans h.base
    front := ?_
    plain := ?_ }
  · exact (Log.front_delete hdelete).trans h.front
  · intro ety hety
    exact h.plain ety (hpre.subset hety)

theorem appendEntry (h : Settled ids v s) (cb : Cbs) {ety : Entry}
    (hety : ety.isCfgChange = false) :
    ∃ e s', s.appendEntry cb ety = some (e, s') ∧
      (e = 0 ∧ s'.log.toList = s.log.toList ++ [ety] ∨ e ≠ 0 ∧ s'.log.toList = s.log.toList) ∧
      Settled ids v s' ∧ s' = { s with log := s'.log } := by
  have hplain : ∀ j, raftOfferLog cb.logGetNodeId cb.nodeNew s.members ety j = some s.members :=
    fun j => raftOfferLog_of_plain s.members hety j
  obtain ⟨e, l', happend⟩ := Log.appendEntry_of_plain cb.logOffer (cb.calloc s.log.size)
    (l := s.log) hplain
  obtain ⟨hbase, hspec⟩ := Log.appendEntry_spec happend
  have hlist : e = 0 ∧ l'.toList = s.log.toList ++ [ety] ∨ e ≠ 0 ∧ l'.toList = s.log.toList := by
    obtain ⟨he, hl, -⟩ | ⟨he, hl, -⟩ := hspec
    · exact Or.inl ⟨he, hl⟩
    · exact Or.inr ⟨he, hl⟩
  unfold Server.appendEntry
  simp only [happend, Option.bind_eq_bind, Option.bind_some, isVotingCfgChange_of_plain hety,
    Bool.false_eq_true, if_false]
  refine ⟨e, _, rfl, hlist, ?_, rfl⟩
  refine { h with
    ids_eq := h.ids_eq
    node := h.node
    base := hbase.trans h.base
    front := ?_
    plain := ?_ }
  · exact Log.front_appendEntry h.front happend
  · intro x hx
    obtain ⟨-, hl⟩ | ⟨-, hl⟩ := hlist
    · replace hx : x ∈ l'.toList := hx
      rw [hl, List.mem_append, List.mem_singleton] at hx
      obtain hx | rfl := hx
      · exact h.plain x hx
      · exact hety
    · replace hx : x ∈ l'.toList := hx
      rw [hl] at hx
      exact h.plain x hx

/-! ## Applying -/

theorem isApplyAllowed (h : Settled ids v s) : s.isApplyAllowed = true := by
  rw [Server.isApplyAllowed, h.progress]
  rfl

theorem applyEntry (h : Settled ids v s) (cb : Cbs) (hlt : s.lastAppliedIdx < s.commitIdx)
    (hle : s.commitIdx ≤ s.log.toList.length) :
    ∃ e ety cfg outs, s.log.toList[s.lastAppliedIdx]? = some ety ∧
      s.applyEntry cb = some (e, { s with
        lastAppliedIdx := s.lastAppliedIdx + 1
        votingCfgChangeLogIdx := cfg
        out := s.out ++ outs }) ∧
      ∀ o ∈ outs, o = .applylog ety (s.lastAppliedIdx + 1) := by
  have hget := h.getEntryFromIdx_succ s.lastAppliedIdx
  have hbound : s.lastAppliedIdx < s.log.toList.length := by omega
  rw [List.getElem?_eq_getElem hbound] at hget
  have hplain := h.plain _ (List.getElem_mem hbound)
  unfold Server.applyEntry
  rw [h.isApplyAllowed, if_neg (by simp), if_neg (by omega)]
  simp only [hget, List.getElem?_eq_getElem hbound, Option.some.injEq]
  by_cases happly : cb.applylog.isSome
  · rw [if_pos happly]
    split
    · exact ⟨_, _, s.votingCfgChangeLogIdx, [.applylog _ (s.lastAppliedIdx + 1)], rfl, rfl,
        fun o ho => List.mem_singleton.mp ho⟩
    · simp only [Server.commitMembers, hplain, Bool.not_false, if_true, Option.map_some]
      exact ⟨_, _, _, [.applylog _ (s.lastAppliedIdx + 1)], rfl, rfl,
        fun o ho => List.mem_singleton.mp ho⟩
  · -- without a state machine the answer is 0, whatever the split says
    rw [if_neg happly]
    split
    · refine ⟨raftErrShutdown, _, s.votingCfgChangeLogIdx, [], rfl, ?_,
        fun o ho => absurd ho List.not_mem_nil⟩
      rw [List.append_nil]
    · simp only [Server.commitMembers, hplain, Bool.not_false, if_true, Option.map_some]
      refine ⟨0, _, if s.votingCfgChangeLogIdx = some (s.lastAppliedIdx + 1) then none
        else s.votingCfgChangeLogIdx, [], rfl, ?_, fun o ho => absurd ho List.not_mem_nil⟩
      rw [List.append_nil]

/-- Everything that is applied was committed, and each entry is applied under its index. -/
theorem applyLoop (h : Settled ids v s) (cb : Cbs) (n : Nat)
    (hle : s.commitIdx ≤ s.log.toList.length) (happlied : s.lastAppliedIdx ≤ s.commitIdx) :
    ∃ e k cfg outs, Server.applyLoop cb n s = some (e, { s with
        lastAppliedIdx := k
        votingCfgChangeLogIdx := cfg
        out := s.out ++ outs }) ∧
      s.lastAppliedIdx ≤ k ∧ k ≤ s.commitIdx ∧
      ∀ o ∈ outs, ∃ ety i, o = .applylog ety (i + 1) ∧ i < k ∧ s.log.toList[i]? = some ety := by
  induction n generalizing s with
  | zero =>
    refine ⟨0, s.lastAppliedIdx, s.votingCfgChangeLogIdx, [], ?_, Nat.le_refl _, happlied,
      fun o ho => absurd ho List.not_mem_nil⟩
    rw [List.append_nil]
    rfl
  | succ n ih =>
    rw [Server.applyLoop]
    split
    · next hlt =>
      obtain ⟨e, ety, cfg, outs, hget, happly, houts⟩ := h.applyEntry cb hlt hle
      simp only [happly, Option.bind_eq_bind, Option.bind_some]
      have hfirst : ∀ o ∈ outs, ∃ ety i, o = .applylog ety (i + 1) ∧ i < s.lastAppliedIdx + 1 ∧
          s.log.toList[i]? = some ety :=
        fun o ho => ⟨ety, s.lastAppliedIdx, houts o ho, Nat.lt_succ_self _, hget⟩
      split
      · exact ⟨e, s.lastAppliedIdx + 1, cfg, outs, rfl, Nat.le_succ _, hlt, hfirst⟩
      · have h' : Settled ids v { s with
            lastAppliedIdx := s.lastAppliedIdx + 1
            votingCfgChangeLogIdx := cfg
            out := s.out ++ outs } := { h with ids_eq := h.ids_eq, node := h.node }
        obtain ⟨e', k, cfg', outs', hloop, hk, hk', houts'⟩ := ih h' hle hlt
        replace hk : s.lastAppliedIdx + 1 ≤ k := hk
        refine ⟨e', k, cfg', outs ++ outs', ?_, by omega, hk', fun o ho => ?_⟩
        · rw [hloop]
          simp only [List.append_assoc]
        · obtain ho | ho := List.mem_append.mp ho
          · obtain ⟨ety', i, heq, hi, hget'⟩ := hfirst o ho
            exact ⟨ety', i, heq, by omega, hget'⟩
          · exact houts' o ho
    · refine ⟨0, s.lastAppliedIdx, s.votingCfgChangeLogIdx, [], ?_, Nat.le_refl _, happlied,
        fun o ho => absurd ho List.not_mem_nil⟩
      rw [List.append_nil]

end Settled

end HomeKeeper.Raft
