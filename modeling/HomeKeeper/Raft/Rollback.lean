import HomeKeeper.Raft.LogRefine
import HomeKeeper.Raft.Replication
import Mathlib.Data.List.Nodup

/-!
# Taking back changes of the members

The members of a server follow its log: `raft_offer_log` changes them when an entry is appended,
and `raft_pop_log` is to undo it when the entry is deleted again, because another leader has another
one in its place. `Restorable` says for which members it does: the entry must have been about a
node that is there, and active if it is removed, or not there if it is added as non-voting.
A change that adds a voting node at once is not taken back, the node stays.

Whole batches go back if each entry could be taken back when it came (`server_rollback`). This
needs `log_offer`: without one the changes are not made, but they are still undone.
-/

namespace HomeKeeper.Raft

namespace Members

variable {m : Members} {id : NodeId}

theorem mem_of_getNode {n : Node} (h : m.getNode id = some n) : n ∈ m.nodes ∧ n.id = id :=
  ⟨List.mem_of_find?_eq_some h, by simpa using List.find?_some h⟩

theorem not_mem_of_getNode (h : m.getNode id = none) : ∀ n ∈ m.nodes, n.id ≠ id := by
  intro n hn heq
  have hfound := List.find?_eq_none.mp h n hn
  simp [heq] at hfound

/-- A node is known by its id. -/
theorem eq_of_getNode (hnodup : (m.nodes.map Node.id).Nodup) {n n' : Node}
    (h : m.getNode id = some n) (hn' : n' ∈ m.nodes) (hid : n'.id = id) : n' = n := by
  obtain ⟨hn, hnid⟩ := mem_of_getNode h
  exact List.inj_on_of_nodup_map hnodup hn' hn (hid.trans hnid.symm)

theorem getNode_modify {f : Node → Node} (hf : ∀ n, (f n).id = n.id) {n : Node}
    (h : m.getNode id = some n) : (m.modify id f).getNode id = some (f n) := by
  have hid := (mem_of_getNode h).2
  have hkeep : ((fun x : Node => x.id == id) ∘ fun x => if x.id = id then f x else x)
      = fun x : Node => x.id == id := by
    funext x
    show ((if x.id = id then f x else x).id == id) = (x.id == id)
    split
    · rw [hf]
    · rfl
  show (m.nodes.map _).find? _ = _
  rw [List.find?_map, hkeep]
  show (m.getNode id).map _ = _
  rw [h, Option.map_some, if_pos hid]

theorem getNode_modify_none {f : Node → Node} (h : m.getNode id = none) :
    m.modify id f = m := by
  have hnot := not_mem_of_getNode h
  have hmap : m.nodes.map (fun n => if n.id = id then f n else n) = m.nodes := by
    conv_rhs => rw [← List.map_id m.nodes]
    exact List.map_congr_left fun n hn => if_neg (hnot n hn)
  show ({ m with nodes := _ } : Members) = m
  rw [hmap]

/-- Two writes to one node, as one function of what was there. -/
theorem modify_modify {f g : Node → Node} (hf : ∀ n, (f n).id = n.id) :
    (m.modify id f).modify id g = m.modify id (g ∘ f) := by
  show ({ m with nodes := _ } : Members) = { m with nodes := _ }
  simp only [modify, List.map_map]
  congr 2
  funext n
  show (if (if n.id = id then f n else n).id = id then _ else _) = _
  by_cases hid : n.id = id
  · simp [hid, hf]
  · simp [hid]

/-- A write that leaves the node as it is. -/
theorem modify_eq_self (hnodup : (m.nodes.map Node.id).Nodup) {f : Node → Node} {n : Node}
    (h : m.getNode id = some n) : m.modify id f = m ↔ f n = n := by
  obtain ⟨hn, hid⟩ := mem_of_getNode h
  constructor
  · intro heq
    have hmap : m.nodes.map (fun n => if n.id = id then f n else n) = m.nodes.map fun n => n := by
      rw [List.map_id_fun']
      exact congrArg Members.nodes heq
    have hn' := List.map_inj_left.mp hmap n hn
    rwa [if_pos hid] at hn'
  · intro heq
    have hmap : m.nodes.map (fun n => if n.id = id then f n else n) = m.nodes := by
      conv_rhs => rw [← List.map_id m.nodes]
      refine List.map_congr_left fun x hx => ?_
      split
      · next hxid => rw [eq_of_getNode hnodup h hx hxid, heq]; rfl
      · rfl
    show ({ m with nodes := _ } : Members) = m
    rw [hmap]

/-! ### A node at the end -/

/-- The members with a node that was not there. -/
def added (m : Members) (n : Node) (node : Option NodeId) : Members := ⟨m.nodes ++ [n], node⟩

theorem getNode_added (h : m.getNode id = none) {n : Node} (hn : n.id = id) (node : Option NodeId) :
    (m.added n node).getNode id = some n := by
  show (m.nodes ++ [n]).find? (fun n => n.id == id) = some n
  rw [List.find?_append, show m.nodes.find? (fun n => n.id == id) = none from h]
  simp [hn]

theorem modify_added (h : m.getNode id = none) {n : Node} (hn : n.id = id) (f : Node → Node)
    (node : Option NodeId) : (m.added n node).modify id f = m.added (f n) node := by
  have hold := congrArg Members.nodes (getNode_modify_none (f := f) h)
  show Members.mk ((m.nodes ++ [n]).map _) _ = Members.mk _ _
  rw [List.map_append, List.map_singleton, if_pos hn]
  congr 2

theorem removeNode_added (h : m.getNode id = none) {n : Node} (hn : n.id = id) :
    (m.added n m.node).removeNode id = some m := by
  have hnot := not_mem_of_getNode h
  have hlast : [n].eraseP (fun x => x.id == id) = [] := by simp [hn]
  unfold removeNode
  rw [getNode_added h hn]
  show some (Members.mk ((m.nodes ++ [n]).eraseP _) m.node) = some m
  rw [List.eraseP_append_right _ (fun x hx => by simpa using hnot x hx), hlast, List.append_nil]

theorem length_modify (f : Node → Node) : (m.modify id f).nodes.length = m.nodes.length :=
  List.length_map ..

theorem ids_modify {f : Node → Node} (hf : ∀ n, (f n).id = n.id) :
    (m.modify id f).nodes.map Node.id = m.nodes.map Node.id := by
  show (m.nodes.map _).map _ = _
  rw [List.map_map]
  refine List.map_congr_left fun n _ => ?_
  show (if n.id = id then f n else n).id = n.id
  split
  · exact hf n
  · rfl

end Members

/-- What must be so of the node `id` before an entry of a type, in a server with the id `self`. -/
def RestorableAs (self id : NodeId) (node : Option Node) : LogType → Prop
  | .addNonvotingNode => id ≠ self ∧ node = none
  | .addNode => node.isSome
  | .demoteNode => node.isSome
  | .removeNode => node.any Node.isActive
  | .normal => True
  | .user _ => True

instance (self id : NodeId) (node : Option Node) :
    (type : LogType) → Decidable (RestorableAs self id node type)
  | .addNonvotingNode => inferInstanceAs (Decidable (id ≠ self ∧ node = none))
  | .addNode => inferInstanceAs (Decidable (node.isSome = true))
  | .demoteNode => inferInstanceAs (Decidable (node.isSome = true))
  | .removeNode => inferInstanceAs (Decidable (node.any Node.isActive = true))
  | .normal => isTrue trivial
  | .user _ => isTrue trivial

/-- The members before an entry that can be taken back. -/
def Restorable (getNodeId : Entry → Nat → NodeId) (m : Members) (ety : Entry) (idx : Nat) : Prop :=
  RestorableAs m.nodeid (getNodeId ety idx) (m.getNode (getNodeId ety idx)) ety.type

section
variable {getNodeId : Entry → Nat → NodeId} {alloc : NodeId → Bool} {m m' : Members} {ety : Entry}
  {idx : Nat}

instance : Decidable (Restorable getNodeId m ety idx) :=
  inferInstanceAs (Decidable (RestorableAs _ _ _ ety.type))

theorem changeVoting_eq_some {id : NodeId} {voting : Bool}
    (h : m.changeVoting id voting = some m') :
    ∃ n, m.getNode id = some n ∧ n.voting ≠ voting ∧ m' = m.modify id (Node.setVoting voting) := by
  obtain ⟨n, hn, h⟩ := Option.bind_eq_some_iff.mp h
  split at h
  · cases h
  · next hne => exact ⟨n, hn, hne, (Option.some.inj h).symm⟩

/-- Voting is given back as it was. -/
theorem changeVoting_back (hnodup : (m.nodes.map Node.id).Nodup) {id : NodeId} {n : Node}
    {voting : Bool} (hn : m.getNode id = some n) (hne : n.voting ≠ voting) :
    (m.modify id (Node.setVoting voting)).changeVoting id (!voting) = some m := by
  have hget : (m.modify id (Node.setVoting voting)).getNode id = some (n.setVoting voting) :=
    Members.getNode_modify (f := Node.setVoting voting) (fun _ => rfl) hn
  have hold : n.voting = !voting := by
    cases hv : n.voting <;> cases voting <;> simp_all
  unfold Members.changeVoting
  rw [hget]
  show (if voting = !voting then none else _) = some m
  rw [if_neg (by cases voting <;> simp), 
    Members.modify_modify (f := Node.setVoting voting) fun _ => rfl]
  have hself : m.modify id (Node.setVoting (!voting) ∘ Node.setVoting voting) = m := by
    rw [Members.modify_eq_self hnodup hn]
    show ({ n with voting := !voting } : Node) = n
    rw [← hold]
  rw [hself]

theorem pop_offer_addNonvotingNode (htype : ety.type = .addNonvotingNode)
    (hoffer : raftOfferLog (some getNodeId) alloc m ety idx = some m') :
    raftPopLog (some getNodeId) m' ety idx = some m ↔ Restorable getNodeId m ety idx := by
  have hcfg : ety.isCfgChange = true := by simp [Entry.isCfgChange, htype]
  simp only [Restorable, RestorableAs, htype]
  simp only [raftOfferLog, hcfg, htype, Bool.not_true, Bool.false_eq_true, if_false,
    Option.bind_eq_bind, Option.bind_some, beq_iff_eq] at hoffer
  simp only [raftPopLog, hcfg, htype, Bool.not_true, Bool.false_eq_true, if_false,
    Option.bind_eq_bind, Option.bind_some]
  -- what comes back has one node less than there was, or there is nothing to come back
  have hshort : ∀ m₁ : Members, m₁.nodes.length = m.nodes.length →
      m₁.removeNode (getNodeId ety idx) ≠ some m := by
    intro m₁ hlen hremove
    unfold Members.removeNode at hremove
    split at hremove
    · cases hremove
    · next hsome =>
      obtain ⟨n, hn⟩ := Option.ne_none_iff_exists'.mp (by simpa using hsome)
      obtain ⟨hmem, hid⟩ := Members.mem_of_getNode hn
      have hlen' := List.length_eraseP_of_mem (p := fun n => n.id == getNodeId ety idx) hmem
        (by simpa using hid)
      rw [Option.some.injEq] at hremove
      have hnodes := congrArg (fun m => m.nodes.length) hremove
      have hpos := List.length_pos_of_mem hmem
      simp only at hnodes
      omega
  split at hoffer
  · next hself =>
    rw [Option.some.injEq] at hoffer
    subst hoffer
    rw [if_pos hself]
    exact iff_of_false nofun fun h => h.1 hself
  · next hself =>
    split at hoffer
    · next node hnode =>
      have hkeeps : m'.nodes.length = m.nodes.length ∧ m'.nodeid = m.nodeid := by
        split at hoffer
        · rw [Option.some.injEq] at hoffer
          exact hoffer ▸ ⟨rfl, rfl⟩
        · rw [Option.some.injEq] at hoffer
          exact hoffer ▸ ⟨Members.length_modify _, rfl⟩
      rw [hkeeps.2, if_neg hself]
      refine iff_of_false (hshort m' hkeeps.1) fun h => ?_
      rw [hnode] at h
      cases h.2
    · next hnode =>
      have hnot := Members.not_mem_of_getNode hnode
      unfold Members.addNonVotingNodeInternal Members.addNodeInternal at hoffer
      simp only [hnode, Option.isSome_none, Bool.false_eq_true, if_false] at hoffer
      cases halloc : alloc (getNodeId ety idx) with
      | false => simp [halloc] at hoffer
      | true =>
        have hself' : (getNodeId ety idx == m.nodeid) = false := by simpa using hself
        simp only [halloc, hself', Bool.not_true, Bool.false_eq_true, if_false, if_true,
          Option.some.injEq] at hoffer
        have hadded := Members.modify_added hnode (n := Node.new (getNodeId ety idx)) rfl
          (Node.setVoting false) m.node
        rw [← hoffer]
        refine iff_of_true ?_ ⟨hself, hnode⟩
        refine (if_neg hself).trans ?_
        exact (congrArg (Members.removeNode _) hadded).trans (Members.removeNode_added hnode rfl)

theorem pop_offer_addNode (hnodup : (m.nodes.map Node.id).Nodup) (htype : ety.type = .addNode)
    (hoffer : raftOfferLog (some getNodeId) alloc m ety idx = some m') :
    raftPopLog (some getNodeId) m' ety idx = some m ↔ Restorable getNodeId m ety idx := by
  have hcfg : ety.isCfgChange = true := by simp [Entry.isCfgChange, htype]
  simp only [Restorable, RestorableAs, htype]
  simp only [raftOfferLog, hcfg, htype, Bool.not_true, Bool.false_eq_true, if_false,
    Option.bind_eq_bind, Option.bind_some] at hoffer
  simp only [raftPopLog, hcfg, htype, Bool.not_true, Bool.false_eq_true, if_false,
    Option.bind_eq_bind, Option.bind_some]
  unfold Members.addNodeInternal at hoffer
  cases hnode : m.getNode (getNodeId ety idx) with
  | some n =>
    simp only [hnode] at hoffer
    cases hvoting : n.voting with
    | true => simp [hvoting] at hoffer
    | false =>
      simp only [hvoting, Bool.not_false, if_true, Option.some.injEq] at hoffer
      subst hoffer
      have hne : n.voting ≠ true := by rw [hvoting]; decide
      have hback := changeVoting_back hnodup hnode hne
      exact iff_of_true hback rfl
  | none =>
    simp only [hnode] at hoffer
    cases halloc : alloc (getNodeId ety idx) with
    | false => simp [halloc] at hoffer
    | true =>
      simp only [halloc, Bool.not_true, Bool.false_eq_true, if_false, if_true,
        Option.some.injEq] at hoffer
      -- the node stays, without its vote
      refine iff_of_false (fun hback => ?_) nofun
      obtain ⟨-, -, -, heq⟩ := changeVoting_eq_some hback
      have hlen := congrArg (fun m => m.nodes.length) heq
      simp only [Members.length_modify, ← hoffer, List.length_append, List.length_singleton] at hlen
      omega

theorem pop_offer_demoteNode (hnodup : (m.nodes.map Node.id).Nodup)
    (htype : ety.type = .demoteNode)
    (hoffer : raftOfferLog (some getNodeId) alloc m ety idx = some m') :
    raftPopLog (some getNodeId) m' ety idx = some m ↔ Restorable getNodeId m ety idx := by
  have hcfg : ety.isCfgChange = true := by simp [Entry.isCfgChange, htype]
  simp only [Restorable, RestorableAs, htype]
  simp only [raftOfferLog, hcfg, htype, Bool.not_true, Bool.false_eq_true, if_false,
    Option.bind_eq_bind, Option.bind_some] at hoffer
  simp only [raftPopLog, hcfg, htype, Bool.not_true, Bool.false_eq_true, if_false,
    Option.bind_eq_bind, Option.bind_some]
  cases hnode : m.getNode (getNodeId ety idx) with
  | some n =>
    simp only [hnode] at hoffer
    obtain ⟨n', hn', hne, rfl⟩ := changeVoting_eq_some hoffer
    exact iff_of_true (changeVoting_back hnodup hn' hne) rfl
  | none =>
    simp only [hnode, Option.some.injEq] at hoffer
    subst hoffer
    refine iff_of_false (fun hback => ?_) nofun
    obtain ⟨n, hn, -⟩ := changeVoting_eq_some hback
    rw [hnode] at hn
    cases hn

theorem pop_offer_removeNode (hnodup : (m.nodes.map Node.id).Nodup)
    (htype : ety.type = .removeNode)
    (hoffer : raftOfferLog (some getNodeId) alloc m ety idx = some m') :
    raftPopLog (some getNodeId) m' ety idx = some m ↔ Restorable getNodeId m ety idx := by
  have hcfg : ety.isCfgChange = true := by simp [Entry.isCfgChange, htype]
  simp only [Restorable, RestorableAs, htype]
  simp only [raftOfferLog, hcfg, htype, Bool.not_true, Bool.false_eq_true, if_false,
    Option.bind_eq_bind, Option.bind_some] at hoffer
  simp only [raftPopLog, hcfg, htype, Bool.not_true, Bool.false_eq_true, if_false,
    Option.bind_eq_bind, Option.bind_some]
  cases hnode : m.getNode (getNodeId ety idx) with
  | some n =>
    simp only [hnode, Option.some.injEq] at hoffer
    subst hoffer
    rw [Members.getNode_modify (f := Node.setActive false) (fun _ => rfl) hnode, Option.bind_some,
      Members.modify_modify (f := Node.setActive false) fun _ => rfl, Option.some.injEq,
      Members.modify_eq_self hnodup hnode]
    -- the node becomes active, whatever it was
    show ({ n with inactive := false } : Node) = n ↔ n.isActive = true
    obtain ⟨id, nextIdx, matchIdx, votedForMe, voting, hasSufficientLog, inactive, committed,
      addition⟩ := n
    cases inactive <;> simp [Node.isActive]
  | none =>
    simp only [hnode, Option.some.injEq] at hoffer
    subst hoffer
    rw [hnode]
    exact iff_of_false nofun nofun

/-- `raft_pop_log` undoes `raft_offer_log` exactly on the members that can be restored. -/
theorem pop_offer_iff (hnodup : (m.nodes.map Node.id).Nodup)
    (hoffer : raftOfferLog (some getNodeId) alloc m ety idx = some m') :
    raftPopLog (some getNodeId) m' ety idx = some m ↔ Restorable getNodeId m ety idx := by
  cases htype : ety.type with
  | addNonvotingNode => exact pop_offer_addNonvotingNode htype hoffer
  | addNode => exact pop_offer_addNode hnodup htype hoffer
  | demoteNode => exact pop_offer_demoteNode hnodup htype hoffer
  | removeNode => exact pop_offer_removeNode hnodup htype hoffer
  | normal =>
    have hcfg : ety.isCfgChange = false := by simp [Entry.isCfgChange, htype]
    simp only [raftOfferLog, raftPopLog, hcfg, Restorable, RestorableAs, htype, Bool.not_false,
      if_true, Option.some.injEq, iff_true] at hoffer ⊢
    exact hoffer.symm
  | user n =>
    have hcfg : ety.isCfgChange = false := by simp [Entry.isCfgChange, htype]
    simp only [raftOfferLog, raftPopLog, hcfg, Restorable, RestorableAs, htype, Bool.not_false,
      if_true, Option.some.injEq, iff_true] at hoffer ⊢
    exact hoffer.symm

/-- No id comes up twice. -/
theorem nodup_offer (hnodup : (m.nodes.map Node.id).Nodup)
    (hoffer : raftOfferLog (some getNodeId) alloc m ety idx = some m') :
    (m'.nodes.map Node.id).Nodup := by
  have hfresh : ∀ {id : NodeId} {n : Node} {node : Option NodeId}, m.getNode id = none →
      n.id = id → ((m.added n node).nodes.map Node.id).Nodup := by
    intro id n node hnone hn
    show ((m.nodes ++ [n]).map Node.id).Nodup
    rw [List.map_append, List.map_singleton, List.nodup_append]
    refine ⟨hnodup, List.nodup_singleton _, fun x hx y hy => ?_⟩
    obtain ⟨n', hn', rfl⟩ := List.mem_map.mp hx
    obtain rfl := List.mem_singleton.mp hy
    exact hn ▸ Members.not_mem_of_getNode hnone n' hn'
  have hmodify : ∀ (id : NodeId) (f : Node → Node), (∀ n, (f n).id = n.id) →
      ((m.modify id f).nodes.map Node.id).Nodup := by
    intro id f hf
    rw [Members.ids_modify hf]
    exact hnodup
  unfold raftOfferLog at hoffer
  split at hoffer
  · rw [Option.some.injEq] at hoffer
    exact hoffer ▸ hnodup
  · simp only [Option.bind_eq_bind, Option.bind_some] at hoffer
    split at hoffer
    · split at hoffer
      · rw [Option.some.injEq] at hoffer
        exact hoffer ▸ hnodup
      · split at hoffer
        · split at hoffer
          · rw [Option.some.injEq] at hoffer
            exact hoffer ▸ hnodup
          · rw [Option.some.injEq] at hoffer
            exact hoffer ▸ hmodify _ _ fun _ => rfl
        · next hnode =>
          unfold Members.addNonVotingNodeInternal Members.addNodeInternal at hoffer
          simp only [hnode, Option.isSome_none, Bool.false_eq_true, if_false] at hoffer
          cases halloc : alloc (getNodeId ety idx) with
          | false => simp [halloc] at hoffer
          | true =>
            simp only [halloc, Bool.not_true, Bool.false_eq_true, if_false, if_true,
              Option.some.injEq] at hoffer
            rw [← hoffer, Members.ids_modify (f := Node.setVoting false) fun _ => rfl]
            exact hfresh hnode rfl
    · unfold Members.addNodeInternal at hoffer
      split at hoffer
      · split at hoffer
        · simp only [if_true, Option.some.injEq] at hoffer
          exact hoffer ▸ hmodify _ _ fun _ => rfl
        · simp at hoffer
      · next hnode =>
        split at hoffer
        · simp at hoffer
        · simp only [if_true, Option.some.injEq] at hoffer
          rw [← hoffer]
          exact hfresh hnode rfl
    · split at hoffer
      · obtain ⟨-, -, -, rfl⟩ := changeVoting_eq_some hoffer
        exact hmodify _ _ fun _ => rfl
      · rw [Option.some.injEq] at hoffer
        exact hoffer ▸ hnodup
    · split at hoffer
      · rw [Option.some.injEq] at hoffer
        exact hoffer ▸ hmodify _ _ fun _ => rfl
      · rw [Option.some.injEq] at hoffer
        exact hoffer ▸ hnodup
    · cases hoffer

end

/-! ## A batch of entries -/

/-- Every entry, as it comes, can be taken back. -/
def RestorableAll (getNodeId : Entry → Nat → NodeId) (alloc : NodeId → Bool) :
    List Entry → Nat → Members → Prop
  | [], _, _ => True
  | ety :: etys, idx, m => Restorable getNodeId m ety idx ∧
      ∀ m', raftOfferLog (some getNodeId) alloc m ety idx = some m' →
        RestorableAll getNodeId alloc etys (idx + 1) m'

instance RestorableAll.decidable {getNodeId : Entry → Nat → NodeId} {alloc : NodeId → Bool} :
    (etys : List Entry) → (idx : Nat) → (m : Members) →
      Decidable (RestorableAll getNodeId alloc etys idx m)
  | [], _, _ => isTrue trivial
  | ety :: etys, idx, m =>
    match h : raftOfferLog (some getNodeId) alloc m ety idx with
    | none => decidable_of_iff (Restorable getNodeId m ety idx) (by simp [RestorableAll, h])
    | some m' =>
      haveI : Decidable (RestorableAll getNodeId alloc etys (idx + 1) m') :=
        RestorableAll.decidable etys (idx + 1) m'
      decidable_of_iff (Restorable getNodeId m ety idx
        ∧ RestorableAll getNodeId alloc etys (idx + 1) m') (by simp [RestorableAll, h])

def offerAll (getNodeId : Entry → Nat → NodeId) (alloc : NodeId → Bool) :
    List Entry → Nat → Members → Option Members
  | [], _, m => some m
  | ety :: etys, idx, m =>
    (raftOfferLog (some getNodeId) alloc m ety idx).bind (offerAll getNodeId alloc etys (idx + 1))

section
variable {ρ : Type} {logPop : Option (Entry → Nat → Int)}
  {raftPop : ρ → Entry → Nat → Option ρ} {base : Nat}

theorem popBack_of_le {keep : Nat} {rev : List Entry} (h : rev.length ≤ keep) (r : ρ) :
    AbsLog.popBack logPop raftPop base keep rev r = some (0, rev, r) := by
  cases rev with
  | nil => rfl
  | cons ety older =>
    have hlt : older.length < keep := h
    rw [AbsLog.popBack, if_pos hlt]

/-- To delete further, one may stop on the way. -/
theorem popBack_trans {keep keep' : Nat} (hle : keep ≤ keep') {rev rev' : List Entry} {r r' : ρ}
    (h : AbsLog.popBack logPop raftPop base keep' rev r = some (0, rev', r')) :
    AbsLog.popBack logPop raftPop base keep rev r
      = AbsLog.popBack logPop raftPop base keep rev' r' := by
  induction rev generalizing r with
  | nil =>
    simp only [AbsLog.popBack, Option.some.injEq, Prod.mk.injEq] at h
    obtain ⟨-, rfl, rfl⟩ := h
    rfl
  | cons ety older ih =>
    unfold AbsLog.popBack at h
    split at h
    · simp only [Option.some.injEq, Prod.mk.injEq] at h
      obtain ⟨-, rfl, rfl⟩ := h
      rfl
    · next hkeep =>
      dsimp only at h
      split at h
      · next he =>
        simp only [Option.some.injEq, Prod.mk.injEq] at h
        exact absurd h.1 he
      · next he =>
        obtain ⟨r₁, hpop, h⟩ := Option.bind_eq_some_iff.mp h
        rw [← ih h]
        conv_lhs => rw [AbsLog.popBack]
        rw [if_neg (by omega)]
        dsimp only
        rw [if_neg he, hpop, Option.bind_some]

end

section
variable {getNodeId : Entry → Nat → NodeId} {alloc : NodeId → Bool}
  {logPop : Option (Entry → Nat → Int)}

/-- The entries behind `older` are popped, the youngest first. -/
theorem popBack_offerAll (hans : ∀ ety idx, answer logPop ety idx = 0) {base : Nat}
    {older etys : List Entry} {m m' : Members} (hnodup : (m.nodes.map Node.id).Nodup)
    (hoffer : offerAll getNodeId alloc etys (base + older.length + 1) m = some m')
    (hall : RestorableAll getNodeId alloc etys (base + older.length + 1) m) :
    AbsLog.popBack logPop (raftPopLog (some getNodeId)) base older.length (older ++ etys).reverse m'
      = some (0, older.reverse, m) := by
  induction etys generalizing older m with
  | nil =>
    rw [offerAll, Option.some.injEq] at hoffer
    subst hoffer
    rw [List.append_nil]
    exact popBack_of_le (by rw [List.length_reverse]) _
  | cons ety etys ih =>
    obtain ⟨m₁, hfirst, hrest⟩ := Option.bind_eq_some_iff.mp hoffer
    have hlen : base + older.length + 1 + 1 = base + (older ++ [ety]).length + 1 := by
      rw [List.length_append, List.length_singleton, Nat.add_assoc base]
    rw [hlen] at hrest
    have hall₁ := hall.2 m₁ hfirst
    rw [hlen] at hall₁
    have hlater := ih (nodup_offer hnodup hfirst) hrest hall₁
    have hsplit : older ++ ety :: etys = (older ++ [ety]) ++ etys := by
      rw [List.append_assoc, List.singleton_append]
    have hback := (pop_offer_iff hnodup hfirst).mpr hall.1
    rw [hsplit, popBack_trans (by rw [List.length_append]; omega) hlater, List.reverse_append,
      List.reverse_singleton, List.singleton_append, AbsLog.popBack,
      if_neg (by rw [List.length_reverse]; omega)]
    dsimp only
    rw [List.length_reverse, hans, if_neg (fun hne => hne rfl), ← Nat.add_assoc, hback,
      Option.bind_some]
    exact popBack_of_le (by rw [List.length_reverse]) _

end

namespace Server

variable {cb : Cbs} {getNodeId : Entry → Nat → NodeId} {s s' : Server}

/-- What an append leaves where there is a `log_offer`. -/
theorem appendEntry_offered (hcb : cb.logGetNodeId = some getNodeId)
    (hoffer : cb.logOffer.isSome) {ety : Entry} (h : s.appendEntry cb ety = some (0, s')) :
    s'.log.abs = ⟨s.log.base, s.log.toList ++ [ety]⟩ ∧
      raftOfferLog (some getNodeId) cb.nodeNew s.members ety (s.currentIdx + 1) = some s'.members ∧
      s'.commitIdx = s.commitIdx := by
  obtain ⟨⟨e, log, members⟩, hlog, h⟩ := Option.bind_eq_some_iff.mp h
  simp only [Option.some.injEq, Prod.mk.injEq] at h
  obtain ⟨rfl, rfl⟩ := h
  have hseen := Log.seen_appendEntry cb.logOffer (raftOfferLog cb.logGetNodeId cb.nodeNew)
    (cb.calloc s.log.size) ety s.log s.members
  obtain ⟨offer, hsome⟩ := Option.isSome_iff_exists.mp hoffer
  rw [hlog, Option.map_some, hcb, hsome] at hseen
  unfold AbsLog.append at hseen
  split at hseen
  · simp [Log.seen, raftErrNomem] at hseen
  · dsimp only at hseen
    split at hseen
    · next hne =>
      simp only [Log.seen, Option.some.injEq, Prod.mk.injEq] at hseen
      exact absurd hseen.1.symm hne
    · obtain ⟨r, hr, heq⟩ := Option.map_eq_some_iff.mp hseen.symm
      simp only [Log.seen, Prod.mk.injEq] at heq
      rw [Log.abs_currentIdx] at hr
      exact ⟨heq.2.1.symm, heq.2.2 ▸ hr, rfl⟩

theorem appendLoop_offered (hcb : cb.logGetNodeId = some getNodeId) (hoffer : cb.logOffer.isSome)
    {etys : List Entry} {idx idx' : Nat} (h : s.appendLoop cb etys idx = some (0, idx', s')) :
    s'.log.abs = ⟨s.log.base, s.log.toList ++ etys⟩ ∧
      offerAll getNodeId cb.nodeNew etys (s.currentIdx + 1) s.members = some s'.members ∧
      s'.commitIdx = s.commitIdx := by
  induction etys generalizing s idx with
  | nil =>
    simp only [appendLoop, Option.some.injEq, Prod.mk.injEq] at h
    obtain ⟨-, -, rfl⟩ := h
    rw [List.append_nil]
    exact ⟨rfl, rfl, rfl⟩
  | cons ety etys ih =>
    obtain ⟨⟨e, s₁⟩, happend, h⟩ := Option.bind_eq_some_iff.mp h
    dsimp only at h
    split at h
    · next he =>
      simp only [Option.some.injEq, Prod.mk.injEq] at h
      exact absurd h.1 he
    · next he =>
      rw [not_not.mp he] at happend
      obtain ⟨habs₁, hfirst, hcommit₁⟩ := appendEntry_offered hcb hoffer happend
      obtain ⟨habs, hrest, hcommit⟩ := ih h
      have hbase : s₁.log.base = s.log.base := congrArg AbsLog.base habs₁
      have hlist : s₁.log.toList = s.log.toList ++ [ety] := congrArg AbsLog.items habs₁
      have hidx : s₁.currentIdx = s.currentIdx + 1 := by
        have hlen := congrArg List.length hlist
        rw [List.length_append, List.length_singleton, Log.length_toList, Log.length_toList] at hlen
        show s₁.log.count + s₁.log.base = s.log.count + s.log.base + 1
        omega
      refine ⟨?_, ?_, hcommit.trans hcommit₁⟩
      · rw [habs, hbase, hlist, List.append_assoc, List.singleton_append]
      · rw [offerAll, hfirst, Option.bind_some, ← hidx]
        exact hrest

/-- A batch of entries is appended, each of which can be taken back when it comes, and deleted
again: the log and the members are what they were. -/
theorem server_rollback (hnodup : s.nodeIds.Nodup) (hcommit : s.commitIdx ≤ s.currentIdx)
    (hcb : cb.logGetNodeId = some getNodeId) (hoffer : cb.logOffer.isSome)
    (hpop : ∀ ety idx, answer cb.logPop ety idx = 0) {etys : List Entry} {idx idx' : Nat}
    (happend : s.appendLoop cb etys idx = some (0, idx', s'))
    (hall : RestorableAll getNodeId cb.nodeNew etys (s.currentIdx + 1) s.members) :
    ∃ s'', s'.deleteEntryFromIdx cb (s.currentIdx + 1) = some (0, s'') ∧
      s''.log.abs = s.log.abs ∧ s''.members = s.members := by
  obtain ⟨habs, hoffers, hsame⟩ := appendLoop_offered hcb hoffer happend
  have hbase : s'.log.base = s.log.base := congrArg AbsLog.base habs
  have hidx : s.currentIdx = s.log.base + s.log.toList.length := by
    rw [Log.length_toList]
    exact Nat.add_comm ..
  rw [hidx] at hoffers hall
  have hback := popBack_offerAll hpop hnodup hoffers hall
  have hseen := Log.seen_delete cb.logPop (raftPopLog cb.logGetNodeId) (s.currentIdx + 1) s'.log
    s'.members
  have hkeep : s.currentIdx + 1 - 1 - s.log.base = s.log.toList.length := by omega
  rw [AbsLog.delete, if_neg (Nat.succ_ne_zero _), habs, hcb] at hseen
  dsimp only at hseen
  rw [hkeep, hback, Option.map_some] at hseen
  obtain ⟨⟨e, log, members⟩, hdelete, hx⟩ := Option.map_eq_some_iff.mp hseen
  simp only [Log.seen, Prod.mk.injEq, List.reverse_reverse] at hx
  obtain ⟨rfl, hlog, rfl⟩ := hx
  unfold deleteEntryFromIdx
  rw [if_pos (by omega), hcb]
  simp only [hdelete, Option.bind_eq_bind, Option.bind_some]
  exact ⟨_, rfl, hlog, rfl⟩

/-- Entries about the node of their id. -/
def configuring : Cbs :=
  { obliging with
    logOffer := some fun _ _ => 0
    logGetNodeId := some fun ety _ => ety.id }

/-- A node is added and given a vote, another loses its vote and is removed. -/
def replacing : List Entry :=
  [⟨1, 3, .addNonvotingNode, []⟩, ⟨1, 3, .addNode, []⟩, ⟨1, 2, .demoteNode, []⟩,
    ⟨1, 2, .removeNode, []⟩]

def pair : Server :=
  ((Server.new configuring).addNode configuring 1 true).addNode configuring 2 false

def replaced : Int × Nat × Server := (pair.appendLoop configuring replacing 0).get (by decide)

theorem server_rollback_replaced :
    replaced.2.2.members ≠ pair.members ∧
      ∃ s, replaced.2.2.deleteEntryFromIdx configuring 1 = some (0, s) ∧
        s.log.abs = pair.log.abs ∧ s.members = pair.members := by
  have hget : pair.appendLoop configuring replacing 0 = some replaced := (Option.some_get _).symm
  have happend : pair.appendLoop configuring replacing 0 = some (0, replaced.2.1, replaced.2.2) :=
    hget
  exact ⟨by decide, server_rollback (by decide) (by decide) rfl rfl (fun _ _ => rfl) happend
    (by decide)⟩

end Server

end HomeKeeper.Raft
