import HomeKeeper.Raft.LogRefine
import Mathlib.Data.List.Perm.Basic

/-!
# What becomes of the entries of a log

An entry that `log_append_entry` took in is handed out again once, by `log_poll` from the front or
to `raft_pop_log` from the back, or it is still there. What is polled, and then what is left, are in
the order in which the entries came.

The server takes part in the run as it does in `LogRefine`; beside it stands a list of the entries
that were popped, which no function of the source reads.
-/

namespace HomeKeeper.Raft

/-- `raft_offer_log` beside a list. -/
def passing {ρ : Type} (offer : ρ → Entry → Nat → Option ρ) (x : ρ × List Entry) (ety : Entry)
    (idx : Nat) : Option (ρ × List Entry) :=
  (offer x.1 ety idx).map fun r => (r, x.2)

/-- `raft_pop_log`, with the entry put into the list. -/
def recording {ρ : Type} (pop : ρ → Entry → Nat → Option ρ) (x : ρ × List Entry) (ety : Entry)
    (idx : Nat) : Option (ρ × List Entry) :=
  (pop x.1 ety idx).map fun r => (r, x.2 ++ [ety])

/-- A call that gives an answer, and leaves the entries where it does not hand them out. -/
def LogOp.answers : LogOp → Bool
  | .append .. => true
  | .delete .. => true
  | .poll _ => true
  | _ => false

/-- The entry a call has taken in. -/
def LogOp.taken : LogOp × LogReply → Option Entry
  | (.append _ _ ety, (e, _)) => if e = 0 then some ety else none
  | _ => none

def accepted (ops : List LogOp) (replies : List LogReply) : List Entry :=
  (ops.zip replies).filterMap LogOp.taken

def polled (replies : List LogReply) : List Entry := replies.filterMap Prod.snd

/-! ## The lists -/

structure Conserved (taken polled popped items : List Entry) : Prop where
  order : (polled ++ items).Sublist taken
  perm : taken.Perm (polled ++ items ++ popped)

section
variable {taken polled popped items : List Entry}

theorem Conserved.append (h : Conserved taken polled popped items) (ety : Entry) :
    Conserved (taken ++ [ety]) polled popped (items ++ [ety]) := by
  constructor
  · rw [← List.append_assoc]
    exact h.order.append (List.Sublist.refl _)
  · refine (h.perm.append_right [ety]).trans ?_
    rw [← List.append_assoc, List.append_assoc, List.append_assoc (polled ++ items)]
    exact List.perm_append_comm.append_left (polled ++ items)

theorem Conserved.poll {ety : Entry} (h : Conserved taken polled popped (ety :: items)) :
    Conserved taken (polled ++ [ety]) popped items := by
  have hlist : polled ++ [ety] ++ items = polled ++ ety :: items := by
    rw [List.append_assoc, List.singleton_append]
  exact ⟨hlist ▸ h.order, hlist ▸ h.perm⟩

theorem Conserved.pop {gone : List Entry}
    (h : Conserved taken polled popped (items ++ gone.reverse)) :
    Conserved taken polled (popped ++ gone) items := by
  constructor
  · have horder := h.order
    rw [← List.append_assoc] at horder
    exact (List.sublist_append_left ..).trans horder
  · refine h.perm.trans ?_
    rw [← List.append_assoc, List.append_assoc]
    refine List.Perm.append_left _ ?_
    exact List.perm_append_comm.trans ((List.reverse_perm gone).append_left popped)

end

/-! ## One call -/

section
variable {ρ : Type} {offer pop : ρ → Entry → Nat → Option ρ}

theorem AbsLog.popBack_recorded {logPop : Option (Entry → Nat → Int)} {base keep : Nat}
    {rev rev' : List Entry} {r r' : ρ} {popped popped' : List Entry} {e : Int}
    (h : AbsLog.popBack logPop (recording pop) base keep rev (r, popped)
      = some (e, rev', (r', popped'))) :
    ∃ gone, rev = gone ++ rev' ∧ popped' = popped ++ gone := by
  induction rev generalizing r popped with
  | nil =>
    simp only [popBack, Option.some.injEq, Prod.mk.injEq] at h
    obtain ⟨-, rfl, -, rfl⟩ := h
    exact ⟨[], rfl, (List.append_nil _).symm⟩
  | cons ety older ih =>
    rw [popBack] at h
    split at h
    · simp only [Option.some.injEq, Prod.mk.injEq] at h
      obtain ⟨-, rfl, -, rfl⟩ := h
      exact ⟨[], rfl, (List.append_nil _).symm⟩
    · dsimp only at h
      split at h
      · simp only [Option.some.injEq, Prod.mk.injEq] at h
        obtain ⟨-, rfl, -, rfl⟩ := h
        exact ⟨[], rfl, (List.append_nil _).symm⟩
      · obtain ⟨⟨r₁, popped₁⟩, hpop, hrest⟩ := Option.bind_eq_some_iff.mp h
        obtain ⟨r₂, -, heq⟩ := Option.map_eq_some_iff.mp hpop
        rw [Prod.mk.injEq] at heq
        obtain ⟨gone, rfl, rfl⟩ := ih hrest
        refine ⟨ety :: gone, rfl, ?_⟩
        rw [← heq.2, List.append_assoc, List.singleton_append]

theorem AbsLog.append_recorded {logOffer : Option (Entry → Nat → Int)} {nomem : Bool} {ety : Entry}
    {a a' : AbsLog} {r r' : ρ} {popped popped' : List Entry} {e : Int}
    (h : a.append logOffer (passing offer) nomem ety (r, popped) = some (e, a', (r', popped'))) :
    popped' = popped ∧
      (e = 0 ∧ a'.items = a.items ++ [ety] ∨ e ≠ 0 ∧ a'.items = a.items) := by
  unfold AbsLog.append at h
  split at h
  · simp only [Option.some.injEq, Prod.mk.injEq] at h
    obtain ⟨rfl, rfl, -, rfl⟩ := h
    exact ⟨rfl, Or.inr ⟨by decide, rfl⟩⟩
  · split at h
    · simp only [Option.some.injEq, Prod.mk.injEq] at h
      obtain ⟨rfl, rfl, -, rfl⟩ := h
      exact ⟨rfl, Or.inl ⟨rfl, rfl⟩⟩
    · split at h
      · next hrefused =>
        simp only [Option.some.injEq, Prod.mk.injEq] at h
        obtain ⟨rfl, rfl, -, rfl⟩ := h
        exact ⟨rfl, Or.inr ⟨hrefused, rfl⟩⟩
      · obtain ⟨⟨r₁, popped₁⟩, hoffer, heq⟩ := Option.map_eq_some_iff.mp h
        obtain ⟨r₂, -, hlist⟩ := Option.map_eq_some_iff.mp hoffer
        simp only [Prod.mk.injEq] at heq hlist
        obtain ⟨rfl, rfl, -, rfl⟩ := heq
        exact ⟨hlist.2.symm, Or.inl ⟨rfl, rfl⟩⟩

theorem AbsLog.delete_recorded {logPop : Option (Entry → Nat → Int)} {idx : Nat}
    {a a' : AbsLog} {r r' : ρ} {popped popped' : List Entry} {e : Int}
    (h : a.delete logPop (recording pop) idx (r, popped) = some (e, a', (r', popped'))) :
    ∃ gone, a.items = a'.items ++ gone.reverse ∧ popped' = popped ++ gone := by
  unfold AbsLog.delete at h
  split at h
  · simp only [Option.some.injEq, Prod.mk.injEq] at h
    obtain ⟨-, rfl, -, rfl⟩ := h
    exact ⟨[], (List.append_nil _).symm, (List.append_nil _).symm⟩
  · obtain ⟨⟨e₁, rev, r₁, popped₁⟩, hpop, heq⟩ := Option.map_eq_some_iff.mp h
    simp only [Prod.mk.injEq] at heq
    obtain ⟨-, rfl, -, rfl⟩ := heq
    obtain ⟨gone, hrev, hgone⟩ := AbsLog.popBack_recorded hpop
    refine ⟨gone, ?_, hgone⟩
    rw [← List.reverse_append, ← hrev, List.reverse_reverse]

/-- What one call with an answer does to the lists. -/
theorem AbsLog.step_conserved {a a' : AbsLog} {r r' : ρ} {popped popped' : List Entry}
    {replies replies' : List LogReply} {op : LogOp} (hop : op.answers = true)
    (h : AbsLog.step (passing offer) (recording pop) (a, (r, popped), replies) op
      = some (a', (r', popped'), replies')) :
    ∃ reply, replies' = replies ++ [reply] ∧
      ∀ T, Conserved T (polled replies) popped a.items →
        Conserved (T ++ (LogOp.taken (op, reply)).toList) (polled replies') popped' a'.items := by
  have hsilent (e : Int) : polled (replies ++ [(e, none)]) = polled replies := by
    rw [polled, List.filterMap_append]
    exact List.append_nil _
  cases op with
  | append logOffer noMemory ety =>
    obtain ⟨⟨e, a₁, r₁⟩, happend, heq⟩ := Option.map_eq_some_iff.mp h
    simp only [Prod.mk.injEq] at heq
    obtain ⟨rfl, rfl, rfl⟩ := heq
    refine ⟨(e, none), rfl, fun T hT => ?_⟩
    obtain ⟨rfl, ⟨rfl, hitems⟩ | ⟨he, hitems⟩⟩ := AbsLog.append_recorded happend
    · rw [hsilent, hitems]
      exact hT.append ety
    · have htaken : LogOp.taken (.append logOffer noMemory ety, (e, none)) = none := if_neg he
      rw [hsilent, hitems, htaken, Option.toList_none, List.append_nil]
      exact hT
  | delete logPop idx =>
    obtain ⟨⟨e, a₁, r₁⟩, hdelete, heq⟩ := Option.map_eq_some_iff.mp h
    simp only [Prod.mk.injEq] at heq
    obtain ⟨rfl, rfl, rfl⟩ := heq
    obtain ⟨gone, hitems, rfl⟩ := AbsLog.delete_recorded hdelete
    refine ⟨(e, none), rfl, fun T hT => ?_⟩
    rw [hitems] at hT
    rw [hsilent]
    exact (List.append_nil T).symm ▸ hT.pop
  | poll logPoll =>
    simp only [AbsLog.step, Option.some.injEq, Prod.mk.injEq] at h
    obtain ⟨rfl, ⟨-, rfl⟩, rfl⟩ := h
    refine ⟨_, rfl, fun T hT => ?_⟩
    have hnone :
        LogOp.taken (.poll logPoll, ((a.poll logPoll).1, (a.poll logPoll).2.1)) = none := rfl
    rw [hnone, Option.toList_none, List.append_nil]
    unfold AbsLog.poll
    cases hitems : a.items with
    | nil =>
      rw [hsilent]
      exact hT
    | cons ety younger =>
      dsimp only
      split
      · -- the callback refused: the entry is not handed out and stays
        rw [hsilent]
        exact hT
      · rw [hitems] at hT
        have hone : polled (replies ++ [(0, some ety)]) = polled replies ++ [ety] := by
          rw [polled, List.filterMap_append]
          rfl
        rw [hone]
        exact hT.poll
  | _ => exact absurd hop Bool.false_ne_true

/-! ## Whole runs -/

theorem AbsLog.run_conserved {a a' : AbsLog} {r r' : ρ} {popped popped' : List Entry}
    {replies replies' : List LogReply} {ops : List LogOp} (hops : ∀ op ∈ ops, op.answers = true)
    (h : StepSystem.run (AbsLog.step (passing offer) (recording pop)) (a, (r, popped), replies) ops
      = some (a', (r', popped'), replies')) :
    ∃ more, replies' = replies ++ more ∧
      ∀ T, Conserved T (polled replies) popped a.items →
        Conserved (T ++ accepted ops more) (polled replies') popped' a'.items := by
  induction ops generalizing a r popped replies with
  | nil =>
    simp only [StepSystem.run_nil, Option.some.injEq, Prod.mk.injEq] at h
    obtain ⟨rfl, ⟨-, rfl⟩, rfl⟩ := h
    refine ⟨[], (List.append_nil _).symm, fun T hT => ?_⟩
    exact (List.append_nil T).symm ▸ hT
  | cons op ops ih =>
    obtain ⟨⟨a₁, ⟨r₁, popped₁⟩, replies₁⟩, hstep, hrest⟩ := StepSystem.run_cons.mp h
    obtain ⟨reply, rfl, hone⟩ := AbsLog.step_conserved (hops op List.mem_cons_self) hstep
    obtain ⟨more, rfl, hmore⟩ := ih (fun op' hop' => hops op' (List.mem_cons_of_mem op hop')) hrest
    refine ⟨reply :: more, by rw [List.append_assoc, List.singleton_append], fun T hT => ?_⟩
    have hcons : accepted (op :: ops) (reply :: more)
        = (LogOp.taken (op, reply)).toList ++ accepted ops more := by
      rw [accepted, List.zip_cons_cons, List.filterMap_cons]
      cases LogOp.taken (op, reply) <;> rfl
    rw [hcons, ← List.append_assoc]
    exact hmore _ (hone T hT)

theorem accepted_refines {ops ops' : List LogOp} (h : List.Forall₂ LogOp.Refines ops ops')
    (replies : List LogReply) : accepted ops' replies = accepted ops replies := by
  induction h generalizing replies with
  | nil => rfl
  | cons hop _ ih =>
    cases replies with
    | nil => rfl
    | cons reply replies =>
      rw [accepted, accepted, List.zip_cons_cons, List.zip_cons_cons, List.filterMap_cons,
        List.filterMap_cons, ← accepted, ← accepted, ih replies]
      cases hop <;> rfl

theorem answers_refines {ops ops' : List LogOp} (h : List.Forall₂ LogOp.Refines ops ops')
    (hops : ∀ op ∈ ops, op.answers = true) : ∀ op ∈ ops', op.answers = true := by
  induction h with
  | nil => exact hops
  | cons hop _ ih =>
    rw [List.forall_mem_cons] at hops ⊢
    refine ⟨?_, ih hops.2⟩
    cases hop with
    | same op => exact hops.1
    | room logOffer ety => rfl

/-- No entry is lost and none is handed out twice. After any run of appending, deleting and
polling, whatever the callbacks answered and whenever the array was doubled, the entries taken in
are those that were polled, those that are in the log, and those that were popped; the first two
are in the order in which they came. -/
theorem Log.entries_conserved {l : Log} {r r' : ρ} {popped : List Entry} {replies : List LogReply}
    {ops : List LogOp} (hops : ∀ op ∈ ops, op.answers = true)
    (h : StepSystem.run (Log.step (passing offer) (recording pop)) (Log.new, (r, []), []) ops
      = some (l, (r', popped), replies)) :
    (polled replies ++ l.toList).Sublist (accepted ops replies) ∧
      (accepted ops replies).Perm (polled replies ++ l.toList ++ popped) := by
  -- the list may lack memory where the buffer does, and answers the same
  obtain ⟨ops', hrefines, hrun⟩ := Log.run_refines h
  obtain ⟨more, hmore, hconserved⟩ := AbsLog.run_conserved (answers_refines hrefines hops) hrun
  rw [List.nil_append] at hmore
  obtain ⟨horder, hperm⟩ := hconserved [] ⟨List.Sublist.refl _, List.Perm.refl _⟩
  rw [List.nil_append, ← hmore, accepted_refines hrefines] at horder hperm
  exact ⟨horder, hperm⟩

end

/-- Three entries come, the first is polled and the last deleted. -/
def handing : List LogOp :=
  [.append none false ⟨1, 1, .normal, []⟩, .append none false ⟨1, 2, .normal, []⟩,
    .append none false ⟨1, 3, .normal, []⟩, .poll none, .delete none 3]

def handed : Log × (Unit × List Entry) × List LogReply :=
  (StepSystem.run (Log.step (passing fun r _ _ => some r) (recording fun r _ _ => some r))
    (Log.new, ((), []), []) handing).get (by decide)

theorem Log.entries_conserved_handed :
    handed.1.toList = [⟨1, 2, .normal, []⟩] ∧ handed.2.1.2 = [⟨1, 3, .normal, []⟩] ∧
      (polled handed.2.2 ++ handed.1.toList).Sublist (accepted handing handed.2.2) ∧
      (accepted handing handed.2.2).Perm
        (polled handed.2.2 ++ handed.1.toList ++ handed.2.1.2) := by
  have hrun : StepSystem.run (Log.step (passing fun r _ _ => some r)
      (recording fun r _ _ => some r)) (Log.new, ((), []), []) handing = some handed :=
    (Option.some_get _).symm
  exact ⟨by decide, by decide, Log.entries_conserved (by decide) hrun⟩

end HomeKeeper.Raft
