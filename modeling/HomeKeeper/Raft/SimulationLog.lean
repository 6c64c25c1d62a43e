import HomeKeeper.Raft.Simulation

/-!
# A server copies as a node of the protocol

The second half of the simulation: the entries of a leader, the answers of its followers, the
requests of clients and the clock. `Copies` is a simulation in which the history of the terms does
not change; the loops of `raft_recv_appendentries` are of that kind.

The branches of the source that "should never happen", where a leader contradicts a committed
entry, never do: an entry at odds with the leader of the present term is not committed
(`Consensus.Inv.commit_le_of_conflict`).
-/

namespace HomeKeeper.Raft

open Consensus

variable {ids : List NodeId} {sys sys' : Protocol} {v w : NodeId} {s s' : Server}

/-- The node `v` has moves that leave the history alone, after which it is where `s` is. -/
def Copies (ids : List NodeId) (sys : Protocol) (v : NodeId) (s : Server) : Prop :=
  ∃ sys', Moves Entry.term (Quorums.majority ids) v sys sys' ∧ Refines ids sys' v s ∧
    sys'.toHist = sys.toHist

theorem Copies.refl (h : Refines ids sys v s) : Copies ids sys v s := ⟨sys, .refl, h, rfl⟩

/-! ## A log that changes -/

/-- A follower has another log, and has kept what it knows to be committed. -/
theorem Refines.relog (h : Refines ids sys v s) (hstate : s.state = .follower)
    (hsettled : Settled ids v s') {cfg : Option Nat}
    (hs' : s' = { s with log := s'.log, votingCfgChangeLogIdx := cfg })
    (hkeep : s.log.toList.take s.commitIdx <+: s'.log.toList) :
    Refines ids { sys with log := Function.update sys.log v s'.log.toList } v s' where
  settled := hsettled
  term_eq := by rw [hs']; exact h.term_eq
  role_eq := by rw [hs']; exact h.role_eq
  log_eq := Function.update_self ..
  commit_eq := by rw [hs']; exact h.commit_eq
  voted := by rw [hs']; exact h.voted
  votes hs := by
    rw [hs'] at hs
    exact absurd (hstate.symm.trans hs) nofun
  matched hs := by
    rw [hs'] at hs
    exact absurd (hstate.symm.trans hs) nofun
  outs := by rw [hs']; exact h.outs
  applied_le := by rw [hs']; exact h.applied_le
  applied ety idx ho := by
    -- an applied entry is a committed one, and those are kept
    have hout : s'.out = s.out := by rw [hs']
    have hlast : s'.lastAppliedIdx = s.lastAppliedIdx := by rw [hs']
    have hle := h.applied_le
    rw [hout] at ho
    obtain ⟨hpos, hidx, hget⟩ := h.applied ety idx ho
    refine ⟨hpos, hlast ▸ hidx, prefix_getElem? hkeep ?_⟩
    rw [List.getElem?_take_of_lt (by omega), hget]

/-- A buffer that changed and kept its entries. -/
theorem Refines.sameLog (h : Refines ids sys v s) (hsettled : Settled ids v s')
    (hlog : s'.log.toList = s.log.toList) (hs' : s' = { s with log := s'.log }) :
    Refines ids sys v s' where
  settled := hsettled
  term_eq := by rw [hs']; exact h.term_eq
  role_eq := by rw [hs']; exact h.role_eq
  log_eq := by rw [hlog]; exact h.log_eq
  commit_eq := by rw [hs']; exact h.commit_eq
  voted := by rw [hs']; exact h.voted
  votes := by rw [hs']; exact h.votes
  matched := by rw [hlog, hs']; exact h.matched
  outs := by rw [hs']; exact h.outs
  applied_le := by rw [hs']; exact h.applied_le
  applied := by rw [hlog, hs']; exact h.applied

/-! ## Entries that conflict -/

/-- A server that is at odds with the leader of its term follows it. -/
theorem Refines.follower_of_conflict (hinv : Ok ids sys) (h : Refines ids sys v s)
    (hstate : s.state ≠ .candidate) {i : Nat} {ety ety' : Entry}
    (hety : s.log.toList[i]? = some ety) (hety' : (sys.chain s.currentTerm)[i]? = some ety')
    (hne : ety.term ≠ ety'.term) : s.state = .follower := by
  cases hs : s.state with
  | follower => rfl
  | candidate => exact absurd hs hstate
  | leader =>
    have hrole : sys.role v = .leader := by rw [h.role_eq, hs]; rfl
    have hchain := (hinv.node v).chain ((hinv.node v).leader hrole)
    rw [h.term_eq, h.log_eq] at hchain
    rw [hchain, hety, Option.some.injEq] at hety'
    exact absurd (congrArg Entry.term hety') hne

theorem Refines.commit_le_of_conflict (hinv : Ok ids sys) (h : Refines ids sys v s) {i : Nat}
    {ety ety' : Entry} (hety : s.log.toList[i]? = some ety)
    (hety' : (sys.chain s.currentTerm)[i]? = some ety') (hne : ety.term ≠ ety'.term) :
    s.commitIdx ≤ i := by
  rw [← h.commit_eq]
  refine hinv.commit_le_of_conflict ?_ ?_
    (fun heq : ety = ety' => hne (congrArg Entry.term heq))
  · rw [h.log_eq, hety]
  · rw [h.term_eq, hety']

theorem Refines.deleteEntryFromIdx (hinv : Ok ids sys) (h : Refines ids sys v s) (cb : Cbs)
    (hstate : s.state ≠ .candidate) {i : Nat} {ety ety' : Entry}
    (hety : s.log.toList[i]? = some ety) (hety' : (sys.chain s.currentTerm)[i]? = some ety')
    (hne : ety.term ≠ ety'.term) :
    ∃ e k s', s.deleteEntryFromIdx cb (i + 1) = some (e, s') ∧ Copies ids sys v s' ∧ i ≤ k ∧
      (e = 0 → k = i) ∧ s'.log.toList = s.log.toList.take k ∧
      ∃ cfg, s' = { s with log := s'.log, votingCfgChangeLogIdx := cfg } := by
  have hfollower := h.follower_of_conflict hinv hstate hety hety' hne
  have hcommit := h.commit_le_of_conflict hinv hety hety' hne
  have hlt := (List.getElem?_eq_some_iff.mp hety).1
  obtain ⟨e, k, s', hdelete, hik, hzero, htake, hsettled, cfg, hs'⟩ :=
    h.settled.deleteEntryFromIdx cb hcommit hlt
  refine ⟨e, k, s', hdelete, ?_, hik, hzero, htake, cfg, hs'⟩
  have hrole : sys.role v = .follower := by rw [h.role_eq, hfollower]; rfl
  have hstep : Step Entry.term (Quorums.majority ids) v sys _ :=
    .truncate (e := ety) hrole (by rw [h.log_eq, hety]) (by rw [h.term_eq, hety']) hne hik
  rw [h.log_eq, ← htake] at hstep
  refine ⟨_, .single hstep, h.relog hfollower hsettled hs' ?_, rfl⟩
  rw [htake]
  exact List.take_prefix_take_left (by omega)

/-! ## Copying -/

/-- One more entry of the leader. -/
theorem Refines.extend (h : Refines ids sys v s) (hstate : s.state = .follower) {ety : Entry}
    (hchain : s.log.toList ++ [ety] <+: sys.chain s.currentTerm) (hsettled : Settled ids v s')
    (hlog : s'.log.toList = s.log.toList ++ [ety]) (hs' : s' = { s with log := s'.log }) :
    Copies ids sys v s' := by
  have hrole : sys.role v = .follower := by rw [h.role_eq, hstate]; rfl
  have hstep : Step Entry.term (Quorums.majority ids) v sys _ :=
    .extend (e := ety) hrole (by rw [h.log_eq, h.term_eq]; exact hchain)
  rw [h.log_eq, ← hlog] at hstep
  refine ⟨_, .single hstep, h.relog hstate hsettled hs' ?_, rfl⟩
  rw [hlog]
  exact (List.take_prefix ..).trans (List.prefix_append ..)

/-- The server holds the first `idx` entries of the leader of its term, and `etys` come next
there. -/
structure Holds (sys : Protocol) (s : Server) (idx : Nat) (etys : List Entry) : Prop where
  le : idx ≤ (sys.chain s.currentTerm).length
  held : (sys.chain s.currentTerm).take idx <+: s.log.toList
  next : (sys.chain s.currentTerm).take idx ++ etys <+: sys.chain s.currentTerm

theorem Holds.cons {idx : Nat} {ety : Entry} {etys : List Entry}
    (h : Holds sys s idx (ety :: etys)) :
    (sys.chain s.currentTerm)[idx]? = some ety ∧ idx + 1 ≤ (sys.chain s.currentTerm).length ∧
      (sys.chain s.currentTerm).take (idx + 1) ++ etys <+: sys.chain s.currentTerm := by
  have hlen : ((sys.chain s.currentTerm).take idx).length = idx := by
    rw [List.length_take, Nat.min_eq_left h.le]
  have hget : (sys.chain s.currentTerm)[idx]? = some ety := by
    refine prefix_getElem? h.next ?_
    rw [List.getElem?_append_right (by omega), hlen, Nat.sub_self]
    rfl
  refine ⟨hget, (List.getElem?_eq_some_iff.mp hget).1, ?_⟩
  rw [List.take_add_one, hget, Option.toList_some, List.append_assoc]
  exact h.next

theorem Holds.congr {idx : Nat} {etys : List Entry} (h : Holds sys s idx etys)
    (hhist : sys'.toHist = sys.toHist) (hterm : s'.currentTerm = s.currentTerm)
    (hlog : s'.log.toList = s.log.toList) : Holds sys' s' idx etys := by
  have hchain : sys'.chain s'.currentTerm = sys.chain s.currentTerm := by
    rw [hterm]
    exact congrFun (congrArg Hist.chain hhist) s.currentTerm
  constructor
  · rw [hchain]
    exact h.le
  · rw [hchain, hlog]
    exact h.held
  · rw [hchain]
    exact h.next

theorem Holds.done {idx : Nat} {etys : List Entry} (h : Holds sys s idx etys) :
    Holds sys s idx [] where
  le := h.le
  held := h.held
  next := by
    rw [List.append_nil]
    exact List.take_prefix ..

/-- An entry of the term the leader has there: all entries up to it are the leader's. -/
theorem Refines.held_of_term (hinv : Ok ids sys) (h : Refines ids sys v s) {i : Nat}
    {ety ety' : Entry} (hety : s.log.toList[i]? = some ety)
    (hety' : (sys.chain s.currentTerm)[i]? = some ety') (hterm : ety.term = ety'.term) :
    (sys.chain s.currentTerm).take (i + 1) <+: s.log.toList := by
  have hgrounded := (hinv.node v).grounded
  rw [h.log_eq] at hgrounded
  rw [← History.matching hgrounded (hinv.hist.grounded_chain _) hety hety' hterm]
  exact List.take_prefix ..

theorem Refines.matchLoop (hinv : Ok ids sys) (h : Refines ids sys v s) (cb : Cbs)
    (hstate : s.state ≠ .candidate) {etys : List Entry} {idx : Nat} (hheld : Holds sys s idx etys) :
    ∃ e idx' rest s', s.matchLoop cb etys idx = some (e, idx', rest, s') ∧ Copies ids sys v s' ∧
      Holds sys s' idx' rest ∧ rest <:+ etys ∧
      (e = 0 → idx' + rest.length = idx + etys.length ∧
        (rest ≠ [] → s'.log.toList.length = idx')) ∧
      ∃ cfg, s' = { s with log := s'.log, votingCfgChangeLogIdx := cfg } := by
  induction etys generalizing idx with
  | nil =>
    exact ⟨0, idx, [], s, rfl, .refl h, hheld, List.suffix_rfl, fun _ => ⟨rfl, fun hne =>
      absurd rfl hne⟩, s.votingCfgChangeLogIdx, rfl⟩
  | cons ety etys ih =>
    obtain ⟨hget, hle, hnext⟩ := hheld.cons
    rw [Server.matchLoop, h.settled.getEntryFromIdx_succ]
    cases hexisting : s.log.toList[idx]? with
    | none =>
      -- the log ends here, so it is what the leader has up to here
      have hlen : s.log.toList.length = idx := by
        have hshort := hheld.held.length_le
        rw [List.length_take, Nat.min_eq_left hheld.le] at hshort
        exact Nat.le_antisymm (List.getElem?_eq_none_iff.mp hexisting) hshort
      exact ⟨0, idx, ety :: etys, s, rfl, .refl h, hheld, List.suffix_rfl,
        fun _ => ⟨rfl, fun _ => hlen⟩, s.votingCfgChangeLogIdx, rfl⟩
    | some existing =>
      dsimp only
      by_cases hterm : existing.term = ety.term
      · rw [if_neg (fun hne => hne hterm)]
        have hheld' : Holds sys s (idx + 1) etys :=
          ⟨hle, h.held_of_term hinv hexisting hget hterm, hnext⟩
        obtain ⟨e, idx', rest, s', hloop, hcopies, hholds, hsuffix, hzero, hcfg⟩ := ih hheld'
        refine ⟨e, idx', rest, s', hloop, hcopies, hholds, hsuffix.trans (List.suffix_cons ..),
          fun he => ?_, hcfg⟩
        obtain ⟨hsum, hrest⟩ := hzero he
        refine ⟨?_, hrest⟩
        rw [List.length_cons, hsum]
        omega
      · -- a conflict lies beyond what is committed, so the server does not shut down
        have hcommit := h.commit_le_of_conflict hinv hexisting hget hterm
        rw [if_pos hterm, if_neg (by omega)]
        obtain ⟨e, k, s', hdelete, hcopies, hik, hzero, htake, hcfg⟩ :=
          h.deleteEntryFromIdx hinv cb hstate hexisting hget hterm
        rw [hdelete, Option.map_some]
        have hterm' : s'.currentTerm = s.currentTerm := by
          obtain ⟨cfg, hs'⟩ := hcfg
          rw [hs']
        refine ⟨e, idx, ety :: etys, s', rfl, hcopies, ⟨?_, ?_, ?_⟩, List.suffix_rfl,
          fun he => ⟨rfl, fun _ => ?_⟩, hcfg⟩
        · rw [hterm']
          exact hheld.le
        · rw [hterm', htake]
          refine List.prefix_take_iff.mpr ⟨hheld.held, ?_⟩
          rw [List.length_take]
          omega
        · rw [hterm']
          exact hheld.next
        · have hlt := (List.getElem?_eq_some_iff.mp hexisting).1
          rw [htake, hzero he, List.length_take]
          omega

theorem Refines.appendLoop (hinv : Ok ids sys) (h : Refines ids sys v s) (cb : Cbs)
    (hstate : s.state ≠ .candidate) {etys : List Entry} {idx : Nat} (hheld : Holds sys s idx etys)
    (hend : etys ≠ [] → s.log.toList.length = idx)
    (hplain : ∀ ety ∈ etys, ety.isCfgChange = false) :
    ∃ e idx' s', s.appendLoop cb etys idx = some (e, idx', s') ∧ Copies ids sys v s' ∧
      Holds sys s' idx' [] ∧ (e = 0 → idx' = idx + etys.length) ∧
      s' = { s with log := s'.log } := by
  induction etys generalizing sys s idx with
  | nil => exact ⟨0, idx, s, rfl, .refl h, hheld, fun _ => rfl, rfl⟩
  | cons ety etys ih =>
    obtain ⟨hget, hle, hnext⟩ := hheld.cons
    have hlen := hend (List.cons_ne_nil ety etys)
    -- while entries are left, the log ends where the copied part ends
    have hlog : s.log.toList = (sys.chain s.currentTerm).take idx := by
      refine (hheld.held.eq_of_length ?_).symm
      rw [List.length_take, Nat.min_eq_left hheld.le, hlen]
    have hfollower : s.state = .follower := by
      cases hs : s.state with
      | follower => rfl
      | candidate => exact absurd hs hstate
      | leader =>
        -- the log of a leader has no next entry
        have hrole : sys.role v = .leader := by rw [h.role_eq, hs]; rfl
        have hchain := (hinv.node v).chain ((hinv.node v).leader hrole)
        rw [h.term_eq, h.log_eq] at hchain
        rw [hchain, hlen] at hle
        omega
    have hlong : s.log.toList ++ [ety] = (sys.chain s.currentTerm).take (idx + 1) := by
      rw [hlog, List.take_add_one, hget, Option.toList_some]
    obtain ⟨e, s₁, happend, hlist, hsettled, hs₁⟩ :=
      h.settled.appendEntry cb (hplain ety (List.mem_cons_self ..))
    have hterm₁ : s₁.currentTerm = s.currentTerm := by rw [hs₁]
    rw [Server.appendLoop, happend]
    simp only [Option.bind_eq_bind, Option.bind_some]
    obtain ⟨rfl, hlog₁⟩ | ⟨he, hlog₁⟩ := hlist
    · rw [if_neg (fun hne => hne rfl)]
      have hcopies₁ : Copies ids sys v s₁ := by
        refine h.extend hfollower ?_ hsettled hlog₁ hs₁
        rw [hlong]
        exact List.take_prefix ..
      obtain ⟨sys₁, hmoves₁, href₁, hhist₁⟩ := hcopies₁
      have hchain₁ : sys₁.chain = sys.chain := congrArg Hist.chain hhist₁
      have hheld₁ : Holds sys₁ s₁ (idx + 1) etys := by
        refine ⟨?_, ?_, ?_⟩
        · rw [hchain₁, hterm₁]
          exact hle
        · rw [hchain₁, hterm₁, hlog₁, hlong]
        · rw [hchain₁, hterm₁]
          exact hnext
      have hend₁ : etys ≠ [] → s₁.log.toList.length = idx + 1 := by
        intro _
        rw [hlog₁, List.length_append, hlen, List.length_singleton]
      obtain ⟨e, idx', s', hloop, hcopies, hholds, hzero, hs'⟩ :=
        ih (hinv.moves hmoves₁) href₁ (by rw [hs₁]; exact hstate) hheld₁ hend₁
          (fun x hx => hplain x (List.mem_cons_of_mem _ hx))
      refine ⟨e, idx', s', hloop, ?_, hholds.congr hhist₁.symm rfl rfl, fun he => ?_, ?_⟩
      · obtain ⟨sys', hmoves, href, hhist⟩ := hcopies
        exact ⟨sys', hmoves₁.trans hmoves, href, hhist.trans hhist₁⟩
      · rw [hzero he, List.length_cons]
        omega
      · rw [hs', hs₁]
    · rw [if_pos he]
      exact ⟨e, idx, s₁, rfl, .refl (h.sameLog hsettled hlog₁ hs₁),
        (hheld.congr rfl hterm₁ hlog₁).done, fun h0 => absurd h0 he, hs₁⟩

/-! ## The entries of a leader -/

/-- The commit index of the leader is one the follower may take over, for it holds all that the
message was about. -/
theorem Refines.followCommit (hinv : Ok ids sys) (h : Refines ids sys v s) {ae : AppendEntries}
    (hae : AeOk sys.toHist w ae) (hterm : ae.term = s.currentTerm) {idx : Nat}
    (hheld : Holds sys s idx []) (hidx : ae.leaderCommit ≤ idx) :
    ∃ s', s.followCommit ae.leaderCommit = some s' ∧ Copies ids sys v s' ∧
      s' = { s with commitIdx := s'.commitIdx } := by
  unfold Server.followCommit
  split
  · next hlt =>
    have hlen := hheld.held.length_le
    rw [List.length_take, Nat.min_eq_left hheld.le] at hlen
    have hmin : min (max s.currentIdx 1) ae.leaderCommit = ae.leaderCommit := by
      rw [h.settled.currentIdx_eq]
      omega
    have hbounds : s.commitIdx ≤ ae.leaderCommit ∧ ae.leaderCommit ≤ s.currentIdx := by
      rw [h.settled.currentIdx_eq]
      omega
    rw [hmin, Server.setCommitIdx, if_pos hbounds]
    refine ⟨_, rfl, ?_, rfl⟩
    obtain hzero | ⟨T, i, hi, hT, hle, hpre⟩ := hae.commit
    · omega
    have hlog : (sys.chain T).take ae.leaderCommit <+: sys.log v := by
      -- as long as the prefix the leader names, its log and the follower's are the same
      rw [hterm] at hpre
      have hlenT : ((sys.chain T).take ae.leaderCommit).length = ae.leaderCommit := by
        rw [List.length_take, Nat.min_eq_left (hle.trans (hinv.hist.committed_le hi))]
      have heq := List.prefix_iff_eq_take.mp hpre
      rw [hlenT] at heq
      rw [heq, h.log_eq]
      exact (List.take_prefix_take_left hidx).trans hheld.held
    have hstep : Step Entry.term (Quorums.majority ids) v sys _ :=
      .learn hi (by rw [h.term_eq, ← hterm]; exact hT) hle hlog
    refine ⟨_, .single hstep, ?_, rfl⟩
    have happlied := h.applied_le
    exact { h with
      settled := { h.settled with ids_eq := h.settled.ids_eq, node := h.settled.node }
      commit_eq := Function.update_self ..
      applied_le := by show s.lastAppliedIdx ≤ ae.leaderCommit; omega }
  · exact ⟨s, rfl, .refl h, rfl⟩

theorem Refines.storeEntries (hinv : Ok ids sys) (h : Refines ids sys v s) (cb : Cbs)
    (hstate : s.state ≠ .candidate) {ae : AppendEntries} (hae : AeOk sys.toHist w ae)
    (hterm : ae.term = s.currentTerm) (hheld : Holds sys s ae.prevLogIdx ae.entries) :
    ∃ e idx s', s.storeEntries cb ae = some (e, idx, s') ∧ Copies ids sys v s' ∧
      Holds sys s' idx [] ∧ s'.currentTerm = s.currentTerm := by
  obtain ⟨e, idx, rest, s₁, hmatch, ⟨sys₁, hmoves₁, href₁, hhist₁⟩, hheld₁, hsuffix, hzero, cfg,
    hs₁⟩ := h.matchLoop hinv cb hstate hheld
  have hinv₁ := hinv.moves hmoves₁
  have hterm₁ : s₁.currentTerm = s.currentTerm := by rw [hs₁]
  unfold Server.storeEntries
  simp only [hmatch, Option.bind_eq_bind, Option.bind_some]
  by_cases he : e = 0
  · rw [if_neg (fun hne => hne he)]
    obtain ⟨hsum, hend⟩ := hzero he
    have hplain : ∀ ety ∈ rest, ety.isCfgChange = false :=
      fun ety hety => hae.plain ety (hsuffix.subset hety)
    obtain ⟨e', idx', s₂, happend, ⟨sys₂, hmoves₂, href₂, hhist₂⟩, hheld₂, hzero₂, hs₂⟩ :=
      href₁.appendLoop hinv₁ cb (by rw [hs₁]; exact hstate) (hheld₁.congr hhist₁ rfl rfl) hend
        hplain
    have hinv₂ := hinv₁.moves hmoves₂
    have hterm₂ : s₂.currentTerm = s.currentTerm := by rw [hs₂]; exact hterm₁
    have hheld₂' : Holds sys s₂ idx' [] := hheld₂.congr hhist₁.symm rfl rfl
    simp only [happend, Option.bind_some]
    by_cases he' : e' = 0
    · rw [if_neg (fun hne => hne he')]
      have hae₂ : AeOk sys₂.toHist w ae := by rw [hhist₂, hhist₁]; exact hae
      have hheld₃ : Holds sys₂ s₂ idx' [] := hheld₂.congr hhist₂ rfl rfl
      have hidx : ae.leaderCommit ≤ idx' := by
        have hle := hae.commit_le
        rw [hzero₂ he', hsum]
        exact hle
      obtain ⟨s₃, hfollow, ⟨sys₃, hmoves₃, href₃, hhist₃⟩, hs₃⟩ :=
        href₂.followCommit hinv₂ hae₂ (by rw [hterm₂]; exact hterm) hheld₃ hidx
      simp only [hfollow, Option.bind_some]
      have hterm₃ : s₃.currentTerm = s₂.currentTerm := by rw [hs₃]
      have hlog₃ : s₃.log = s₂.log := by rw [hs₃]
      exact ⟨0, idx', s₃, rfl,
        ⟨sys₃, (hmoves₁.trans hmoves₂).trans hmoves₃, href₃, (hhist₃.trans hhist₂).trans hhist₁⟩,
        hheld₂'.congr rfl hterm₃ (congrArg Log.toList hlog₃), hterm₃.trans hterm₂⟩
    · rw [if_pos he']
      exact ⟨e', idx', s₂, rfl, ⟨sys₂, hmoves₁.trans hmoves₂, href₂, hhist₂.trans hhist₁⟩, hheld₂',
        hterm₂⟩
  · rw [if_pos he]
    exact ⟨e, idx, s₁, rfl, ⟨sys₁, hmoves₁, href₁, hhist₁⟩, hheld₁.done, hterm₁⟩

theorem Refines.checkPrev (hinv : Ok ids sys) (h : Refines ids sys v s) (cb : Cbs)
    (hstate : s.state ≠ .candidate) {ae : AppendEntries} (hae : AeOk sys.toHist w ae)
    (hterm : ae.term = s.currentTerm) :
    ∃ e go s', s.checkPrev cb ae = some (e, go, s') ∧ Copies ids sys v s' ∧
      (go = true → s' = s ∧ Holds sys s ae.prevLogIdx ae.entries) := by
  obtain ⟨p, hp, hslice⟩ := hae.slice
  rw [hterm] at hslice
  have hpre : p <+: sys.chain s.currentTerm := (List.prefix_append ..).trans hslice
  have hle : ae.prevLogIdx ≤ (sys.chain s.currentTerm).length := hp ▸ hpre.length_le
  have htake : (sys.chain s.currentTerm).take ae.prevLogIdx = p := by
    rw [← hp]
    exact (List.prefix_iff_eq_take.mp hpre).symm
  have hnext : (sys.chain s.currentTerm).take ae.prevLogIdx ++ ae.entries
      <+: sys.chain s.currentTerm := htake.symm ▸ hslice
  unfold Server.checkPrev
  cases hprev : ae.prevLogIdx with
  | zero =>
    rw [if_neg (by omega)]
    rw [hprev] at hle hnext
    exact ⟨0, true, s, rfl, .refl h, fun _ => ⟨rfl, hle, List.nil_prefix, hnext⟩⟩
  | succ i =>
    obtain ⟨ety', hety', hterm'⟩ := hae.prev i hprev
    rw [hterm] at hety'
    -- no snapshots here, so the entry itself is looked at
    rw [if_pos (Nat.succ_pos i), if_neg (by rw [h.settled.snapshot]; omega),
      h.settled.getEntryFromIdx_succ]
    cases hety : s.log.toList[i]? with
    | none => exact ⟨0, false, s, rfl, .refl h, nofun⟩
    | some ety =>
      dsimp only
      rw [hterm']
      by_cases hsame : ety.term = ety'.term
      · rw [if_neg (fun hne => hne hsame)]
        rw [hprev] at hle hnext
        exact ⟨0, true, s, rfl, .refl h,
          fun _ => ⟨rfl, hle, h.held_of_term hinv hety hety' hsame, hnext⟩⟩
      · have hcommit := h.commit_le_of_conflict hinv hety hety' hsame
        rw [if_pos hsame, if_neg (by omega)]
        obtain ⟨e, k, s', hdelete, hcopies, -⟩ :=
          h.deleteEntryFromIdx hinv cb hstate hety hety' hsame
        rw [hdelete, Option.map_some]
        exact ⟨e, false, s', rfl, hcopies, nofun⟩

theorem Refines.acceptTerm (hinv : Ok ids sys) (h : Refines ids sys v s) (cb : Cbs)
    (ae : AppendEntries) :
    ∃ e go s', s.acceptTerm cb ae = (e, go, s') ∧ Sim ids sys v s' ∧
      (go = true → s'.currentTerm = ae.term ∧ s'.state ≠ .candidate) := by
  unfold Server.acceptTerm
  split
  · next hcandidate =>
    exact ⟨0, true, _, rfl, h.yield cb hcandidate.1, fun _ => ⟨hcandidate.2, nofun⟩⟩
  · next hcandidate =>
    split
    · next hlt =>
      obtain ⟨e, he, hset⟩ | hset := Server.setCurrentTerm_cases cb hlt
      · rw [hset]
        dsimp only
        rw [if_pos he]
        exact ⟨e, false, s, rfl, .refl h, nofun⟩
      · rw [hset]
        dsimp only
        rw [if_neg (fun hne => hne rfl)]
        exact ⟨0, true, _, rfl, h.stepDown hinv cb hlt, fun _ => ⟨rfl, nofun⟩⟩
    · split
      · exact ⟨0, false, s, rfl, .refl h, nofun⟩
      · have hsame : s.currentTerm = ae.term := by omega
        exact ⟨0, true, s, rfl, .refl h, fun _ => ⟨hsame, fun hs => hcandidate ⟨hs, hsame⟩⟩⟩

/-- A follower acknowledges what it holds of its leader. -/
theorem Refines.acknowledge (hinv : Ok ids sys) (h : Refines ids sys v s) {idx : Nat}
    (hheld : Holds sys s idx []) :
    ∃ sys', Moves Entry.term (Quorums.majority ids) v sys sys' ∧ Refines ids sys' v s ∧
      (s.currentTerm, v, idx) ∈ sys'.acks := by
  have hstep : Step Entry.term (Quorums.majority ids) v sys _ :=
    .ack (m := idx) (by rw [h.term_eq]; exact hheld.le)
      (by rw [h.term_eq, h.log_eq]; exact hheld.held)
  have hg := hstep.grow hinv
  refine ⟨_, .single hstep, ?_, ?_⟩
  · exact { h with
      outs := fun o ho => (h.outs o ho).grow hinv.hist hg
      matched := fun hs n hn hne => by
        obtain ⟨hmatch, hnext⟩ := h.matched hs n hn hne
        exact ⟨hmatch.imp_right fun hack => hg.acks hack, hnext⟩ }
  · show _ ∈ insert (sys.term v, v, idx) sys.acks
    rw [h.term_eq]
    exact Set.mem_insert ..

theorem Refines.recvAppendentries (hinv : Ok ids sys) (h : Refines ids sys v s) (cb : Cbs)
    {src : NodeId} {ae : AppendEntries} (hae : AeOk sys.toHist src ae) :
    ∃ e r s', s.recvAppendentries cb (some src) ae = some (e, r, s') ∧
      ∃ sys', Moves Entry.term (Quorums.majority ids) v sys sys' ∧ Refines ids sys' v s' ∧
        AppendReplyOk sys'.toHist v r := by
  obtain ⟨e, go, s₁, haccept, ⟨sys₁, hmoves₁, href₁⟩, hgo⟩ := h.acceptTerm hinv cb ae
  have hinv₁ := hinv.moves hmoves₁
  unfold Server.recvAppendentries
  rw [haccept]
  dsimp only
  cases go with
  | false => exact ⟨e, _, s₁, rfl, sys₁, hmoves₁, href₁, nofun⟩
  | true =>
    obtain ⟨hterm₁, hstate₁⟩ := hgo rfl
    have hae₁ := hae.grow hinv.hist (Moves.grow hinv hmoves₁)
    have hquiet := href₁.quiet 0 s₁.electionTimeoutRand (some src)
    obtain ⟨e₂, go₂, s₂, hcheck, ⟨sys₂, hmoves₂, href₂, hhist₂⟩, hgo₂⟩ :=
      hquiet.checkPrev hinv₁ cb hstate₁ hae₁ hterm₁.symm
    simp only [Bool.not_true, Bool.false_eq_true, if_false, hcheck, Option.bind_eq_bind,
      Option.bind_some]
    cases go₂ with
    | false => exact ⟨e₂, _, s₂, rfl, sys₂, hmoves₁.trans hmoves₂, href₂, nofun⟩
    | true =>
      obtain ⟨rfl, hheld⟩ := hgo₂ rfl
      obtain ⟨e₃, idx, s₃, hstore, ⟨sys₃, hmoves₃, href₃, hhist₃⟩, hheld₃, hterm₃⟩ :=
        hquiet.storeEntries hinv₁ cb hstate₁ hae₁ hterm₁.symm hheld
      -- what the answer will say is put on record before it is sent
      obtain ⟨sys₄, hmoves₄, href₄, hack⟩ :=
        href₃.acknowledge (hinv₁.moves hmoves₃) (hheld₃.congr hhist₃ rfl rfl)
      simp only [Bool.not_true, Bool.false_eq_true, if_false, hstore, Option.bind_some]
      exact ⟨e₃, _, s₃, rfl, sys₄, (hmoves₁.trans hmoves₃).trans hmoves₄, href₄, fun _ => hack⟩

/-! ## The answers of the followers -/

/-- A change to one node of a leader that keeps what is known of it. -/
theorem Refines.noteNode (h : Refines ids sys v s) {id : NodeId} {f : Node → Node}
    (hid : ∀ n, (f n).id = n.id) (hcounts : ∀ n, (f n).counts = n.counts)
    (hnext : ∀ n, 0 < n.nextIdx → 0 < (f n).nextIdx) (hvotes : ∀ n, (f n).votedForMe = n.votedForMe)
    (hmatched : s.state = .leader → ∀ n ∈ s.members.nodes, n.id = id → id ≠ v →
      ((f n).matchIdx = 0 ∨ (s.currentTerm, id, (f n).matchIdx) ∈ sys.acks)
        ∧ (f n).nextIdx ≤ s.log.toList.length + 1) :
    Refines ids sys v { s with members := s.members.modify id f } := by
  refine { h with
    settled := h.settled.modify id hid hcounts hnext
    votes := fun hs n hn hne hflag => ?_
    matched := fun hs n hn hne => ?_ }
  · obtain ⟨n₀, hn₀, rfl⟩ := Settled.mem_modify hn
    by_cases hsrc : n₀.id = id
    · rw [if_pos hsrc] at hne hflag ⊢
      rw [hid] at hne ⊢
      rw [hvotes] at hflag
      exact h.votes hs n₀ hn₀ hne hflag
    · rw [if_neg hsrc] at hne hflag ⊢
      exact h.votes hs n₀ hn₀ hne hflag
  · obtain ⟨n₀, hn₀, rfl⟩ := Settled.mem_modify hn
    by_cases hsrc : n₀.id = id
    · rw [if_pos hsrc] at hne ⊢
      rw [hid] at hne ⊢
      rw [hsrc] at hne ⊢
      exact hmatched hs n₀ hn₀ hsrc hne
    · rw [if_neg hsrc] at hne ⊢
      exact h.matched hs n₀ hn₀ hne

/-- What a leader sends to a node. -/
theorem Refines.sendAppendentries (hinv : Ok ids sys) (h : Refines ids sys v s) (cb : Cbs)
    (hstate : s.state = .leader) {id : NodeId} (hid : id ∈ ids) (hne : id ≠ v) :
    ∃ e s', s.sendAppendentries cb id = some (e, s') ∧ Refines ids sys v s' := by
  obtain ⟨n, hn, hnid, e, s', hsend, hs'⟩ := h.settled.sendAppendentries cb hid hne
  refine ⟨e, s', hsend, ?_⟩
  obtain rfl | rfl := hs'
  · exact h
  · have hout : Settled.AeOut v s (.appendentries id (Settled.aeFrom s n.nextIdx)) :=
      ⟨n, hn, by rwa [hnid], by rw [hnid]⟩
    exact h.emitted (Settled.Emitted.cons hout (Settled.Emitted.refl ..))
      (fun o ho => h.aeOut hinv hstate ho) (fun ety idx => Settled.AeOut.not_applylog)

theorem Refines.backUp (hinv : Ok ids sys) (h : Refines ids sys v s) (cb : Cbs)
    (hstate : s.state = .leader) {id : NodeId} (hid : id ∈ ids) (hne : id ≠ v) {node : Node}
    (hnode : node ∈ s.members.nodes) (hnid : node.id = id) (r : AppendEntriesResponse) :
    ∃ e s', s.backUp cb id node r = some (e, s') ∧ Refines ids sys v s' := by
  have hpos := h.settled.next node hnode
  have hlen := h.settled.currentIdx_eq
  obtain ⟨-, hbound⟩ := h.matched hstate node hnode (by rwa [hnid])
  unfold Server.backUp
  rw [if_neg (by omega)]
  split
  · exact ⟨0, s, rfl, h⟩
  · dsimp only
    obtain ⟨k, hk⟩ : ∃ k, (if r.currentIdx < node.nextIdx - 1
        then min (r.currentIdx + 1) s.currentIdx else node.nextIdx - 1) = k := ⟨_, rfl⟩
    have hkle : k ≤ s.log.toList.length + 1 := by
      rw [← hk]
      split <;> omega
    rw [hk]
    have h' : Refines ids sys v { s with members := s.members.modify id (Node.setNextIdx k) } := by
      refine h.noteNode (fun _ => rfl) (fun _ => rfl) (fun n _ => ?_) (fun _ => rfl)
        (fun hs n hn hnid' _ => ⟨?_, ?_⟩)
      · show 0 < if k < 1 then 1 else k
        split <;> omega
      · have hmatch := (h.matched hs n hn (by rwa [hnid'])).1
        rw [hnid'] at hmatch
        exact hmatch
      · show (if k < 1 then 1 else k) ≤ _
        split <;> omega
    obtain ⟨e, s', hsend, href⟩ := h'.sendAppendentries hinv cb hstate hid hne
    rw [hsend]
    exact ⟨0, s', rfl, href⟩

/-- The leader holds its own log. -/
theorem Refines.holds_own (hinv : Ok ids sys) (h : Refines ids sys v s)
    (hstate : s.state = .leader) : Holds sys s s.log.toList.length [] := by
  have hrole : sys.role v = .leader := by rw [h.role_eq, hstate]; rfl
  have hchain := (hinv.node v).chain ((hinv.node v).leader hrole)
  rw [h.term_eq, h.log_eq] at hchain
  refine ⟨?_, ?_, ?_⟩
  · rw [hchain]
  · rw [hchain, List.take_length]
  · rw [hchain, List.take_length, List.append_nil]

/-- The followers a leader counts acknowledged the entry, and so can the leader. -/
theorem Refines.holders_quorum (h : Refines ids sys v s) (hv : v ∈ ids)
    (hstate : s.state = .leader) {point : Nat} (hpoint : 0 < point)
    (hown : v ∈ sys.holders s.currentTerm point)
    (hmajority : s.members.numVotingNodes / 2 < s.replicated point) :
    (Quorums.majority ids).IsQuorum (sys.holders s.currentTerm point) := by
  have hmap : s.members.nodes.map Node.id = ids := h.settled.ids_eq
  rw [h.settled.numVotingNodes] at hmajority
  have hcongr : s.replicated point
      = s.members.nodes.countP
          (fun n => decide (n.id ≠ v) && (n.counts && decide (point ≤ n.matchIdx)))
        + true.toNat := by
    unfold Server.replicated
    rw [Nat.add_comm]
    congr 1
    refine List.countP_congr fun n _ => ?_
    simp only [h.settled.node, ne_eq, Option.some.injEq, Bool.and_assoc, eq_comm (a := v)]
  have hothers := countP_others_le (A := sys.holders s.currentTerm point)
    (f := fun n => n.counts && decide (point ≤ n.matchIdx)) (hmap ▸ hv)
    (fun n hn hne hf => by
      have hle := of_decide_eq_true (Bool.and_eq_true_iff.mp hf).2
      obtain hzero | hack := (h.matched hstate n hn hne).1
      · omega
      · exact ⟨n.matchIdx, hle, hack⟩)
    true (fun _ => hown)
  rw [hmap] at hothers
  show ids.length / 2 < _
  omega

theorem Refines.advanceCommit (hinv : Ok ids sys) (h : Refines ids sys v s) (hv : v ∈ ids)
    (hstate : s.state = .leader) {point : Nat} (hle : point ≤ s.log.toList.length) :
    ∃ s', s.advanceCommit point = some s' ∧ Sim ids sys v s' ∧
      s' = { s with commitIdx := s'.commitIdx } := by
  unfold Server.advanceCommit
  split
  · next hpoint =>
    obtain ⟨i, rfl⟩ : ∃ i, point = i + 1 := ⟨point - 1, by omega⟩
    have hlt : i < s.log.toList.length := by omega
    have hget := h.settled.getEntryFromIdx_succ i
    rw [List.getElem?_eq_getElem hlt] at hget
    simp only [hget, Option.bind_eq_bind, Option.bind_some]
    split
    · next hmajority =>
      have hidx : i + 1 ≤ s.currentIdx := by rw [h.settled.currentIdx_eq]; exact hle
      rw [Server.setCommitIdx, if_pos ⟨Nat.le_of_lt hpoint.2, hidx⟩]
      refine ⟨_, rfl, ?_, rfl⟩
      -- the source counts the leader without an answer of its own: it could have given one
      obtain ⟨sys₁, hmoves₁, href₁, hack⟩ := h.acknowledge hinv (h.holds_own hinv hstate)
      have hinv₁ := hinv.moves hmoves₁
      have hquorum := href₁.holders_quorum hv hstate (Nat.succ_pos i) ⟨_, hle, hack⟩ hmajority.2
      have hrole : sys₁.role v = .leader := by rw [href₁.role_eq, hstate]; rfl
      have hstep : Step Entry.term (Quorums.majority ids) v sys₁ _ :=
        .commit (i := i) (e := s.log.toList[i]) hrole
          (by rw [href₁.log_eq, List.getElem?_eq_getElem hlt])
          (by rw [href₁.term_eq]; exact hmajority.1) (by rw [href₁.term_eq]; exact hquorum)
      have hg := hstep.grow hinv₁
      refine ⟨_, hmoves₁.tail hstep, ?_⟩
      have happlied := h.applied_le
      exact { href₁ with
        settled := { href₁.settled with ids_eq := href₁.settled.ids_eq, node := href₁.settled.node }
        commit_eq := Function.update_self ..
        outs := fun o ho => (href₁.outs o ho).grow hinv₁.hist hg
        applied_le := by show s.lastAppliedIdx ≤ i + 1; omega }
    · exact ⟨s, rfl, .refl h, rfl⟩
  · exact ⟨s, rfl, .refl h, rfl⟩

theorem Refines.recvAppendentriesResponse (hinv : Ok ids sys) (h : Refines ids sys v s)
    (hv : v ∈ ids) (cb : Cbs) {src : NodeId} (hsrc : src ∈ ids) (hne : src ≠ v)
    {r : AppendEntriesResponse} (hreply : AppendReplyOk sys.toHist src r) :
    ∃ e s', s.recvAppendentriesResponse cb (some src) r = some (e, s') ∧ Sim ids sys v s' := by
  unfold Server.recvAppendentriesResponse
  dsimp only
  split
  · exact ⟨_, s, rfl, .refl h⟩
  · next hleader =>
    have hstate : s.state = .leader := not_not.mp hleader
    split
    · next hlt =>
      obtain ⟨e, he, hset⟩ | hset := Server.setCurrentTerm_cases cb hlt
      · rw [hset]
        dsimp only
        rw [if_pos he]
        exact ⟨e, s, rfl, .refl h⟩
      · rw [hset]
        dsimp only
        rw [if_neg (fun hne => hne rfl)]
        obtain ⟨sys', hmoves, href⟩ := h.stepDown hinv cb hlt
        exact ⟨0, _, rfl, sys', hmoves, href.quiet _ _ none⟩
    · split
      · exact ⟨0, s, rfl, .refl h⟩
      · next hterm =>
        have hsame : s.currentTerm = r.term := not_not.mp hterm
        obtain ⟨node, hnode, hnid, hget⟩ := h.settled.getNode hsrc
        have hvoting : node.voting = true := by
          have hcounts := h.settled.counts node hnode
          simp only [Node.counts, Bool.and_eq_true] at hcounts
          exact hcounts.2
        -- every node votes, so there is none to propose
        have hnote : s.noteSufficientLogs cb src node r = s := by
          unfold Server.noteSufficientLogs
          cases cb.nodeHasSufficientLogs with
          | none => rfl
          | some f => simp [hvoting]
        simp only [hget, Option.bind_eq_bind, Option.bind_some, hnote]
        cases hsuccess : r.success with
        | false =>
          simp only [Bool.not_false, if_true]
          obtain ⟨e, s', hback, href⟩ := h.backUp hinv cb hstate hsrc hne hnode hnid r
          exact ⟨e, s', hback, .refl href⟩
        | true =>
          have hack := hreply hsuccess
          rw [← hsame] at hack
          -- `assert (r->current_idx <= raft_get_current_idx (me_))`
          have hbound : r.currentIdx ≤ s.log.toList.length := by
            have hrole : sys.role v = .leader := by rw [h.role_eq, hstate]; rfl
            have hchain := (hinv.node v).chain ((hinv.node v).leader hrole)
            have hle := hinv.hist.ack_le _ _ _ hack
            rw [h.term_eq, h.log_eq] at hchain
            rwa [hchain] at hle
          simp only [Bool.not_true, Bool.false_eq_true, if_false]
          split
          · exact ⟨0, s, rfl, .refl h⟩
          · rw [if_neg (by rw [h.settled.currentIdx_eq]; omega)]
            have h₁ : Refines ids sys v { s with
                members := s.members.modify src fun n =>
                  (n.setNextIdx (r.currentIdx + 1)).setMatchIdx r.currentIdx } := by
              refine h.noteNode (fun _ => rfl) (fun _ => rfl) (fun n _ => ?_) (fun _ => rfl)
                (fun _ n _ _ _ => ⟨Or.inr hack, ?_⟩)
              · show 0 < if r.currentIdx + 1 < 1 then 1 else r.currentIdx + 1
                split <;> omega
              · show (if r.currentIdx + 1 < 1 then 1 else r.currentIdx + 1) ≤ _
                split <;> omega
            obtain ⟨s₂, hadvance, ⟨sys₂, hmoves₂, href₂⟩, hs₂⟩ :=
              h₁.advanceCommit hinv hv hstate hbound
            simp only [hadvance, Option.bind_some]
            split
            · obtain ⟨e, s', hsend, href⟩ := href₂.sendAppendentries (hinv.moves hmoves₂) cb
                (by rw [hs₂]; exact hstate) hsrc hne
              rw [hsend]
              exact ⟨0, s', rfl, sys₂, hmoves₂, href⟩
            · exact ⟨0, s₂, rfl, sys₂, hmoves₂, href₂⟩

/-! ## Requests of clients -/

theorem Refines.append (hinv : Ok ids sys) (h : Refines ids sys v s) (hstate : s.state = .leader)
    {ety : Entry} (hety : ety.term = s.currentTerm) (hsettled : Settled ids v s')
    (hlog : s'.log.toList = s.log.toList ++ [ety]) (hs' : s' = { s with log := s'.log }) :
    Sim ids sys v s' := by
  have hrole : sys.role v = .leader := by rw [h.role_eq, hstate]; rfl
  have hstep := Step.append (Q := Quorums.majority ids) hrole (hety.trans h.term_eq.symm)
  have hg := hstep.grow hinv
  refine ⟨_, .single hstep, ?_⟩
  exact
    { settled := hsettled
      term_eq := by rw [hs']; exact h.term_eq
      role_eq := by rw [hs']; exact h.role_eq
      log_eq := by
        show Function.update sys.log v _ v = _
        rw [Function.update_self, hlog, h.log_eq]
      commit_eq := by rw [hs']; exact h.commit_eq
      voted := by rw [hs']; exact h.voted
      votes := by rw [hs']; exact h.votes
      matched := fun _ n hn hne => by
        rw [hs'] at hn
        obtain ⟨hmatch, hnext⟩ := h.matched hstate n hn hne
        rw [hlog, List.length_append]
        rw [hs']
        exact ⟨hmatch, by omega⟩
      outs := by
        rw [hs']
        exact fun o ho => (h.outs o ho).grow hinv.hist hg
      applied_le := by rw [hs']; exact h.applied_le
      applied := fun x idx hx => by
        rw [hs'] at hx
        obtain ⟨hpos, hle, hget⟩ := h.applied x idx hx
        rw [hlog, hs']
        exact ⟨hpos, hle, prefix_getElem? (List.prefix_append ..) hget⟩ }

theorem Refines.recvEntry (hinv : Ok ids sys) (h : Refines ids sys v s) (hids : 2 ≤ ids.length)
    (cb : Cbs) {ety : Entry} (hplain : ety.isCfgChange = false) :
    ∃ e r s', s.recvEntry cb ety = some (e, r, s') ∧ Sim ids sys v s' := by
  have hvoting := isVotingCfgChange_of_plain hplain
  unfold Server.recvEntry
  rw [if_neg (by simp [hvoting]), if_neg (by simp [hvoting])]
  split
  · exact ⟨_, none, s, rfl, .refl h⟩
  · next hleader =>
    have hstate : s.state = .leader := not_not.mp hleader
    have hplain₁ : ({ ety with term := s.currentTerm } : Entry).isCfgChange = false := hplain
    obtain ⟨e, s₁, happend, hlist, hsettled₁, hs₁⟩ := h.settled.appendEntry cb hplain₁
    simp only [happend, Option.bind_eq_bind, Option.bind_some]
    obtain ⟨rfl, hlog₁⟩ | ⟨he, hlog₁⟩ := hlist
    · rw [if_neg (fun hne => hne rfl)]
      obtain ⟨sys₁, hmoves₁, href₁⟩ := h.append hinv hstate rfl hsettled₁ hlog₁ hs₁
      have hstate₁ : s₁.state = .leader := by rw [hs₁]; exact hstate
      obtain ⟨s₂, hloop, hemit⟩ := hsettled₁.recvEntryLoop cb
        (fun id (hid : id ∈ s₁.nodeIds) => hsettled₁.ids_eq ▸ hid)
      have href₂ : Refines ids sys₁ v s₂ := href₁.emitted hemit
        (fun o ho => href₁.aeOut (hinv.moves hmoves₁) hstate₁ ho)
        (fun _ _ => Settled.AeOut.not_applylog)
      simp only [hloop, Option.bind_some]
      -- with two nodes or more nothing is committed yet
      rw [if_neg (by rw [href₂.settled.numVotingNodes]; omega)]
      have hkeep : (if ({ ety with term := s.currentTerm } : Entry).isVotingCfgChange = true
          then some s₂.currentIdx else s₂.votingCfgChangeLogIdx) = s₂.votingCfgChangeLogIdx :=
        if_neg fun hcfg => Bool.false_ne_true (hvoting.symm.trans hcfg)
      rw [hkeep]
      exact ⟨0, _, s₂, rfl, sys₁, hmoves₁, href₂⟩
    · rw [if_pos he]
      exact ⟨e, none, s₁, rfl, .refl (h.sameLog hsettled₁ hlog₁ hs₁)⟩

/-! ## The clock -/

theorem Refines.applyAll (hinv : Ok ids sys) (h : Refines ids sys v s) (cb : Cbs) :
    ∃ e s', s.applyAll cb = some (e, s') ∧ Refines ids sys v s' := by
  have hle : s.commitIdx ≤ s.log.toList.length := by
    rw [← h.commit_eq, ← h.log_eq]
    exact hinv.commit_le v
  obtain ⟨e, k, cfg, outs, hloop, hk, hk', houts⟩ :=
    h.settled.applyLoop cb (s.commitIdx - s.lastAppliedIdx) hle h.applied_le
  unfold Server.applyAll
  rw [h.settled.isApplyAllowed, if_neg (by simp), hloop]
  refine ⟨e, _, rfl, ?_⟩
  refine { h with
    settled := { h.settled with ids_eq := h.settled.ids_eq, node := h.settled.node }
    outs := fun o ho => ?_
    applied_le := hk'
    applied := fun ety idx ho => ?_ }
  · obtain ho | ho := List.mem_append.mp ho
    · exact h.outs o ho
    · obtain ⟨ety, i, rfl, -, -⟩ := houts o ho
      trivial
  · obtain ho | ho := List.mem_append.mp ho
    · obtain ⟨hpos, hidx, hget⟩ := h.applied ety idx ho
      exact ⟨hpos, hidx.trans hk, hget⟩
    · obtain ⟨ety', i, heq, hi, hget⟩ := houts _ ho
      injection heq with hety hidx
      rw [hety, hidx]
      exact ⟨Nat.succ_pos i, hi, hget⟩

theorem Refines.timeouts (hinv : Ok ids sys) (h : Refines ids sys v s) (hv : v ∈ ids)
    (hne : v ≠ -1) (cb : Cbs) : ∃ e s', s.timeouts cb = some (e, s') ∧ Sim ids sys v s' := by
  unfold Server.timeouts
  split
  · next hstate =>
    split
    · have hquiet := h.quiet 0 s.electionTimeoutRand s.currentLeader
      obtain ⟨e, s', hloop, hemit⟩ := hquiet.settled.sendAppendentriesLoop cb
        (fun id (hid : id ∈ s.nodeIds) => h.settled.ids_eq ▸ hid)
      have hall : s.sendAppendentriesAll cb = some (e, s') := hloop
      rw [hall]
      exact ⟨0, s', rfl, .refl (hquiet.emitted hemit (fun o ho => hquiet.aeOut hinv hstate ho)
        (fun _ _ => Settled.AeOut.not_applylog))⟩
    · exact ⟨0, s, rfl, .refl h⟩
  · split
    · split
      · obtain ⟨n, hmy, hvoting⟩ := h.settled.myNode hv
        simp only [hmy, Option.bind_eq_bind, Option.bind_some, hvoting, if_true]
        exact h.becomeCandidate hinv hne cb
      · exact ⟨0, s, rfl, .refl h⟩
    · exact ⟨0, s, rfl, .refl h⟩

theorem Refines.periodic (hinv : Ok ids sys) (h : Refines ids sys v s) (hids : 2 ≤ ids.length)
    (hv : v ∈ ids) (hne : v ≠ -1) (cb : Cbs) (msec : Nat) :
    ∃ e s', s.periodic cb msec = some (e, s') ∧ Sim ids sys v s' := by
  have hquiet := h.quiet (s.timeoutElapsed + msec) s.electionTimeoutRand s.currentLeader
  unfold Server.periodic Server.leadAlone
  rw [if_neg (by rw [hquiet.settled.numVotingNodes]; omega)]
  simp only [Option.bind_eq_bind, Option.bind_some]
  obtain ⟨e, s₁, htimeouts, sys₁, hmoves₁, href₁⟩ := hquiet.timeouts hinv hv hne cb
  simp only [htimeouts, Option.bind_some]
  split
  · exact ⟨e, s₁, rfl, sys₁, hmoves₁, href₁⟩
  · split
    · obtain ⟨e', s', happly, href⟩ := href₁.applyAll (hinv.moves hmoves₁) cb
      exact ⟨e', s', happly, sys₁, hmoves₁, href⟩
    · exact ⟨0, s₁, rfl, sys₁, hmoves₁, href₁⟩

end HomeKeeper.Raft
