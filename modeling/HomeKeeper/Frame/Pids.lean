import HomeKeeper.Frame.Master
import Mathlib.Data.List.Induction
import Mathlib.Data.List.Nodup

/-!
# Which pids the master signals

Nothing takes a worker out of `pids` when it is reaped: the scan that reaps it and the two clean
functions leave the entry, and only a later scan whose `kill` happens to fail erases it. And an
entry is made for a `fork` that failed, with the pid -1. So a pass over the map uses a pid the
kernel may have given away, or -1, which means every process.

`calls_own_iff` says exactly when this does not happen, in terms of what happened and not of what
the map holds: every pass covers only workers whose `fork` succeeded and that no earlier pass has
reaped (`Orderly`). A worker is reaped by the first scan after its exit, by `ul_end_one` for its
file and by `cleanSources` (`Fate`).
-/

namespace HomeKeeper.Frame

open CData StepSystem

/-! ## The condition -/

/-- What has become of a worker. -/
structure Fate where
  exited : Bool
  reaped : Bool
  deriving DecidableEq, Repr

def Fate.next (l : Launch) (t : Fate) : Event → Fate
  | .exit pid => if pid = l.pid then { t with exited := true } else t
  | .scan _ => { t with reaped := t.reaped || t.exited }
  | .endOne file _ => if l.file = file then ⟨true, true⟩ else t
  | .cleanAll _ => ⟨true, true⟩

/-- The fate of the worker of a launch after the events. -/
def fate (l : Launch) (es : List Event) : Fate := es.foldl (Fate.next l) ⟨false, false⟩

/-- The event is a pass over the entries with this file. -/
def Event.covers (e : Event) (file : Bytes) : Bool :=
  match e with
  | .exit _ => false
  | .scan _ => true
  | .endOne f _ => decide (file = f)
  | .cleanAll _ => true

/-- The entries `runWorkers` makes. -/
def entries (ls : Launches) : List (Int × Bytes) := (runWorkers ls).pids.toList

/-- Each pass covers only entries of successful forks, of workers not reaped before. -/
def Orderly (ls : Launches) (es : List Event) : Prop :=
  ∀ pre e, pre ++ [e] <+: es → ∀ p ∈ entries ls, e.covers p.2 = true →
    0 < p.1 ∧ (fate ⟨p.2, p.1⟩ pre).reaped = false

theorem orderly_snoc (ls : Launches) (es : List Event) (e : Event) :
    Orderly ls (es ++ [e]) ↔ Orderly ls es ∧ ∀ p ∈ entries ls, e.covers p.2 = true →
      0 < p.1 ∧ (fate ⟨p.2, p.1⟩ es).reaped = false := by
  constructor
  · intro h
    refine ⟨?_, h es e (List.prefix_refl _)⟩
    exact fun pre x hpre => h pre x (hpre.trans (List.prefix_append es [e]))
  · rintro ⟨hes, he⟩ pre x hpre
    rcases List.prefix_concat_iff.mp hpre with heq | hpre
    · obtain ⟨rfl, hx⟩ := List.append_inj' heq rfl
      rw [List.cons.injEq] at hx
      rw [hx.1]
      exact he
    · exact hes pre x hpre

theorem fate_snoc (l : Launch) (es : List Event) (e : Event) :
    fate l (es ++ [e]) = (fate l es).next l e := by
  simp [fate]

/-! ## The entries -/

theorem nodup_entries (ls : Launches) : ((entries ls).map (·.1)).Nodup := by
  unfold entries
  rw [Std.TreeMap.map_fst_toList_eq_keys]
  exact Std.TreeMap.nodup_keys

/-- An entry with a positive pid is a worker's. -/
theorem mem_forked_of_mem_entries {ls : Launches} {p : Int × Bytes} (hp : p ∈ entries ls)
    (hpos : 0 < p.1) : p.1 ∈ (runWorkers ls).forked := by
  have hkey (rounds : List Launch) (pid : Int) :
      pid ∈ rounds.foldl (fun (m : Pids) l => m.insert l.pid l.file) ∅ →
        ∃ l ∈ rounds, l.pid = pid := by
    induction rounds using List.reverseRecOn with
    | nil => simp
    | append_singleton rounds l ih =>
      rw [List.foldl_append, List.foldl_cons, List.foldl_nil, Std.TreeMap.mem_insert]
      rintro (h | h)
      · exact ⟨l, by simp, Std.LawfulEqCmp.eq_of_compare h⟩
      · obtain ⟨x, hx, hxp⟩ := ih h
        exact ⟨x, List.mem_append_left _ hx, hxp⟩
  have hmem : p.1 ∈ (runWorkers ls).pids := by
    rw [← Std.TreeMap.mem_keys, ← Std.TreeMap.map_fst_toList_eq_keys]
    exact List.mem_map_of_mem hp
  obtain ⟨l, hl, hlp⟩ := hkey ls.rounds p.1 hmem
  refine List.mem_map.mpr ⟨l, List.mem_filter.mpr ⟨hl, ?_⟩, hlp⟩
  simpa [hlp] using hpos

/-! ## One entry -/

/-- A worker that is there is signalled and waited for; the two calls are good. -/
theorem touch_own {s : State} {pid : Int} (h : s.Own pid) (signal9 : Bool) (o : Answers) :
    touch signal9 o s pid =
      { s with
        calls := s.calls ++ [(pid, true), (pid, true)]
        exited := if signal9 then s.exited ++ [pid] else s.exited
        reaped := if signal9 = true ∨ pid ∈ s.exited then s.reaped ++ [pid] else s.reaped } := by
  have hne : pid ≠ -1 := by
    have := h.1
    omega
  have hown (calls : List (Int × Bool)) (exited : List Int) :
      State.Own { s with calls := calls, exited := exited } pid := h
  cases signal9 with
  | true =>
    simp only [touch, if_pos h, if_true, State.die, hne, if_false, State.waitpid, State.call,
      State.reap, decide_eq_true h]
    rw [if_pos ⟨hown _ _, by simp⟩]
    simp [hown]
  | false =>
    simp only [touch, if_pos h, if_true, hne, if_false, State.waitpid, State.call, State.reap,
      decide_eq_true h, Bool.false_eq_true, false_or]
    by_cases hex : pid ∈ s.exited
    · rw [if_pos ⟨hown _ _, hex⟩, if_pos hex]
      simp [hown]
    · rw [if_neg (fun hc => hex hc.2), if_neg hex]
      simp [hown]

/-- Whatever is touched: the calls are added to, the first is the one for this pid, and no worker
comes back. -/
theorem touch_mono (signal9 : Bool) (o : Answers) (s : State) (pid : Int) :
    s.calls ++ [(pid, decide (s.Own pid))] <+: (touch signal9 o s pid).calls
      ∧ (touch signal9 o s pid).forked = s.forked
      ∧ s.reaped ⊆ (touch signal9 o s pid).reaped := by
  have hreap (t : State) (q : Int) : (t.reap q).calls = t.calls ∧ (t.reap q).forked = t.forked
      ∧ t.reaped ⊆ (t.reap q).reaped := by
    unfold State.reap
    split
    · exact ⟨rfl, rfl, List.subset_append_left _ _⟩
    · exact ⟨rfl, rfl, List.Subset.refl _⟩
  have hdie (t : State) (q : Int) : (t.die q).calls = t.calls ∧ (t.die q).forked = t.forked
      ∧ (t.die q).reaped = t.reaped := by
    unfold State.die
    split <;> exact ⟨rfl, rfl, rfl⟩
  have hwait (t : State) : t.calls <+: (t.waitpid o pid).calls
      ∧ (t.waitpid o pid).forked = t.forked ∧ t.reaped ⊆ (t.waitpid o pid).reaped := by
    obtain ⟨hc, hf, hr⟩ := hreap (t.call pid) (if pid = -1 then o.child else pid)
    refine ⟨?_, hf, hr⟩
    show t.calls <+: ((t.call pid).reap _).calls
    rw [hc]
    exact List.prefix_append _ _
  unfold touch
  generalize (if s.Own pid then true else o.kill pid) = ok
  cases ok with
  | false => cases signal9 <;> exact ⟨List.prefix_refl _, rfl, List.Subset.refl _⟩
  | true =>
    cases signal9 with
    | false => exact hwait (s.call pid)
    | true =>
      obtain ⟨hc, hf, hr⟩ := hdie (s.call pid) pid
      obtain ⟨hwc, hwf, hwr⟩ := hwait ((s.call pid).die pid)
      rw [hc] at hwc
      rw [hr] at hwr
      exact ⟨hwc, hwf.trans hf, hwr⟩

/-! ## One pass -/

/-- The calls so far are all good. -/
def State.Sound (s : State) : Prop := ∀ c ∈ s.calls, c.2 = true

theorem own_of_own_touch {signal9 : Bool} {o : Answers} {s : State} {pid q : Int}
    (h : (touch signal9 o s pid).Own q) : s.Own q := by
  obtain ⟨-, hforked, hreaped⟩ := touch_mono signal9 o s pid
  exact ⟨h.1, hforked ▸ h.2.1, fun hq => h.2.2 (hreaped hq)⟩

theorem sound_of_sound_touch {signal9 : Bool} {o : Answers} {s : State} {pid : Int}
    (h : (touch signal9 o s pid).Sound) : s.Sound ∧ s.Own pid := by
  obtain ⟨hcalls, -, -⟩ := touch_mono signal9 o s pid
  refine ⟨fun c hc => h c (hcalls.subset (List.mem_append_left _ hc)), ?_⟩
  have hself := h _ (hcalls.subset (List.mem_append_right _ (List.mem_singleton_self _)))
  exact of_decide_eq_true hself

/-- A pass whose calls are good covers only workers that were there at its start: within a pass
nothing comes back. -/
theorem own_of_sound_pass {signal9 : Bool} {o : Answers} {ps : List (Int × Bytes)} {s : State}
    (h : (pass signal9 o ps s).Sound) : s.Sound ∧ ∀ p ∈ ps, s.Own p.1 := by
  induction ps generalizing s with
  | nil => exact ⟨h, by simp⟩
  | cons p ps ih =>
    obtain ⟨hsound, hrest⟩ := ih (s := touch signal9 o s p.1) h
    obtain ⟨hs, hp⟩ := sound_of_sound_touch hsound
    refine ⟨hs, ?_⟩
    intro q hq
    rcases List.mem_cons.mp hq with rfl | hq
    · exact hp
    · exact own_of_own_touch (hrest q hq)

/-- `t` is `s` after the workers `qs`, all there, were signalled and waited for. -/
structure Touched (signal9 : Bool) (qs : List Int) (s t : State) : Prop where
  sound : t.Sound
  pids : t.pids = s.pids
  forked : t.forked = s.forked
  exited : ∀ q, q ∈ t.exited ↔ q ∈ s.exited ∨ (signal9 = true ∧ q ∈ qs)
  reaped : ∀ q, q ∈ t.reaped ↔ q ∈ s.reaped ∨ ((signal9 = true ∨ q ∈ s.exited) ∧ q ∈ qs)

theorem touched_nil (signal9 : Bool) {s : State} (hs : s.Sound) : Touched signal9 [] s s := by
  constructor
  case sound => exact hs
  all_goals simp

theorem touched_touch (signal9 : Bool) (o : Answers) {s : State} {pid : Int} (h : s.Own pid)
    (hs : s.Sound) : Touched signal9 [pid] s (touch signal9 o s pid) := by
  rw [touch_own h]
  constructor
  case sound =>
    intro c hc
    rcases List.mem_append.mp hc with hc | hc
    · exact hs c hc
    · simp only [List.mem_cons, List.not_mem_nil, or_false, or_self] at hc
      rw [hc]
  case pids => rfl
  case forked => rfl
  case exited =>
    intro q
    cases signal9 <;> simp
  case reaped =>
    intro q
    show q ∈ (if signal9 = true ∨ pid ∈ s.exited then s.reaped ++ [pid] else s.reaped) ↔ _
    rw [List.mem_singleton]
    split
    · next hcond =>
      rw [List.mem_append, List.mem_singleton]
      apply or_congr_right
      exact ⟨fun hq => ⟨hq ▸ hcond, hq⟩, fun hq => hq.2⟩
    · next hcond =>
      exact ⟨.inl, fun hq => hq.resolve_right fun hq => hcond (hq.2 ▸ hq.1)⟩

theorem Touched.append {signal9 : Bool} {qs rs : List Int} {s t u : State}
    (h : Touched signal9 qs s t) (h' : Touched signal9 rs t u) :
    Touched signal9 (qs ++ rs) s u where
  sound := h'.sound
  pids := h'.pids.trans h.pids
  forked := h'.forked.trans h.forked
  exited := by
    intro q
    rw [h'.exited, h.exited, List.mem_append, or_assoc, ← and_or_left]
  reaped := by
    intro q
    -- with signal 0 nobody exits on the way, with signal 9 it does not matter
    have hcond : (signal9 = true ∨ q ∈ s.exited ∨ signal9 = true ∧ q ∈ qs)
        ↔ (signal9 = true ∨ q ∈ s.exited) := by
      exact or_congr_right' fun hsignal => or_iff_left fun hboth => hsignal hboth.1
    rw [h'.reaped, h.reaped, h.exited, List.mem_append, hcond, or_assoc, ← and_or_left]

/-- What a pass over workers that are there does. -/
theorem pass_own (signal9 : Bool) (o : Answers) {ps : List (Int × Bytes)} {s : State}
    (hnodup : (ps.map (·.1)).Nodup) (hown : ∀ p ∈ ps, s.Own p.1) (hs : s.Sound) :
    Touched signal9 (ps.map (·.1)) s (pass signal9 o ps s) := by
  induction ps generalizing s with
  | nil => exact touched_nil signal9 hs
  | cons p ps ih =>
    rw [List.map_cons, List.nodup_cons] at hnodup
    have hp := touched_touch signal9 o (hown p List.mem_cons_self) hs
    -- the other entries are other workers
    have hrest : ∀ q ∈ ps, (touch signal9 o s p.1).Own q.1 := by
      intro q hq
      obtain ⟨hpos, hforked, hnot⟩ := hown q (List.mem_cons_of_mem _ hq)
      refine ⟨hpos, by rw [hp.forked]; exact hforked, ?_⟩
      rw [hp.reaped, List.mem_singleton]
      rintro (h | ⟨-, h⟩)
      · exact hnot h
      · exact hnodup.1 (h ▸ List.mem_map_of_mem hq)
    exact hp.append (ih hnodup.2 hrest hp.sound)

/-! ## Runs -/

/-- As long as the calls are good, the map is the one `runWorkers` made and the workers are where
their fates say. -/
structure Agrees (ls : Launches) (es : List Event) (s : State) : Prop where
  pids : s.pids = (runWorkers ls).pids
  forked : s.forked = (runWorkers ls).forked
  exited : ∀ p ∈ entries ls, 0 < p.1 →
    (p.1 ∈ s.exited ↔ (fate ⟨p.2, p.1⟩ es).exited = true)
  reaped : ∀ p ∈ entries ls, 0 < p.1 →
    (p.1 ∈ s.reaped ↔ (fate ⟨p.2, p.1⟩ es).reaped = true)

theorem agrees_start (ls : Launches) : Agrees ls [] (runWorkers ls) := by
  constructor <;> simp [runWorkers, fate]

/-- The entries a pass covers in the next step. -/
def CoversOwn (ls : Launches) (es : List Event) (e : Event) : Prop :=
  ∀ p ∈ entries ls, e.covers p.2 = true → 0 < p.1 ∧ (fate ⟨p.2, p.1⟩ es).reaped = false

theorem own_iff {ls : Launches} {es : List Event} {s : State} (ha : Agrees ls es s)
    {p : Int × Bytes} (hp : p ∈ entries ls) :
    s.Own p.1 ↔ 0 < p.1 ∧ (fate ⟨p.2, p.1⟩ es).reaped = false := by
  constructor
  · rintro ⟨hpos, -, hnot⟩
    refine ⟨hpos, ?_⟩
    rwa [ha.reaped p hp hpos, Bool.not_eq_true] at hnot
  · rintro ⟨hpos, hreaped⟩
    refine ⟨hpos, ?_, ?_⟩
    · rw [ha.forked]
      exact mem_forked_of_mem_entries hp hpos
    · rw [ha.reaped p hp hpos, hreaped]
      simp

/-- A pass of either kind: it is good exactly when it covers workers that are there, and then the
fates go on as it says. -/
theorem agrees_pass {ls : Launches} {es : List Event} {s : State} {e : Event} {signal9 : Bool}
    {o : Answers} (hs : s.Sound) (ha : Agrees ls es s)
    (hnext : ∀ l t, Fate.next l t e =
      if e.covers l.file then ⟨t.exited || signal9, t.reaped || (signal9 || t.exited)⟩ else t)
    {ps : List (Int × Bytes)} (hps : ps = (entries ls).filter fun p => e.covers p.2) :
    ((pass signal9 o ps s).Sound ↔ CoversOwn ls es e)
      ∧ ((pass signal9 o ps s).Sound → Agrees ls (es ++ [e]) (pass signal9 o ps s)) := by
  have hmem {p : Int × Bytes} (hp : p ∈ entries ls) : p ∈ ps ↔ e.covers p.2 = true := by
    rw [hps, List.mem_filter, and_iff_right hp]
  have hsub {p : Int × Bytes} (hp : p ∈ ps) : p ∈ entries ls := by
    rw [hps] at hp
    exact (List.mem_filter.mp hp).1
  have hnodup : (ps.map (·.1)).Nodup := by
    rw [hps]
    exact (nodup_entries ls).sublist (List.filter_sublist.map _)
  have hiff : (∀ p ∈ ps, s.Own p.1) ↔ CoversOwn ls es e := by
    constructor
    · exact fun h p hp hcov => (own_iff ha hp).mp (h p ((hmem hp).mpr hcov))
    · exact fun h p hp => (own_iff ha (hsub hp)).mpr (h p (hsub hp) ((hmem (hsub hp)).mp hp))
  refine ⟨⟨fun h => hiff.mp (own_of_sound_pass h).2, ?_⟩, ?_⟩
  · exact fun h => (pass_own signal9 o hnodup (hiff.mpr h) hs).1
  · intro h
    obtain ⟨-, hpids, hforked, hexited, hreaped⟩ :=
      pass_own signal9 o hnodup (own_of_sound_pass h).2 hs
    -- an entry is covered by the pass exactly when its pid is among those touched
    have hpid {p : Int × Bytes} (hp : p ∈ entries ls) :
        p.1 ∈ ps.map (·.1) ↔ e.covers p.2 = true := by
      rw [← hmem hp]
      constructor
      · intro h
        obtain ⟨q, hq, hqp⟩ := List.mem_map.mp h
        rw [← List.inj_on_of_nodup_map (nodup_entries ls) (hsub hq) hp hqp]
        exact hq
      · exact fun h => List.mem_map_of_mem h
    refine ⟨hpids.trans ha.pids, hforked.trans ha.forked, ?_, ?_⟩
    · intro p hp hpos
      rw [hexited, fate_snoc, hnext, hpid hp, ha.exited p hp hpos]
      cases e.covers p.2 <;> cases signal9 <;> simp
    · intro p hp hpos
      rw [hreaped, fate_snoc, hnext, hpid hp, ha.reaped p hp hpos, ha.exited p hp hpos]
      cases e.covers p.2 <;> cases signal9 <;> simp

theorem sound_of_sound_step {s s' : State} {e : Event} (h : step s e = some s')
    (hs : s'.Sound) : s.Sound := by
  cases e with
  | exit pid =>
    simp only [step] at h
    split at h
    · cases h; exact hs
    · cases h
  | scan o =>
    cases h
    exact (own_of_sound_pass hs).1
  | endOne file o =>
    simp only [step] at h
    split at h
    · cases h
    · cases h; exact (own_of_sound_pass hs).1
  | cleanAll o =>
    simp only [step] at h
    split at h
    · cases h
    · cases h; exact (own_of_sound_pass (s := s) hs).1

theorem agrees_step {ls : Launches} {es : List Event} {s s' : State} {e : Event}
    (hs : s.Sound) (ha : Agrees ls es s) (h : step s e = some s') :
    (s'.Sound ↔ CoversOwn ls es e) ∧ (s'.Sound → Agrees ls (es ++ [e]) s') := by
  have hlist : s.pids.toList = entries ls := by
    rw [ha.pids]
    rfl
  cases e with
  | exit pid =>
    simp only [step] at h
    split at h
    · cases h
      refine ⟨⟨fun _ p _ hcov => (by cases hcov), fun _ => hs⟩, fun _ => ?_⟩
      refine ⟨ha.pids, ha.forked, ?_, ?_⟩
      · intro p hp hpos
        show p.1 ∈ s.exited ++ [pid] ↔ _
        rw [List.mem_append, ha.exited p hp hpos, fate_snoc, List.mem_singleton]
        by_cases hpid : pid = p.1
        · simp [Fate.next, hpid]
        · simp [Fate.next, hpid, Ne.symm hpid]
      · intro p hp hpos
        rw [ha.reaped p hp hpos, fate_snoc]
        simp only [Fate.next]
        split <;> rfl
    · cases h
  | scan o =>
    cases h
    apply agrees_pass (e := .scan o) hs ha
    · intro l t
      simp [Fate.next, Event.covers]
    · rw [hlist]
      simp [Event.covers]
  | endOne file o =>
    simp only [step] at h
    split at h
    · cases h
    · cases h
      apply agrees_pass (e := .endOne file o) hs ha
      · intro l t
        simp [Fate.next, Event.covers]
      · rw [hlist]
        rfl
  | cleanAll o =>
    simp only [step] at h
    split at h
    · cases h
    · cases h
      have hpass : ((cleanSources o s).Sound ↔ CoversOwn ls es (.cleanAll o))
          ∧ ((cleanSources o s).Sound → Agrees ls (es ++ [.cleanAll o]) (cleanSources o s)) := by
        apply agrees_pass hs ha
        · simp [Fate.next, Event.covers]
        · rw [hlist]
          simp [Event.covers]
      refine ⟨hpass.1, fun h => ?_⟩
      obtain ⟨h1, h2, h3, h4⟩ := hpass.2 h
      exact ⟨h1, h2, h3, h4⟩

/-- Induction over the run: up to the first bad call the map and the fates agree. -/
theorem sound_run {ls : Launches} {es : List Event} {s : State}
    (hrun : run step (runWorkers ls) es = some s) :
    (s.Sound ↔ Orderly ls es) ∧ (s.Sound → Agrees ls es s) := by
  induction es using List.reverseRecOn generalizing s with
  | nil =>
    rw [run_nil, Option.some.injEq] at hrun
    subst hrun
    refine ⟨⟨fun _ pre e hpre => ?_, fun _ c hc => (by cases hc)⟩, fun _ => agrees_start ls⟩
    simp at hpre
  | append_singleton es e ih =>
    obtain ⟨m, hm, he⟩ := run_snoc.mp hrun
    obtain ⟨hiff, hagrees⟩ := ih hm
    rw [orderly_snoc]
    by_cases hsound : m.Sound
    · obtain ⟨hstep, hnext⟩ := agrees_step hsound (hagrees hsound) he
      refine ⟨?_, hnext⟩
      rw [hstep]
      exact ⟨fun h => ⟨hiff.mp hsound, h⟩, fun h => h.2⟩
    · have hbad : ¬ s.Sound := fun h => hsound (sound_of_sound_step he h)
      refine ⟨⟨fun h => absurd h hbad, ?_⟩, fun h => absurd h hbad⟩
      exact fun h => absurd (hiff.mpr h.1) hsound

/-- **When every pid is a worker's.** In a run of the master, every pid given to `kill` or
`waitpid` is the positive pid of a worker that was forked and not yet reaped, if and only if every
pass covers only entries of successful forks and workers that no earlier pass has reaped. -/
theorem calls_own_iff (ls : Launches) (es : List Event) (s : State)
    (hrun : run step (runWorkers ls) es = some s) :
    (∀ c ∈ s.calls, c.2 = true) ↔ Orderly ls es :=
  (sound_run hrun).1

/-- Two workers with the pids 100 and 101. -/
def twoWorkers : Launches where
  rounds := [⟨ascii "a", 100⟩, ⟨ascii "b", 101⟩]
  result := by decide
  distinct := by decide

def noOtherProcess : Answers := ⟨fun _ => false, 0⟩

/-- A scan, the end of one worker, and the message to end the other. -/
theorem calls_own_iff_end_one :
    ∃ s, run step (runWorkers twoWorkers)
        [.scan noOtherProcess, .exit 100, .endOne (ascii "b") noOtherProcess] = some s
      ∧ s.calls.length = 6
      ∧ ((∀ c ∈ s.calls, c.2 = true) ↔ Orderly twoWorkers
        [.scan noOtherProcess, .exit 100, .endOne (ascii "b") noOtherProcess]) := by
  have hlen : (run step (runWorkers twoWorkers)
      [.scan noOtherProcess, .exit 100, .endOne (ascii "b") noOtherProcess]).map
      (·.calls.length) = some 6 := by decide
  obtain ⟨s, hs, hcalls⟩ := Option.map_eq_some_iff.mp hlen
  exact ⟨s, hs, hcalls, calls_own_iff twoWorkers _ s hs⟩

/-- The worker 100 exits, a scan reaps it, and `cleanSources` kills the pid 100. -/
theorem reaped_pid_killed :
    ¬ ∀ (ls : Launches) (es : List Event) (s : State),
      run step (runWorkers ls) es = some s → ∀ c ∈ s.calls, c.2 = true := by
  intro h
  have hbad : (run step (runWorkers twoWorkers)
      [.exit 100, .scan noOtherProcess, .cleanAll noOtherProcess]).map
      (fun s => s.calls.all (·.2)) = some false := by decide
  obtain ⟨s, hs, hfalse⟩ := Option.map_eq_some_iff.mp hbad
  rw [List.all_eq_true.mpr (h twoWorkers _ s hs)] at hfalse
  cases hfalse

end HomeKeeper.Frame
