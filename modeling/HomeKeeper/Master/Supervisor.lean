import HomeKeeper.Lib.CData

/-!
# `master/master.cpp` — the supervision loop

Every second the master should look up each worker of `work.ubb` in the process table and start the
ones it does not find. Three things go wrong in a round.

* `snprintf (cmd, sizeof (cmd), process.c_str ())` makes the worker's name the format, where it
  should be the argument of the format that is in `cmd`: so the command that is run is the name.
* Where the command prints something, `strtok_r (NULL, ..)` is called on a `saveptr1` that was never
  set, and is not given `result`. What it does is undefined, and so is a format that has a directive
  where there is no argument. Nothing is said of a tick from there on.
* `pid` is set back once a tick and not once a worker. Only the two calls of `strtok_r` lead to a
  place where it is written, so as long as the behaviour is defined it is 0, and every worker is
  started whether it runs or not (`started_of_defined`).
-/

namespace HomeKeeper.Master

open CData

/-- An entry of `js["worker"]`. -/
structure Worker where
  file : Bytes
  number : Bytes
  deriving DecidableEq, Repr

def Worker.processNo (w : Worker) : Nat := (atoi w.number).toInt.toNat

/-- `bin_path + "/" + process + " &"`, as `system` gets it. -/
def Worker.execPath (w : Worker) (binPath : Bytes) : Bytes :=
  cStr (binPath ++ ascii "/" ++ w.file ++ ascii " &")

/-- All copies of one worker. -/
def Worker.copies (w : Worker) (binPath : Bytes) : List Bytes :=
  List.replicate w.processNo (w.execPath binPath)

/-- What a command prints that `popen` runs in the round `i` of a tick; every command ends. -/
abbrev Environment := Nat → Bytes → Bytes

/-- The text of `snprintf (.., format)`, which has no arguments. -/
def printf : Bytes → Option Bytes
  | [] => some []
  | 37 :: 37 :: s => (printf s).map (37 :: ·)
  -- a directive that takes an argument there is not
  | 37 :: _ => none
  | c :: s => (printf s).map (c :: ·)

/-- `fgets (.., n, ..)`: a line, with its newline, as far as it fits. -/
def fgets (n : Nat) (s : Bytes) : Bytes :=
  let line := (s.take (n - 1)).takeWhile (· ≠ 10)
  line ++ ((s.take (n - 1)).drop line.length).take 1

/-- The command of a round. -/
def query (w : Worker) : Option Bytes := (printf (cStr w.file)).map (snprintfS 200)

/-- The `pid` after a round; an answer that is not empty leads to `strtok_r` without a string to
go on with. -/
def scan (answer : Bytes) (pid : Int32) : Option Int32 :=
  if (cStr (fgets 199 answer)).length > 0 then none else some pid

/-- What one tick does: the commands given to `popen`, and those given to `system`, until it ends
or comes to a call whose behaviour is undefined. -/
structure Tick where
  queries : List Bytes
  started : List Bytes
  undefined : Bool
  deriving DecidableEq, Repr

/-- The loop over the workers from round `i` on. -/
def rounds (env : Environment) (binPath : Bytes) : Nat → List Worker → Int32 → Tick
  | _, [], _ => ⟨[], [], false⟩
  | i, w :: ws, pid =>
    match query w with
    | none => ⟨[], [], true⟩
    | some cmd =>
      match scan (env i cmd) pid with
      | none => ⟨[cmd], [], true⟩
      | some pid =>
        let rest := rounds env binPath (i + 1) ws pid
        { queries := cmd :: rest.queries
          started := (if pid = 0 then w.copies binPath else []) ++ rest.started
          undefined := rest.undefined }

def tick (env : Environment) (binPath : Bytes) (ws : List Worker) : Tick :=
  rounds env binPath 0 ws 0

/-- At most `n` ticks of `while (1)` from the tick `t` on, the last being the one whose behaviour
is undefined. -/
def superviseFrom (env : Nat → Environment) (binPath : Bytes) (ws : List Worker) :
    Nat → Nat → List Tick
  | _, 0 => []
  | t, n + 1 =>
    let now := tick (env t) binPath ws
    now :: if now.undefined then [] else superviseFrom env binPath ws (t + 1) n

def supervise (env : Nat → Environment) (binPath : Bytes) (ws : List Worker) (n : Nat) :
    List Tick :=
  superviseFrom env binPath ws 0 n

/-! ## The purpose -/

/-- The line of `ps` for a worker. -/
def psQuery (w : Worker) : Bytes := ascii "ps -aux |grep -v grep|grep " ++ w.file

/-- What a tick is for: each worker is looked up, and started if it is not found. -/
def Tick.intended (env : Environment) (binPath : Bytes) (ws : List Worker) : Tick where
  queries := ws.map psQuery
  started := ws.zipIdx.flatMap fun p =>
    if env p.2 (psQuery p.1) = [] then p.1.copies binPath else []
  undefined := false

/-! ## What a tick does -/

section
variable {env : Environment} {binPath : Bytes}

theorem scan_eq_some {answer : Bytes} {pid pid' : Int32} (h : scan answer pid = some pid') :
    pid' = pid := by
  unfold scan at h
  split at h
  · cases h
  · exact (Option.some.inj h).symm

/-- A tick of defined behaviour starts every worker, whatever the process table holds. -/
theorem started_of_defined {i : Nat} (ws : List Worker)
    (h : (rounds env binPath i ws 0).undefined = false) :
    (rounds env binPath i ws 0).started = ws.flatMap (·.copies binPath) := by
  induction ws generalizing i with
  | nil => rfl
  | cons w ws ih =>
    unfold rounds at h ⊢
    split at h
    · cases h
    · split at h
      · cases h
      · next cmd _ pid hscan =>
        obtain rfl := scan_eq_some hscan
        rw [List.flatMap_cons, ← ih h]
        rfl

theorem length_le_of_printf {s t : Bytes} (h : printf s = some t) : t.length ≤ s.length := by
  fun_induction printf s generalizing t with
  | case1 =>
    rw [Option.some.injEq] at h
    exact h ▸ Nat.le_refl 0
  | case2 s ih =>
    obtain ⟨u, hu, rfl⟩ := Option.map_eq_some_iff.mp h
    have hle := ih hu
    simp only [List.length_cons]
    omega
  | case3 s _ => cases h
  | case4 c s _ _ ih =>
    obtain ⟨u, hu, rfl⟩ := Option.map_eq_some_iff.mp h
    have hle := ih hu
    simp only [List.length_cons]
    omega

/-- A name never runs as the query for itself: it is too short. -/
theorem query_ne_psQuery (w : Worker) : query w ≠ some (psQuery w) := by
  intro h
  obtain ⟨text, htext, heq⟩ := Option.map_eq_some_iff.mp h
  have hquery : (snprintfS 200 text).length ≤ w.file.length := by
    calc (snprintfS 200 text).length
        ≤ (cStr text).length := List.length_take_le' _ _
      _ ≤ text.length := (List.takeWhile_prefix _).length_le
      _ ≤ (cStr w.file).length := length_le_of_printf htext
      _ ≤ w.file.length := (List.takeWhile_prefix _).length_le
  have hps : (psQuery w).length = 27 + w.file.length := by
    rw [psQuery, List.length_append]
    rfl
  rw [heq] at hquery
  omega

theorem tick_ne_intended (w : Worker) (ws : List Worker) :
    tick env binPath (w :: ws) ≠ Tick.intended env binPath (w :: ws) := by
  intro h
  have hqueries := congrArg Tick.queries h
  unfold tick rounds at hqueries
  split at hqueries
  · cases hqueries
  · next cmd hcmd =>
    -- the first command is given to `popen` before anything can go wrong with its answer
    have hfirst : cmd = psQuery w := by
      split at hqueries
      · exact (List.cons.inj hqueries).1
      · exact (List.cons.inj hqueries).1
    exact query_ne_psQuery w (hfirst ▸ hcmd)

theorem superviseFrom_nil (env : Nat → Environment) (binPath : Bytes) (t n : Nat) :
    superviseFrom env binPath [] t n
      = (List.range' t n).map fun t => Tick.intended (env t) binPath [] := by
  induction n generalizing t with
  | zero => rfl
  | succ n ih =>
    rw [List.range'_succ, List.map_cons, ← ih (t + 1)]
    rfl

end

/-- **When the master supervises its workers.** It looks up each worker and starts the ones that are
not found, in its first ticks, if and only if it has no worker: in no state of the process table
does it do so for any other list. -/
theorem supervises_iff (env : Nat → Environment) (binPath : Bytes) (ws : List Worker) (n : Nat) :
    supervise env binPath ws (n + 1)
        = (List.range (n + 1)).map (fun t => Tick.intended (env t) binPath ws)
      ↔ ws = [] := by
  rw [List.range_eq_range']
  constructor
  · intro h
    cases ws with
    | nil => rfl
    | cons w ws =>
      rw [List.range'_succ, List.map_cons] at h
      exact absurd (List.cons.inj h).1 (tick_ne_intended w ws)
  · rintro rfl
    exact superviseFrom_nil env binPath 0 (n + 1)

/-- The workers of `etc/work.ubb`. -/
def workUbb : List Worker := [⟨ascii "bus", ascii "1"⟩, ⟨ascii "slave", ascii "1"⟩]

/-- A process table in which every worker is found; a command that is a worker's name prints
nothing. -/
def allRunning : Environment := fun _ cmd =>
  if (ascii "ps ").isPrefixOf cmd then ascii "root 7 0.0 0.0" else []

/-- `bus` and `slave` run, and would be found. Their names are run as commands instead, and as these
print nothing, both are started once more. -/
theorem running_workers_started_again :
    (tick allRunning (ascii "/bin") workUbb).queries = [ascii "bus", ascii "slave"] ∧
      (tick allRunning (ascii "/bin") workUbb).started
        = [ascii "/bin/bus &", ascii "/bin/slave &"] ∧
      ¬ ∀ (binPath : Bytes) (ws : List Worker) env n, supervise env binPath ws n
        = (List.range n).map fun t => Tick.intended (env t) binPath ws := by
  have hqueries : (tick allRunning (ascii "/bin") workUbb).queries
      = [ascii "bus", ascii "slave"] := by decide
  have hstarted : (tick allRunning (ascii "/bin") workUbb).started
      = workUbb.flatMap (·.copies (ascii "/bin")) := started_of_defined workUbb (by decide)
  refine ⟨hqueries, hstarted.trans (by decide), fun h => ?_⟩
  have hone := h (ascii "/bin") workUbb (fun _ => allRunning) 1
  have hsame := congrArg Tick.queries (List.cons.inj hone).1
  exact absurd (hqueries.symm.trans hsame) (by decide)

end HomeKeeper.Master
