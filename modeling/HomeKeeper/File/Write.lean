import HomeKeeper.Lib.CData
import HomeKeeper.Lib.Handles

/-!
# `file.hpp` — `file::write`

Both overloads open the file in the mode `at+`, print the text, flush and close. When the text
cannot be printed they call `reOpen (fp)`, which closes the handle and opens the file again, up to
five times. But `fp` is its parameter by value: the new handle stays in `reOpen`, and the caller goes on
with the one that is closed.

What stdio does is in `Outcomes`. An operation on a closed handle is undefined; here it is carried
out as if the handle were open, and `Safe` tells such runs apart.
-/

namespace HomeKeeper.File

open CData Handles

/-! ## stdio -/

/-- The streams of one file. -/
structure Stdio where
  /-- The handles below have been given out. -/
  next : Nat
  trace : List (Event Nat)
  /-- What was printed and has not been passed on, for each handle. -/
  buffer : Nat → Bytes
  content : Bytes

/-- `fprintf` returns a negative number when it could take only the first bytes of the text. -/
inductive FprintfOutcome where
  | ok
  | failed (taken : Nat)
  deriving DecidableEq, Repr

/-- A flush that fails has passed on the first bytes. The rest is kept in the buffer, or dropped. -/
inductive FflushOutcome where
  | ok
  | kept (out : Nat)
  | lost (out : Nat)
  deriving DecidableEq, Repr

inductive FcloseOutcome where
  | ok
  | failed (out : Nat)
  deriving DecidableEq, Repr

def Stdio.touch (s : Stdio) (e : Event Nat) : Stdio := { s with trace := s.trace ++ [e] }

def Stdio.setBuffer (s : Stdio) (fp : Nat) (b : Bytes) : Stdio :=
  { s with buffer := fun k => if k = fp then b else s.buffer k }

def Stdio.put (s : Stdio) (b : Bytes) : Stdio := { s with content := s.content ++ b }

def fopen (ok : Bool) (s : Stdio) : Option Nat × Stdio :=
  if ok then
    (some s.next, ({ s with next := s.next + 1 }.touch (.opened s.next)).setBuffer s.next [])
  else (none, s)

/-- `fprintf (fp, "%s", text)`, and whether it succeeds. -/
def fprintf (o : FprintfOutcome) (fp : Nat) (text : Bytes) (s : Stdio) : Bool × Stdio :=
  match o with
  | .ok => (true, (s.touch (.used fp)).setBuffer fp (s.buffer fp ++ text))
  | .failed k => (false, (s.touch (.used fp)).setBuffer fp (s.buffer fp ++ text.take k))

def fflush (o : FflushOutcome) (fp : Nat) (s : Stdio) : Stdio :=
  match o with
  | .ok => ((s.touch (.used fp)).put (s.buffer fp)).setBuffer fp []
  | .kept k => ((s.touch (.used fp)).put ((s.buffer fp).take k)).setBuffer fp ((s.buffer fp).drop k)
  | .lost k => ((s.touch (.used fp)).put ((s.buffer fp).take k)).setBuffer fp []

def fclose (o : FcloseOutcome) (fp : Nat) (s : Stdio) : Int32 × Stdio :=
  match o with
  | .ok => (0, ((s.touch (.closed fp)).put (s.buffer fp)).setBuffer fp [])
  | .failed k => (-1, ((s.touch (.closed fp)).put ((s.buffer fp).take k)).setBuffer fp [])

/-! ## `file` -/

/-- What stdio does in one call of `write`. -/
structure Outcomes where
  fopen : Bool
  fprintf : FprintfOutcome
  /-- The `fclose` of `reOpen`, -/
  reclose : FcloseOutcome
  /-- and its calls of `fopen`. -/
  reopen : Nat → Bool
  fprintfAgain : FprintfOutcome
  fflush : FflushOutcome
  fclose : FcloseOutcome

def success : Int32 := 0
def failed : Int32 := 1

def reTryTime : Nat := 5

/-- The loop of `reOpen` with `left` tries to go. -/
def reOpenLoop (o : Nat → Bool) : Nat → Stdio → Int32 × Stdio
  | 0, s => (failed, s)
  | left + 1, s =>
    match fopen (o (reTryTime - (left + 1))) s with
    | (none, s) => reOpenLoop o left s
    -- the handle is in the parameter of `reOpen`
    | (some _, s) => (success, s)

def reOpen (o : Outcomes) (fp : Nat) (s : Stdio) : Int32 × Stdio :=
  reOpenLoop o.reopen reTryTime (fclose o.reclose fp s).2

/-- The end of both overloads. -/
def finish (o : Outcomes) (fp : Nat) (s : Stdio) : Int32 × Stdio :=
  fclose o.fclose fp (fflush o.fflush fp s)

/-- The two overloads, for the C string that they print. The second tests `fp == nullptr` twice; it
has returned then. -/
def writeText (o : Outcomes) (text : Bytes) (s : Stdio) : Int32 × Stdio :=
  match fopen o.fopen s with
  | (none, s) => (failed, s)
  | (some fp, s) =>
    match fprintf o.fprintf fp text s with
    | (true, s) => finish o fp s
    | (false, s) =>
      match reOpen o fp s with
      | (ret, s) =>
        if ret = success then finish o fp (fprintf o.fprintfAgain fp text s).2 else (ret, s)

/-- `write (const std::string &)`. -/
def write (o : Outcomes) (fileInfo : Bytes) (s : Stdio) : Int32 × Stdio :=
  writeText o (cStr fileInfo) s

/-- `write (const char *, int)`; `fileInfo` is the memory from the pointer on. The length is not
used. -/
def writeChars (o : Outcomes) (fileInfo : Bytes) (_length : Int32) (s : Stdio) : Int32 × Stdio :=
  writeText o (cStr fileInfo) s

/-! ## Runs -/

inductive WriteCall where
  | string (fileInfo : Bytes) (o : Outcomes)
  | chars (fileInfo : Bytes) (length : Int32) (o : Outcomes)

def WriteCall.outcomes : WriteCall → Outcomes
  | .string _ o => o
  | .chars _ _ o => o

/-- The text that a call is given: a `std::string` may have NUL bytes. -/
def WriteCall.text : WriteCall → Bytes
  | .string fileInfo _ => fileInfo
  | .chars fileInfo _ _ => cStr fileInfo

def WriteCall.perform (s : Stdio) : WriteCall → Int32 × Stdio
  | .string fileInfo o => write o fileInfo s
  | .chars fileInfo length o => writeChars o fileInfo length s

/-- A call, with the streams before and after it. -/
structure Performed where
  call : WriteCall
  before : Stdio
  ret : Int32
  after : Stdio

/-- What the call did with handles. -/
def Performed.trace (p : Performed) : List (Event Nat) := p.after.trace.drop p.before.trace.length

def writes : Stdio → List WriteCall → List Performed
  | _, [] => []
  | s, c :: calls => ⟨c, s, (c.perform s).1, (c.perform s).2⟩ :: writes (c.perform s).2 calls

/-- No stream is open and the file has some content. -/
def Stdio.start (content : Bytes) : Stdio := ⟨0, [], fun _ => [], content⟩

/-- What a call should do. -/
structure Performed.Correct (p : Performed) : Prop where
  safe : Safe p.after.trace
  released : Released p.trace
  appended : p.ret = success → p.after.content = p.before.content ++ p.call.text

/-! ## One call -/

@[simp] theorem touch_next (s : Stdio) (e : Event Nat) : (s.touch e).next = s.next := rfl
@[simp] theorem touch_trace (s : Stdio) (e : Event Nat) : (s.touch e).trace = s.trace ++ [e] := rfl
@[simp] theorem touch_content (s : Stdio) (e : Event Nat) : (s.touch e).content = s.content := rfl

@[simp] theorem setBuffer_next (s : Stdio) (fp : Nat) (b : Bytes) :
    (s.setBuffer fp b).next = s.next := rfl
@[simp] theorem setBuffer_trace (s : Stdio) (fp : Nat) (b : Bytes) :
    (s.setBuffer fp b).trace = s.trace := rfl
@[simp] theorem setBuffer_content (s : Stdio) (fp : Nat) (b : Bytes) :
    (s.setBuffer fp b).content = s.content := rfl
@[simp] theorem setBuffer_buffer (s : Stdio) (fp : Nat) (b : Bytes) :
    (s.setBuffer fp b).buffer fp = b := if_pos rfl

@[simp] theorem put_content (s : Stdio) (b : Bytes) : (s.put b).content = s.content ++ b := rfl

/-- What a flush leaves of a text for good, if the close after it succeeds. -/
def FflushOutcome.passed : FflushOutcome → Bytes → Bytes
  | .ok, text => text
  | .kept _, text => text
  | .lost k, text => text.take k

theorem fflush_trace (o : FflushOutcome) (fp : Nat) (s : Stdio) :
    (fflush o fp s).trace = s.trace ++ [.used fp] ∧ (fflush o fp s).next = s.next := by
  cases o <;> exact ⟨rfl, rfl⟩

theorem fclose_trace (o : FcloseOutcome) (fp : Nat) (s : Stdio) :
    (fclose o fp s).2.trace = s.trace ++ [.closed fp] ∧ (fclose o fp s).2.next = s.next := by
  cases o <;> exact ⟨rfl, rfl⟩

theorem fprintf_trace (o : FprintfOutcome) (fp : Nat) (text : Bytes) (s : Stdio) :
    (fprintf o fp text s).2.trace = s.trace ++ [.used fp]
      ∧ (fprintf o fp text s).2.next = s.next := by
  cases o <;> exact ⟨rfl, rfl⟩

theorem finish_trace (o : Outcomes) (fp : Nat) (s : Stdio) :
    (finish o fp s).2.trace = s.trace ++ [.used fp, .closed fp]
      ∧ (finish o fp s).2.next = s.next := by
  unfold finish
  rw [(fclose_trace _ _ _).1, (fclose_trace _ _ _).2, (fflush_trace _ _ _).1,
    (fflush_trace _ _ _).2]
  simp

/-- The result is that of `fclose` alone, and what is in the file then depends on the flush. -/
theorem finish_content {o : Outcomes} {fp : Nat} {s : Stdio} :
    ((finish o fp s).1 = success ↔ o.fclose = .ok)
      ∧ (o.fclose = .ok →
        (finish o fp s).2.content = s.content ++ o.fflush.passed (s.buffer fp)) := by
  unfold finish fclose
  cases hclose : o.fclose with
  | failed k => simp [success]
  | ok =>
    refine ⟨by simp [success], fun _ => ?_⟩
    cases hflush : o.fflush with
    | ok => simp [fflush, FflushOutcome.passed]
    | kept k => simp [fflush, FflushOutcome.passed]
    | lost k => simp [fflush, FflushOutcome.passed]

theorem reOpenLoop_false {o : Nat → Bool} (h : ∀ k, k < reTryTime → o k = false) {left : Nat}
    (hleft : left ≤ reTryTime) (s : Stdio) : reOpenLoop o left s = (failed, s) := by
  induction left with
  | zero => rfl
  | succ left ih =>
    have hnow : o (reTryTime - (left + 1)) = false := h _ (by omega)
    unfold reOpenLoop
    simp only [fopen, hnow]
    exact ih (by omega)

theorem reOpenLoop_true {o : Nat → Bool} {left : Nat} (hleft : left ≤ reTryTime)
    (h : ∃ k, reTryTime - left ≤ k ∧ k < reTryTime ∧ o k = true) (s : Stdio) :
    reOpenLoop o left s = (success, (fopen true s).2) := by
  induction left with
  | zero =>
    obtain ⟨k, hk, hlt, -⟩ := h
    omega
  | succ left ih =>
    unfold reOpenLoop
    cases hnow : o (reTryTime - (left + 1)) with
    | true => rfl
    | false =>
      apply ih (by omega)
      obtain ⟨k, hk, hlt, hok⟩ := h
      refine ⟨k, ?_, hlt, hok⟩
      have hne : k ≠ reTryTime - (left + 1) := by
        rintro rfl
        rw [hnow] at hok
        cases hok
      omega

/-- What a call does with the handle `n`: the text was printed; -/
def printedTrace (n : Nat) : List (Event Nat) := [.opened n, .used n, .used n, .closed n]

/-- it was not, and the file could not be opened again; -/
def lostTrace (n : Nat) : List (Event Nat) := [.opened n, .used n, .closed n]

/-- or it could, and what follows goes to the old handle. -/
def reopenedTrace (n : Nat) : List (Event Nat) :=
  [.opened n, .used n, .closed n, .opened (n + 1), .used n, .used n, .closed n]

theorem writeText_printed {o : Outcomes} (hopen : o.fopen = true) (hprint : o.fprintf = .ok)
    (text : Bytes) (s : Stdio) :
    (writeText o text s).2.trace = s.trace ++ printedTrace s.next
      ∧ (writeText o text s).2.next = s.next + 1
      ∧ ((writeText o text s).1 = success ↔ o.fclose = .ok)
      ∧ (o.fclose = .ok →
        (writeText o text s).2.content = s.content ++ o.fflush.passed text) := by
  have heq : writeText o text s
      = finish o s.next (fprintf .ok s.next text (fopen true s).2).2 := by
    unfold writeText
    rw [hopen, hprint]
    rfl
  rw [heq]
  refine ⟨?_, (finish_trace _ _ _).2, finish_content.1, fun hclose => ?_⟩
  · rw [(finish_trace _ _ _).1]
    simp [fprintf, fopen, printedTrace]
  · rw [finish_content.2 hclose]
    simp [fprintf, fopen]

theorem writeText_failed {o : Outcomes} {k : Nat} (hopen : o.fopen = true)
    (hprint : o.fprintf = .failed k) (text : Bytes) (s : Stdio) :
    writeText o text s
      = (let r := reOpen o s.next (fprintf (.failed k) s.next text (fopen true s).2).2
        if r.1 = success then finish o s.next (fprintf o.fprintfAgain s.next text r.2).2
        else r) := by
  unfold writeText
  rw [hopen, hprint]
  rfl

theorem writeText_lost {o : Outcomes} {k : Nat} (hopen : o.fopen = true)
    (hprint : o.fprintf = .failed k) (hno : ∀ j, j < reTryTime → o.reopen j = false)
    (text : Bytes) (s : Stdio) :
    (writeText o text s).1 = failed
      ∧ (writeText o text s).2.trace = s.trace ++ lostTrace s.next
      ∧ (writeText o text s).2.next = s.next + 1 := by
  rw [writeText_failed hopen hprint, reOpen, reOpenLoop_false hno (Nat.le_refl _)]
  refine ⟨rfl, ?_, ?_⟩
  · show (fclose _ _ _).2.trace = _
    rw [(fclose_trace _ _ _).1]
    simp [fprintf, fopen, lostTrace]
  · show (fclose _ _ _).2.next = _
    rw [(fclose_trace _ _ _).2]
    simp [fprintf, fopen]

theorem writeText_reopened {o : Outcomes} {k : Nat} (hopen : o.fopen = true)
    (hprint : o.fprintf = .failed k) (hyes : ∃ j, j < reTryTime ∧ o.reopen j = true)
    (text : Bytes) (s : Stdio) :
    (writeText o text s).2.trace = s.trace ++ reopenedTrace s.next := by
  obtain ⟨j, hj, hok⟩ := hyes
  rw [writeText_failed hopen hprint, reOpen,
    reOpenLoop_true (Nat.le_refl _) ⟨j, by omega, hj, hok⟩]
  show (finish _ _ _).2.trace = _
  rw [(finish_trace _ _ _).1, (fprintf_trace _ _ _ _).1]
  simp only [fopen, if_true, setBuffer_trace, touch_trace, (fclose_trace _ _ _).1,
    (fclose_trace _ _ _).2, fprintf]
  simp [reopenedTrace]

/-! ## The condition -/

/-- What a call meets when it goes well: the file cannot be opened at all; or the text is printed,
and if `fclose` succeeds the text has no NUL byte and no flush dropped a part of it; or the text
cannot be printed and the file cannot be opened again. -/
def WriteCall.Clean (c : WriteCall) : Prop :=
  c.outcomes.fopen = false
  ∨ (c.outcomes.fprintf = .ok ∧ (c.outcomes.fclose = .ok →
      (0 : UInt8) ∉ c.text ∧ ∀ k, c.outcomes.fflush = .lost k → c.text.length ≤ k))
  ∨ (c.outcomes.fprintf ≠ .ok ∧ ∀ k, k < reTryTime → c.outcomes.reopen k = false)

theorem passed_cStr_iff (o : FflushOutcome) (text : Bytes) :
    o.passed (cStr text) = text ↔ (0 : UInt8) ∉ text ∧ ∀ k, o = .lost k → text.length ≤ k := by
  constructor
  · intro h
    have htext : (0 : UInt8) ∉ text := by
      rw [← h]
      cases o with
      | ok => exact zero_notMem_cStr text
      | kept k => exact zero_notMem_cStr text
      | lost k => exact fun hmem => zero_notMem_cStr text (List.mem_of_mem_take hmem)
    refine ⟨htext, ?_⟩
    rintro k rfl
    rw [cStr_eq_self htext] at h
    have hlen : (text.take k).length = text.length := congrArg List.length h
    rw [List.length_take] at hlen
    omega
  · rintro ⟨htext, hlost⟩
    rw [cStr_eq_self htext]
    cases o with
    | ok => rfl
    | kept k => rfl
    | lost k => exact List.take_of_length_le (hlost k rfl)

/-- Both overloads print the C string of their text. -/
theorem perform_eq (c : WriteCall) (s : Stdio) :
    c.perform s = writeText c.outcomes (cStr c.text) s := by
  cases c with
  | string fileInfo o => rfl
  | chars fileInfo length o =>
    show writeText o (cStr fileInfo) s = writeText o (cStr (cStr fileInfo)) s
    rw [cStr_eq_self (zero_notMem_cStr fileInfo)]

/-! ## The trace of a call -/

/-- All handles of the trace have been given out. -/
def Stdio.Fresh (s : Stdio) : Prop := ∀ e ∈ s.trace, e.handle < s.next

section

variable {c : WriteCall} {s : Stdio} {tr : List (Event Nat)}

theorem performed_trace (htr : (c.perform s).2.trace = s.trace ++ tr) :
    (Performed.mk c s (c.perform s).1 (c.perform s).2).trace = tr := by
  unfold Performed.trace
  simp only [htr, List.drop_left]

/-- What a call with new handles does is judged by its own trace. -/
theorem perform_correct (hs : s.Fresh) (hsafe : Safe s.trace)
    (htr : (c.perform s).2.trace = s.trace ++ tr)
    (hnew : ∀ e ∈ tr, s.next ≤ e.handle ∧ e.handle < (c.perform s).2.next)
    (hnext : s.next ≤ (c.perform s).2.next) (hown : Safe tr) (hreleased : Released tr)
    (happended : (c.perform s).1 = success → (c.perform s).2.content = s.content ++ c.text) :
    (Performed.mk c s (c.perform s).1 (c.perform s).2).Correct ∧ (c.perform s).2.Fresh := by
  refine ⟨⟨?_, ?_, happended⟩, ?_⟩
  · show Safe (c.perform s).2.trace
    rw [htr, safe_append]
    · exact ⟨hsafe, hown⟩
    · intro x hx y hy heq
      have hold := hs x hx
      have hyoung := (hnew y hy).1
      omega
  · rw [performed_trace htr]
    exact hreleased
  · intro e he
    rw [htr] at he
    rcases List.mem_append.mp he with he | he
    · exact Nat.lt_of_lt_of_le (hs e he) hnext
    · exact (hnew e he).2

/-- A clean call does what it should, and leaves no handle behind. -/
theorem perform_of_clean (hs : s.Fresh) (hsafe : Safe s.trace) (hclean : c.Clean) :
    (Performed.mk c s (c.perform s).1 (c.perform s).2).Correct ∧ (c.perform s).2.Fresh := by
  have heq := perform_eq c s
  have hfailed {ret : Int32} {p : Prop} (hret : ret = failed) : ret = success → p := by
    intro hsuccess
    rw [hret] at hsuccess
    exact absurd hsuccess (by decide)
  cases hopen : c.outcomes.fopen with
  | false =>
    have hsame : c.perform s = (failed, s) := by
      rw [heq, writeText, hopen]
      rfl
    have htr : (c.perform s).2.trace = s.trace ++ [] := by rw [hsame, List.append_nil]
    exact perform_correct hs hsafe htr (by simp) (by rw [hsame]) (by simp [Safe])
      (by simp [Released]) (hfailed (by rw [hsame]))
  | true =>
    rcases hclean with hno | ⟨hprint, hclose⟩ | ⟨hprint, hno⟩
    · rw [hopen] at hno
      cases hno
    · obtain ⟨htr, hnext, hret, hcontent⟩ := writeText_printed hopen hprint (cStr c.text) s
      rw [← heq] at htr hnext hret hcontent
      refine perform_correct hs hsafe htr (by simp [printedTrace, Event.handle, hnext]) (by omega)
        (by simp [printedTrace, Safe, clash]) (by simp [printedTrace, Released]) fun hsuccess => ?_
      have hok := hret.mp hsuccess
      rw [hcontent hok, (passed_cStr_iff _ _).mpr (hclose hok)]
    · obtain ⟨k, hk⟩ : ∃ k, c.outcomes.fprintf = .failed k := by
        cases hcase : c.outcomes.fprintf with
        | ok => exact absurd hcase hprint
        | failed k => exact ⟨k, rfl⟩
      obtain ⟨hret, htr, hnext⟩ := writeText_lost hopen hk hno (cStr c.text) s
      rw [← heq] at hret htr hnext
      exact perform_correct hs hsafe htr (by simp [lostTrace, Event.handle, hnext]) (by omega)
        (by simp [lostTrace, Safe, clash]) (by simp [lostTrace, Released]) (hfailed hret)

/-- Any other call breaks a rule: it says that a text is in the file which is not, or it opened the
file again and lost the handle. -/
theorem clean_of_correct
    (h : (Performed.mk c s (c.perform s).1 (c.perform s).2).Correct) : c.Clean := by
  have heq := perform_eq c s
  cases hopen : c.outcomes.fopen with
  | false => exact .inl hopen
  | true =>
    cases hprint : c.outcomes.fprintf with
    | ok =>
      refine .inr (.inl ⟨hprint, fun hok => (passed_cStr_iff _ _).mp ?_⟩)
      obtain ⟨-, -, hret, hcontent⟩ := writeText_printed hopen hprint (cStr c.text) s
      rw [← heq] at hret hcontent
      have happended : (c.perform s).2.content = s.content ++ c.text := h.appended (hret.mpr hok)
      rw [hcontent hok] at happended
      exact List.append_cancel_left happended
    | failed k =>
      refine .inr (.inr ⟨by rw [hprint]; exact FprintfOutcome.noConfusion, fun j hj => ?_⟩)
      by_contra hyes
      have htr := writeText_reopened hopen hprint ⟨j, hj, by simpa using hyes⟩ (cStr c.text) s
      rw [← heq] at htr
      have hreleased := h.released
      rw [performed_trace htr] at hreleased
      have hone := hreleased (s.next + 1) (by simp [reopenedTrace])
      simp [reopenedTrace] at hone

end

/-- **When the log is written.** Over a run of calls no handle is used after it was closed, every
handle that a call opens is closed once when it returns, and a call that succeeds has appended its
text once, if and only if each call meets one of the cases of `Clean`. -/
theorem writes_correct_iff (content : Bytes) (calls : List WriteCall) :
    (∀ p ∈ writes (.start content) calls, p.Correct) ↔ ∀ c ∈ calls, c.Clean := by
  have hrun (s : Stdio) (hs : s.Fresh) (hsafe : Safe s.trace) :
      (∀ p ∈ writes s calls, p.Correct) ↔ ∀ c ∈ calls, c.Clean := by
    induction calls generalizing s with
    | nil => simp [writes]
    | cons c calls ih =>
      rw [writes, List.forall_mem_cons, List.forall_mem_cons]
      constructor
      · rintro ⟨hfirst, hrest⟩
        have hclean := clean_of_correct hfirst
        have hnext := perform_of_clean hs hsafe hclean
        exact ⟨hclean, (ih _ hnext.2 hfirst.safe).mp hrest⟩
      · rintro ⟨hclean, hcleans⟩
        have hnext := perform_of_clean hs hsafe hclean
        exact ⟨hnext.1, (ih _ hnext.2 hnext.1.safe).mpr hcleans⟩
  exact hrun (.start content) (by simp [Stdio.Fresh, Stdio.start]) (by simp [Safe, Stdio.start])

/-- The disk is full for a moment: the second handle is never closed. -/
theorem reopened_handle_lost :
    ¬ ∀ (content : Bytes) (calls : List WriteCall),
      ∀ p ∈ writes (.start content) calls, p.Correct := by
  intro h
  have hcorrect := h [] [.chars (ascii "text") 4
    ⟨true, .failed 0, .ok, fun _ => true, .ok, .ok, .ok⟩] _ List.mem_cons_self
  exact absurd hcorrect.safe (by decide)

end HomeKeeper.File
