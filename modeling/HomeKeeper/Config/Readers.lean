import HomeKeeper.Lib.CData

/-!
# The two readers of the configuration

`getfile` (`common/common.cpp`), for the frame master, reads lines into `char buffer[256]` and lets
`getline` store up to 9999 characters. It loops until `eof ()`: a line that is longer still sets
only `failbit`, and a stream that has failed never comes to its end. `file::getRes`
(`include/file.hpp`), for the other master, reads into `char buf[1024]` with
`fread (buf, 1024, 1024, fp)`, which is a mebibyte, and takes what is there as a C string.

A store past the end of a buffer is undefined. `stored` tells how many bytes were written to the
buffer, and for the rest the store is taken to do no harm.
-/

namespace HomeKeeper.Config

open CData

/-! ## `getfile` -/

/-- A `std::ifstream`: what is left of the file, `eofbit` and `failbit`. -/
structure IStream where
  rest : Bytes
  eof : Bool
  fail : Bool
  deriving DecidableEq, Repr

/-- `in.getline (.., n)`: the characters it stores, before a NUL, and the stream after it. -/
def getline (n : Nat) (s : IStream) : Bytes × IStream :=
  -- on a stream that is not `good ()` nothing is extracted
  if s.eof || s.fail then ([], { s with fail := true })
  else
    let line := (s.rest.takeWhile (· ≠ 10)).take (n - 1)
    match s.rest.drop line.length with
    -- no character at all is a failure, too
    | [] => (line, ⟨[], true, line = []⟩)
    | c :: rest => if c = 10 then (line, ⟨rest, false, false⟩) else (line, ⟨c :: rest, false, true⟩)

/-- The variables of `getfile`, and the sizes of the stores to `buffer`. -/
structure GetFile where
  stream : IStream
  result : Bytes
  stored : List Nat
  deriving DecidableEq, Repr

def GetFile.start (content : Bytes) : GetFile := ⟨⟨content, false, false⟩, [], []⟩

/-- The body of the loop. -/
def GetFile.step (s : GetFile) : GetFile :=
  let r := getline 10000 s.stream
  ⟨r.2, s.result ++ cStr r.1, s.stored ++ [r.1.length + 1]⟩

/-- `while (!in.eof ())`, for at most `n` rounds. -/
def GetFile.loop (s : GetFile) : Nat → GetFile
  | 0 => s
  | n + 1 => if s.stream.eof then s else s.step.loop n

def getfile (content : Bytes) (n : Nat) : GetFile := (GetFile.start content).loop n

/-! ## `file::getRes` -/

/-- The bytes that `fread` stores. -/
def fread (content : Bytes) : Bytes := content.take (1024 * 1024)

/-- The memory from `buf` on after the `fread`; `behind` lay behind `buf` before. -/
def memory (content behind : Bytes) : Bytes :=
  fread content ++ List.replicate (1024 - (fread content).length) 0
    ++ behind.drop ((fread content).length - 1024)

/-- `resBuf = buf`. -/
def getRes (content behind : Bytes) : Bytes := cStr (memory content behind)

/-! ## The purpose -/

/-- What both readers should do with a file. -/
structure ReadersExact (content : Bytes) : Prop where
  /-- `getfile` ends, inside its buffer, with the content less its newlines. -/
  getfile : ∃ n, (getfile content n).stream.eof = true
    ∧ (getfile content n).result = content.filter (· ≠ 10)
    ∧ ∀ k ∈ (getfile content n).stored, k ≤ 256
  /-- `getRes` stays inside its buffer and returns the content. -/
  getRes : ∀ behind, (fread content).length ≤ 1024 ∧ getRes content behind = content

/-- The lines of a file; the last one is what follows the last newline. -/
def lines (content : Bytes) : List Bytes := content.splitOn 10

/-! ## One line -/

/-- Line by line: a file is its last line, or a line, a newline and the rest. -/
@[elab_as_elim]
theorem lines_induction {motive : Bytes → Prop}
    (last : ∀ line : Bytes, (10 : UInt8) ∉ line → motive line)
    (line : ∀ line rest : Bytes, (10 : UInt8) ∉ line → motive rest → motive (line ++ 10 :: rest))
    (content : Bytes) : motive content := by
  induction hsize : content.length using Nat.strong_induction_on generalizing content with
  | _ size ih =>
    by_cases h : (10 : UInt8) ∈ content
    · obtain ⟨front, rest, rfl, hfront⟩ := List.eq_append_cons_of_mem h
      apply line front rest hfront
      refine ih rest.length ?_ rest rfl
      rw [← hsize, List.length_append, List.length_cons]
      omega
    · exact last content h

theorem ne_newline {line : Bytes} (h : (10 : UInt8) ∉ line) :
    ∀ c ∈ line, decide (c ≠ 10) = true := by
  intro c hc
  have hne : c ≠ 10 := by
    rintro rfl
    exact h hc
  simpa using hne

theorem getline_line {line rest : Bytes} (h : (10 : UInt8) ∉ line) (hlen : line.length ≤ 9999) :
    getline 10000 ⟨line ++ 10 :: rest, false, false⟩ = (line, ⟨rest, false, false⟩) := by
  unfold getline
  simp only [takeWhile_ne_append_cons h]
  rw [List.take_of_length_le (show line.length ≤ 10000 - 1 by omega), List.drop_left]
  rfl

theorem getline_last {line : Bytes} (h : (10 : UInt8) ∉ line) (hlen : line.length ≤ 9999) :
    getline 10000 ⟨line, false, false⟩ = (line, ⟨[], true, line = []⟩) := by
  unfold getline
  simp only [takeWhile_ne_self h]
  rw [List.take_of_length_le (show line.length ≤ 10000 - 1 by omega), List.drop_length]
  rfl

/-- A line that is too long only makes the stream fail. -/
theorem getline_long {content line : Bytes}
    (hline : content.takeWhile (fun c => decide (c ≠ 10)) = line) (hlen : 9999 < line.length) :
    (getline 10000 ⟨content, false, false⟩).2.eof = false
      ∧ (getline 10000 ⟨content, false, false⟩).2.fail = true := by
  have htake : (line.take (10000 - 1)).length = 9999 := by
    rw [List.length_take]
    omega
  -- the character behind those that fit belongs to the line
  obtain ⟨c, rest, hrest, hc⟩ : ∃ c rest, content.drop 9999 = c :: rest ∧ c ≠ 10 := by
    have hsplit : content = line ++ content.dropWhile (fun c => decide (c ≠ 10)) := by
      rw [← hline, List.takeWhile_append_dropWhile]
    have hne : line.drop 9999 ≠ [] := by
      rw [ne_eq, List.drop_eq_nil_iff]
      omega
    obtain ⟨c, more, hmore⟩ := List.exists_cons_of_ne_nil hne
    have hmem : c ∈ line := List.mem_of_mem_drop (hmore ▸ List.mem_cons_self)
    refine ⟨c, more ++ content.dropWhile (fun c => decide (c ≠ 10)), ?_, ?_⟩
    · rw [hsplit, List.drop_append_of_le_length (by omega), hmore, ← hsplit]
      rfl
    · rw [← hline] at hmem
      simpa using List.mem_takeWhile_imp hmem
  unfold getline
  simp only [hline, htake, hrest]
  simp [hc]

/-! ## The loop -/

theorem lines_line {line rest : Bytes} (h : (10 : UInt8) ∉ line) :
    lines (line ++ 10 :: rest) = line :: lines rest := by
  unfold lines
  rw [List.splitOn_append_cons_self_of_not_mem h]

theorem lines_last {line : Bytes} (h : (10 : UInt8) ∉ line) : lines line = [line] :=
  List.splitOn_eq_singleton h

theorem filter_line {line rest : Bytes} (h : (10 : UInt8) ∉ line) :
    (line ++ 10 :: rest).filter (fun c => decide (c ≠ 10))
      = line ++ rest.filter (fun c => decide (c ≠ 10)) := by
  rw [List.filter_append, List.filter_eq_self.mpr (ne_newline h), List.filter_cons_of_neg (by simp)]

/-- The loop ends when no line is too long, and has stored each line. -/
theorem loop_ends {content : Bytes} (h0 : (0 : UInt8) ∉ content)
    (hlen : ∀ l ∈ lines content, l.length ≤ 9999) (result : Bytes) (stored : List Nat) :
    ∃ n s, GetFile.loop ⟨⟨content, false, false⟩, result, stored⟩ n = s ∧ s.stream.eof = true
      ∧ s.result = result ++ content.filter (· ≠ 10)
      ∧ s.stored = stored ++ (lines content).map (·.length + 1) := by
  induction content using lines_induction generalizing result stored with
  | last line hline =>
    rw [lines_last hline] at hlen ⊢
    refine ⟨1, _, rfl, ?_⟩
    show (getline 10000 _).2.eof = true ∧ _ ++ cStr (getline 10000 _).1 = _
      ∧ _ ++ [(getline 10000 _).1.length + 1] = _
    rw [getline_last hline (hlen line (by simp)), cStr_eq_self h0,
      List.filter_eq_self.mpr (ne_newline hline)]
    exact ⟨rfl, rfl, rfl⟩
  | line line rest hline ih =>
    rw [lines_line hline, List.forall_mem_cons] at hlen
    rw [List.mem_append, not_or] at h0
    obtain ⟨n, s, hs, heof, hresult, hstored⟩ :=
      ih (fun h => h0.2 (List.mem_cons_of_mem 10 h)) hlen.2 (result ++ line)
        (stored ++ [line.length + 1])
    refine ⟨n + 1, s, ?_, heof, ?_, ?_⟩
    · show (GetFile.step _).loop n = s
      unfold GetFile.step
      simp only [getline_line hline hlen.1, cStr_eq_self h0.1]
      exact hs
    · rw [hresult, filter_line hline, List.append_assoc]
    · rw [hstored, lines_line hline, List.append_assoc]
      rfl

/-- A stream that has failed never comes to its end. -/
theorem loop_failed {s : GetFile} (heof : s.stream.eof = false) (hfail : s.stream.fail = true)
    (n : Nat) : (s.loop n).stream.eof = false := by
  induction n generalizing s with
  | zero => exact heof
  | succ n ih =>
    have hline : getline 10000 s.stream = ([], { s.stream with fail := true }) := by
      rw [getline, hfail, Bool.or_true]
      rfl
    unfold GetFile.loop
    rw [heof]
    apply ih
    · show (getline 10000 s.stream).2.eof = false
      rw [hline]
      exact heof
    · show (getline 10000 s.stream).2.fail = true
      rw [hline]

theorem loop_long {content : Bytes} (hlen : ∃ l ∈ lines content, 9999 < l.length)
    (result : Bytes) (stored : List Nat) (n : Nat) :
    (GetFile.loop ⟨⟨content, false, false⟩, result, stored⟩ n).stream.eof = false := by
  induction content using lines_induction generalizing result stored n with
  | last line hline =>
    rw [lines_last hline] at hlen
    obtain ⟨l, hl, hlong⟩ := hlen
    rw [List.mem_singleton.mp hl] at hlong
    cases n with
    | zero => rfl
    | succ n =>
      obtain ⟨heof, hfail⟩ := getline_long (takeWhile_ne_self hline) hlong
      exact loop_failed heof hfail n
  | line line rest hline ih =>
    cases n with
    | zero => rfl
    | succ n =>
      show (GetFile.loop (GetFile.step _) n).stream.eof = false
      by_cases hfirst : line.length ≤ 9999
      · have hrest : ∃ l ∈ lines rest, 9999 < l.length := by
          rw [lines_line hline] at hlen
          obtain ⟨l, hl, hlong⟩ := hlen
          rcases List.mem_cons.mp hl with rfl | hl
          · omega
          · exact ⟨l, hl, hlong⟩
        unfold GetFile.step
        simp only [getline_line hline hfirst]
        exact ih hrest _ _ n
      · obtain ⟨heof, hfail⟩ := getline_long (takeWhile_ne_append_cons hline rest) (by omega)
        exact loop_failed heof hfail n

/-- **When `getfile` ends:** no line has more than 9999 bytes. -/
theorem getfile_ends_iff {content : Bytes} (h0 : (0 : UInt8) ∉ content) :
    (∃ n, (getfile content n).stream.eof = true) ↔ ∀ l ∈ lines content, l.length ≤ 9999 := by
  constructor
  · rintro ⟨n, hn⟩ l hl
    by_contra hlong
    have hnever := loop_long ⟨l, hl, by omega⟩ [] [] n
    rw [show getfile content n = GetFile.loop ⟨⟨content, false, false⟩, [], []⟩ n from rfl,
      hnever] at hn
    cases hn
  · intro hlen
    obtain ⟨n, s, hs, heof, -⟩ := loop_ends h0 hlen [] []
    refine ⟨n, ?_⟩
    show (GetFile.loop ⟨⟨content, false, false⟩, [], []⟩ n).stream.eof = true
    rw [hs]
    exact heof

/-- Once it has ended, the loop has one result. -/
theorem loop_unique {s : GetFile} {n m : Nat} (hn : (s.loop n).stream.eof = true)
    (hm : (s.loop m).stream.eof = true) : s.loop n = s.loop m := by
  have hstop {s : GetFile} (heof : s.stream.eof = true) (k : Nat) : s.loop k = s := by
    cases k with
    | zero => rfl
    | succ k => rw [GetFile.loop, if_pos heof]
  induction n generalizing s m with
  | zero => exact (hstop hn m).symm
  | succ n ih =>
    by_cases heof : s.stream.eof = true
    · rw [hstop heof, hstop heof]
    · cases m with
      | zero => exact absurd hm heof
      | succ m =>
        rw [GetFile.loop, if_neg heof] at hn hm ⊢
        rw [GetFile.loop, if_neg heof]
        exact ih hn hm

/-! ## `fread` -/

theorem getRes_short {content : Bytes} (h0 : (0 : UInt8) ∉ content) (hlen : content.length ≤ 1023)
    (behind : Bytes) : (fread content).length ≤ 1024 ∧ getRes content behind = content := by
  have hread : fread content = content := List.take_of_length_le (by omega)
  refine ⟨by rw [hread]; omega, ?_⟩
  unfold getRes memory
  rw [hread, show 1024 - content.length = 1023 - content.length + 1 by omega,
    List.replicate_succ, List.append_assoc, List.cons_append, cStr_append_zero h0]

/-- A full buffer has no room for the terminator. -/
theorem length_le_of_getRes {content : Bytes} (h0 : (0 : UInt8) ∉ content)
    (h : ∀ behind, (fread content).length ≤ 1024 ∧ getRes content behind = content) :
    content.length ≤ 1023 := by
  have hle : content.length ≤ 1024 := by
    have hstored := (h []).1
    rw [fread, List.length_take] at hstored
    omega
  by_contra hlong
  have hread : fread content = content := List.take_of_length_le (by omega)
  have hmemory : memory content [1] = content ++ [1] := by
    unfold memory
    rw [hread, show 1024 - content.length = 0 by omega, show content.length - 1024 = 0 by omega]
    simp
  have hres := (h [1]).2
  rw [getRes, hmemory, cStr_append_left h0] at hres
  exact absurd (List.append_right_eq_self.mp hres) (by decide)

/-- **When the configuration is read as it is.** Both readers end, stay inside their buffers and
lose nothing but newlines, if and only if the file has at most 1023 bytes and no line of it more
than 255. -/
theorem readers_exact_iff (content : Bytes) (h0 : (0 : UInt8) ∉ content) :
    ReadersExact content ↔ content.length ≤ 1023 ∧ ∀ l ∈ lines content, l.length ≤ 255 := by
  have hends (hlen : ∀ l ∈ lines content, l.length ≤ 9999) := loop_ends h0 hlen [] []
  constructor
  · rintro ⟨⟨n, heof, hresult, hstored⟩, hres⟩
    refine ⟨length_le_of_getRes h0 hres, fun l hl => ?_⟩
    obtain ⟨m, s, hs, hseof, -, hsstored⟩ := hends ((getfile_ends_iff h0).mp ⟨n, heof⟩)
    have hsame : getfile content n = s := by
      rw [← hs] at hseof ⊢
      exact loop_unique heof hseof
    have hone := hstored (l.length + 1) (by
      rw [hsame, hsstored]
      exact List.mem_map_of_mem hl)
    omega
  · rintro ⟨hlen, hlines⟩
    obtain ⟨n, s, hs, heof, hresult, hstored⟩ := hends fun l hl => by
      have := hlines l hl
      omega
    refine ⟨⟨n, ?_⟩, getRes_short h0 hlen⟩
    rw [show getfile content n = s from hs]
    refine ⟨heof, hresult, ?_⟩
    rw [hstored, List.nil_append]
    intro k hk
    obtain ⟨l, hl, rfl⟩ := List.mem_map.mp hk
    have := hlines l hl
    omega

/-- Two short lines. -/
theorem readers_exact_iff_two_lines :
    ReadersExact (ascii "a\nb") :=
  (readers_exact_iff (ascii "a\nb") (by decide)).mpr ⟨by decide, by decide⟩

/-- A file of 1024 bytes. -/
theorem full_buffer_not_exact :
    ¬ ∀ content : Bytes, (0 : UInt8) ∉ content → ReadersExact content := by
  intro h
  have h0 : (0 : UInt8) ∉ List.replicate 1024 97 :=
    fun hmem => absurd (List.eq_of_mem_replicate hmem) (by decide)
  have hlen := length_le_of_getRes h0 (h _ h0).getRes
  rw [List.length_replicate] at hlen
  omega

end HomeKeeper.Config
