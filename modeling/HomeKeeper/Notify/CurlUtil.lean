import HomeKeeper.Notify.WorkFunctions

/-!
# `curl.hpp` — the address that `curlUtil` fetches

libcurl hands the body of an answer to `copy_data` in chunks. Each call copies its chunk to a block
of just its size and assigns that block, as a C string, to the global `result`: so a chunk replaces
the ones before it, and the text runs on into the heap behind the block until a NUL byte comes.
`curlUtil` then cuts `result` at its first character that is no digit and no dot. Where there is
none, the position stays 0 and the text that is returned is empty.

A chunk has at most `CURL_MAX_WRITE_SIZE` bytes, so the `int` counters do not wrap. `shift` is never
read.
-/

namespace HomeKeeper.Notify

open CData

/-! ## The answer -/

/-- What libcurl does in one call of `curlUtil`. -/
structure Answer where
  /-- `curl_easy_init` returned a handle. -/
  init : Bool
  /-- The `CURLcode` of `curl_easy_perform`. -/
  code : Nat
  chunks : List Bytes
  deriving DecidableEq, Repr

/-- `copy_data`: the new `result`. `behind` is the heap from the end of `res_buf` on. -/
def copyData (chunk behind : Bytes) : Bytes := cStr (chunk ++ behind)

/-- The calls of `copy_data` in one transfer; `heap n` lies behind the block of the `n`-th call. -/
def copyAll : (Nat → Bytes) → List Bytes → Bytes → Bytes
  | _, [], result => result
  | heap, chunk :: chunks, _ => copyAll (fun n => heap (n + 1)) chunks (copyData chunk (heap 0))

def isAddressChar (c : UInt8) : Bool := isdigit c || c == 46

/-- The loop that looks for `position`, from index `i` on. -/
def position : Bytes → Nat → Nat
  | [], _ => 0
  | c :: cs, i => if isAddressChar c then position cs (i + 1) else i

/-- `curlUtil`: what it returns, and `result` after it. -/
def curlUtil (t : Answer) (heap : Nat → Bytes) (result : Bytes) : Bytes × Bytes :=
  if t.init then
    let result := copyAll heap t.chunks result
    if t.code ≠ 0 then (ascii "failed", result)
    else (result.take (position result 0), result)
  else (result.take (position result 0), result)

/-! ## The scan -/

theorem position_of_all {s : Bytes} (h : ∀ c ∈ s, isAddressChar c = true) (i : Nat) :
    position s i = 0 := by
  induction s generalizing i with
  | nil => rfl
  | cons c s ih =>
    rw [position, if_pos (h c List.mem_cons_self)]
    exact ih (fun d hd => h d (List.mem_cons_of_mem c hd)) (i + 1)

theorem position_of_exists {s : Bytes} (h : ∃ c ∈ s, isAddressChar c = false) (i : Nat) :
    position s i = i + (s.takeWhile isAddressChar).length := by
  induction s generalizing i with
  | nil =>
    obtain ⟨c, hc, -⟩ := h
    cases hc
  | cons c s ih =>
    rw [position]
    split
    · rename_i hc
      have hs : ∃ d ∈ s, isAddressChar d = false := by
        obtain ⟨d, hd, hbad⟩ := h
        rcases List.mem_cons.mp hd with rfl | hd
        · rw [hc] at hbad
          cases hbad
        · exact ⟨d, hd, hbad⟩
      rw [ih hs, List.takeWhile_cons_of_pos hc, List.length_cons]
      omega
    · rename_i hc
      rw [List.takeWhile_cons_of_neg hc]
      rfl

/-- A text of digits and dots alone is cut to nothing. -/
theorem cut_of_all {s : Bytes} (h : ∀ c ∈ s, isAddressChar c = true) :
    s.take (position s 0) = [] := by
  rw [position_of_all h, List.take_zero]

theorem cut_of_exists {s : Bytes} (h : ∃ c ∈ s, isAddressChar c = false) :
    s.take (position s 0) = s.takeWhile isAddressChar := by
  rw [position_of_exists h, Nat.zero_add]
  exact (List.prefix_iff_eq_take.mp (List.takeWhile_prefix _)).symm

theorem all_or_exists (s : Bytes) :
    (∀ c ∈ s, isAddressChar c = true) ∨ ∃ c ∈ s, isAddressChar c = false := by
  by_cases h : ∃ c ∈ s, isAddressChar c = false
  · exact .inr h
  · exact .inl fun c hc => by
      by_contra hbad
      exact h ⟨c, hc, by simpa using hbad⟩

/-- The scan ends inside the first text if that has a character to end it. -/
theorem takeWhile_append_of_mem {c : UInt8} {a b : Bytes} (hc : c ∈ a)
    (hbad : isAddressChar c = false) :
    (a ++ b).takeWhile isAddressChar = a.takeWhile isAddressChar := by
  rw [List.takeWhile_append, if_neg]
  intro hlen
  have hsame : a.takeWhile isAddressChar = a :=
    (List.takeWhile_prefix isAddressChar).eq_of_length hlen
  have hgood := List.takeWhile_eq_self_iff.mp hsame c hc
  rw [hbad] at hgood
  cases hgood

/-! ## What `curlUtil` returns -/

/-- The text of a result. -/
def CurlResult.text : CurlResult → Bytes
  | .failed => ascii "failed"
  | .address a => a.text

theorem cut_chars (s : Bytes) : ((s.take (position s 0)).all isAddressChar) = true := by
  rcases all_or_exists s with h | h
  · rw [cut_of_all h]
    rfl
  · rw [cut_of_exists h]
    exact List.all_takeWhile

/-- `curlUtil` gives the threads nothing but `"failed"` and texts of digits and dots. -/
theorem curlUtil_text (t : Answer) (heap : Nat → Bytes) (result : Bytes) :
    ∃ r : CurlResult, (curlUtil t heap result).1 = r.text := by
  unfold curlUtil
  split
  · split
    · exact ⟨.failed, rfl⟩
    · exact ⟨.address ⟨_, cut_chars _⟩, rfl⟩
  · exact ⟨.address ⟨_, cut_chars _⟩, rfl⟩

/-! ## The last chunk -/

/-- Only the last chunk is left in `result`. -/
theorem copyAll_append_singleton (heap : Nat → Bytes) (pre : List Bytes) (last result : Bytes) :
    copyAll heap (pre ++ [last]) result = cStr (last ++ heap pre.length) := by
  induction pre generalizing heap result with
  | nil => rfl
  | cons c pre ih =>
    show copyAll (fun n => heap (n + 1)) (pre ++ [last]) _ = _
    rw [ih]
    rfl

theorem curlUtil_last {pre : List Bytes} {last : Bytes} (h0 : (0 : UInt8) ∉ last)
    (heap : Nat → Bytes) (result : Bytes) :
    (curlUtil ⟨true, 0, pre ++ [last]⟩ heap result).1
      = (last ++ cStr (heap pre.length)).take
          (position (last ++ cStr (heap pre.length)) 0) := by
  show (copyAll heap (pre ++ [last]) result).take _ = _
  rw [copyAll_append_singleton, cStr_append_left h0]

/-- A last chunk that ends the address in itself is all that counts. -/
theorem curlUtil_of_exists {pre : List Bytes} {last : Bytes} (h0 : (0 : UInt8) ∉ last)
    (h : ∃ c ∈ last, isAddressChar c = false) (heap : Nat → Bytes) (result : Bytes) :
    (curlUtil ⟨true, 0, pre ++ [last]⟩ heap result).1 = last.takeWhile isAddressChar := by
  obtain ⟨c, hc, hbad⟩ := h
  rw [curlUtil_last h0, cut_of_exists ⟨c, List.mem_append_left _ hc, hbad⟩,
    takeWhile_append_of_mem hc hbad]

/-! ## When the address is right -/

/-- The text that an answer stands for. -/
def leadingAddress (chunks : List Bytes) : Bytes := chunks.flatten.takeWhile isAddressChar

theorem leadingAddress_append_iff (pre : List Bytes) (last : Bytes) :
    last.takeWhile isAddressChar = leadingAddress (pre ++ [last])
      ↔ pre.flatten = [] ∨ (∃ c ∈ pre.flatten, isAddressChar c = false)
          ∧ leadingAddress pre = last.takeWhile isAddressChar := by
  unfold leadingAddress
  rw [List.flatten_append, List.flatten_singleton]
  rcases all_or_exists pre.flatten with hall | ⟨c, hc, hbad⟩
  · rw [List.takeWhile_append_of_pos hall]
    constructor
    · intro heq
      exact .inl (List.append_left_eq_self.mp heq.symm)
    · rintro (hnil | ⟨⟨c, hc, hbad⟩, -⟩)
      · rw [hnil, List.nil_append]
      · rw [hall c hc] at hbad
        cases hbad
  · rw [takeWhile_append_of_mem hc hbad]
    constructor
    · intro heq
      exact .inr ⟨⟨c, hc, hbad⟩, heq.symm⟩
    · rintro (hnil | ⟨-, heq⟩)
      · rw [hnil] at hc
        cases hc
      · exact heq.symm

/-- **When `curlUtil` returns the address.** Whatever `result` held before and whatever lies on the
heap, a transfer that succeeds gives the leading digits and dots of its body, if and only if the
last chunk has a character that ends them, and the chunks before it are empty or give the same. -/
theorem curl_util_exact_iff (chunks : List Bytes) (h0 : ∀ c ∈ chunks, (0 : UInt8) ∉ c) :
    (∀ heap result, (curlUtil ⟨true, 0, chunks⟩ heap result).1 = leadingAddress chunks)
      ↔ ∃ pre last, chunks = pre ++ [last] ∧ (∃ c ∈ last, isAddressChar c = false)
          ∧ (pre.flatten = [] ∨ (∃ c ∈ pre.flatten, isAddressChar c = false)
              ∧ leadingAddress pre = last.takeWhile isAddressChar) := by
  constructor
  · intro h
    rcases List.eq_nil_or_concat chunks with rfl | ⟨pre, last, rfl⟩
    · -- no chunk: the earlier content is what is cut
      exact absurd (h (fun _ => []) (ascii "1\n")) (by decide)
    · rw [List.concat_eq_append] at h h0 ⊢
      have hlast0 : (0 : UInt8) ∉ last := h0 last (by simp)
      rcases all_or_exists last with hall | hbad
      · -- the heap decides: nothing behind the block against another digit
        have hnone := h (fun _ => []) []
        have hmore := h (fun _ => ascii "1\n") []
        rw [← hnone, curlUtil_last hlast0, curlUtil_last hlast0] at hmore
        have hcut : (last ++ cStr []).take (position (last ++ cStr []) 0) = [] := by
          apply cut_of_all
          rw [show cStr [] = [] from rfl, List.append_nil]
          exact hall
        have hrun : (last ++ cStr (ascii "1\n")).take
            (position (last ++ cStr (ascii "1\n")) 0) = last ++ ascii "1" := by
          rw [cut_of_exists ⟨10, List.mem_append_right last (by decide), by decide⟩,
            List.takeWhile_append_of_pos hall]
          rfl
        rw [hcut, hrun] at hmore
        exact absurd (List.append_eq_nil_iff.mp hmore).2 (by decide)
      · refine ⟨pre, last, rfl, hbad, (leadingAddress_append_iff pre last).mp ?_⟩
        rw [← curlUtil_of_exists hlast0 hbad (fun _ => []) []]
        exact h (fun _ => []) []
  · rintro ⟨pre, last, rfl, hbad, hpre⟩ heap result
    rw [curlUtil_of_exists (h0 last (by simp)) hbad]
    exact (leadingAddress_append_iff pre last).mpr hpre

/-- A first chunk with a line end, and a last one that begins with the same address. -/
theorem curl_util_exact_iff_repeated :
    (curlUtil ⟨true, 0, [ascii "1.2.3.4\n", ascii "1.2.3.4\r\n"]⟩ (fun _ => ascii "5")
        (ascii "6\n")).1
      = leadingAddress [ascii "1.2.3.4\n", ascii "1.2.3.4\r\n"] := by
  refine (curl_util_exact_iff [ascii "1.2.3.4\n", ascii "1.2.3.4\r\n"] (by decide)).mpr ?_ _ _
  refine ⟨[ascii "1.2.3.4\n"], ascii "1.2.3.4\r\n", rfl, ⟨10, by decide, by decide⟩, .inr ⟨?_, ?_⟩⟩
  · exact ⟨10, by decide, by decide⟩
  · decide

/-- An answer in two chunks loses the first. -/
theorem split_answer_loses_chunk :
    ¬ ∀ chunks : List Bytes, (∀ c ∈ chunks, (0 : UInt8) ∉ c) →
      ∀ heap result, (curlUtil ⟨true, 0, chunks⟩ heap result).1 = leadingAddress chunks := by
  intro h
  have htwo := h [ascii "1.2.", ascii "3.4\n"] (by decide) (fun _ => []) []
  exact absurd htwo (by decide)

end HomeKeeper.Notify
