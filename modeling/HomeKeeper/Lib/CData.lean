import Mathlib.Algebra.Group.Nat.Defs
import Mathlib.Data.List.TakeWhile

/-!
# C data: strings, character buffers, integers in memory

The objects of a C program as byte lists. A C string is read up to its first NUL byte
(`cStr`); `snprintf (buf, n, "%s", s)` stores at most `n - 1` bytes of it and a terminator,
and leaves the rest of the buffer as it was (`charBuf`); an `int` is four bytes, least
significant first (`le32`, `readLe32`). `field` reads a member of a block by its offset and
is `none` when the member does not lie inside the block.
-/

namespace CData

abbrev Bytes := List UInt8

/-- The bytes of an ASCII text. -/
def ascii (s : String) : Bytes := s.toList.map fun c => UInt8.ofNat c.toNat

/-- The C string that starts a byte list: everything before the first NUL. -/
def cStr (b : Bytes) : Bytes := b.takeWhile (· ≠ 0)

/-- The text `snprintf (buf, n, "%s", s)` leaves in `buf`. -/
def snprintfS (n : Nat) (s : Bytes) : Bytes := (cStr s).take (n - 1)

/-- `char buf[n]` after `snprintf (buf, n, "%s", s)`; `junk` is what the rest of the buffer
held before. -/
def charBuf (n : Nat) (s : Bytes) (junk : Nat → UInt8) : Bytes :=
  snprintfS n s ++ 0 :: (List.range (n - 1 - (snprintfS n s).length)).map junk

/-- The bytes of an `int`, least significant first. -/
def le32 (x : Int32) : Bytes :=
  let n := x.toUInt32.toNat
  [UInt8.ofNat n, UInt8.ofNat (n / 2 ^ 8), UInt8.ofNat (n / 2 ^ 16), UInt8.ofNat (n / 2 ^ 24)]

/-- The `int` stored in the first four bytes. -/
def readLe32 (b : Bytes) : Int32 :=
  (UInt32.ofNat ((b.getD 0 0).toNat + 2 ^ 8 * (b.getD 1 0).toNat + 2 ^ 16 * (b.getD 2 0).toNat
    + 2 ^ 24 * (b.getD 3 0).toNat)).toInt32

/-- The `len` bytes at offset `off` of a block, `none` when they do not all lie inside it. -/
def field (block : Bytes) (off len : Nat) : Option Bytes :=
  if off + len ≤ block.length then some ((block.drop off).take len) else none

/-- `isspace` of the C locale. -/
def isspace (c : UInt8) : Bool := c == 32 || (9 ≤ c && c ≤ 13)

/-- `isdigit`. -/
def isdigit (c : UInt8) : Bool := 48 ≤ c && c ≤ 57

/-- `isalnum` of the C locale. -/
def isalnum (c : UInt8) : Bool :=
  isdigit c || (65 ≤ c && c ≤ 90) || (97 ≤ c && c ≤ 122)

/-- The value of the leading decimal digits. -/
def decimal (s : Bytes) : Nat :=
  (s.takeWhile isdigit).foldl (fun n c => 10 * n + (c.toNat - 48)) 0

/-- `atoi`: blanks, an optional sign, digits; what follows is ignored. -/
def atoi (s : Bytes) : Int32 :=
  match (cStr s).dropWhile isspace with
  | 45 :: digits => Int32.ofInt (-(decimal digits : Int))
  | 43 :: digits => Int32.ofInt (decimal digits)
  | digits => Int32.ofInt (decimal digits)

/-! ## C strings -/

theorem zero_notMem_cStr (b : Bytes) : (0 : UInt8) ∉ cStr b := by
  intro h
  have := List.mem_takeWhile_imp h
  simp at this

/-- A scan for a byte that is not there runs through. -/
theorem takeWhile_ne_append {x : UInt8} {a : Bytes} (h : x ∉ a) (b : Bytes) :
    (a ++ b).takeWhile (fun c => decide (c ≠ x)) = a ++ b.takeWhile (fun c => decide (c ≠ x)) := by
  refine List.takeWhile_append_of_pos ?_
  intro c hc
  have : c ≠ x := by rintro rfl; exact h hc
  simpa using this

theorem takeWhile_ne_self {x : UInt8} {a : Bytes} (h : x ∉ a) :
    a.takeWhile (fun c => decide (c ≠ x)) = a := by
  have := takeWhile_ne_append h []
  rwa [List.append_nil, List.takeWhile_nil, List.append_nil] at this

/-- It stops at the first one. -/
theorem takeWhile_ne_append_cons {x : UInt8} {a : Bytes} (h : x ∉ a) (b : Bytes) :
    (a ++ x :: b).takeWhile (fun c => decide (c ≠ x)) = a := by
  rw [takeWhile_ne_append h, List.takeWhile_cons_of_neg (by simp), List.append_nil]

theorem cStr_eq_self {b : Bytes} (h : (0 : UInt8) ∉ b) : cStr b = b := takeWhile_ne_self h

theorem cStr_append_left {a b : Bytes} (h : (0 : UInt8) ∉ a) : cStr (a ++ b) = a ++ cStr b :=
  takeWhile_ne_append h b

theorem cStr_append_zero {b c : Bytes} (h : (0 : UInt8) ∉ b) : cStr (b ++ 0 :: c) = b :=
  takeWhile_ne_append_cons h c

theorem zero_notMem_snprintfS (n : Nat) (s : Bytes) : (0 : UInt8) ∉ snprintfS n s :=
  fun h => zero_notMem_cStr s (List.mem_of_mem_take h)

theorem length_snprintfS_le (n : Nat) (s : Bytes) : (snprintfS n s).length ≤ n - 1 :=
  List.length_take_le _ _

theorem snprintfS_eq_self {n : Nat} {s : Bytes} (h0 : (0 : UInt8) ∉ s) (hn : s.length ≤ n - 1) :
    snprintfS n s = s := by
  rw [snprintfS, cStr_eq_self h0, List.take_of_length_le hn]

/-! ## Character buffers -/

theorem length_charBuf {n : Nat} (hn : 0 < n) (s : Bytes) (junk : Nat → UInt8) :
    (charBuf n s junk).length = n := by
  have := length_snprintfS_le n s
  simp only [charBuf, List.length_append, List.length_cons, List.length_map, List.length_range]
  omega

/-- The buffer read back as a C string is the text that was stored. -/
theorem cStr_charBuf (n : Nat) (s : Bytes) (junk : Nat → UInt8) :
    cStr (charBuf n s junk) = snprintfS n s :=
  cStr_append_zero (zero_notMem_snprintfS n s)

theorem zero_mem_charBuf (n : Nat) (s : Bytes) (junk : Nat → UInt8) :
    (0 : UInt8) ∈ charBuf n s junk := by
  simp [charBuf]

/-- A C string does not read past its terminator. -/
theorem cStr_append_of_mem {b c : Bytes} (h : (0 : UInt8) ∈ b) : cStr (b ++ c) = cStr b := by
  induction b with
  | nil => simp at h
  | cons x b ih =>
    by_cases hx : x = 0
    · simp [cStr, hx]
    · have hb : (0 : UInt8) ∈ b := by
        rcases List.mem_cons.mp h with h | h
        · exact absurd h.symm hx
        · exact h
      have hkeep : (fun y : UInt8 => decide (y ≠ 0)) x = true := by simpa using hx
      unfold cStr at ih ⊢
      rw [List.cons_append, List.takeWhile_cons_of_pos (p := fun y => decide (y ≠ 0)) hkeep,
        List.takeWhile_cons_of_pos (p := fun y => decide (y ≠ 0)) hkeep, ih hb]

theorem cStr_append_cons_zero (b c : Bytes) : cStr (b ++ 0 :: c) = cStr b := by
  by_cases h : (0 : UInt8) ∈ b
  · exact cStr_append_of_mem h
  · rw [cStr_append_zero h, cStr_eq_self h]

/-! ## Integers in memory -/

@[simp] theorem length_le32 (x : Int32) : (le32 x).length = 4 := rfl

theorem readLe32_le32_append (x : Int32) (rest : Bytes) : readLe32 (le32 x ++ rest) = x := by
  have hlt : x.toUInt32.toNat < 2 ^ 32 := x.toUInt32.toNat_lt
  have hnat : (UInt8.ofNat x.toUInt32.toNat).toNat
      + 2 ^ 8 * (UInt8.ofNat (x.toUInt32.toNat / 2 ^ 8)).toNat
      + 2 ^ 16 * (UInt8.ofNat (x.toUInt32.toNat / 2 ^ 16)).toNat
      + 2 ^ 24 * (UInt8.ofNat (x.toUInt32.toNat / 2 ^ 24)).toNat = x.toUInt32.toNat := by
    simp only [UInt8.toNat_ofNat']
    omega
  show (UInt32.ofNat _).toInt32 = x
  rw [show ((le32 x ++ rest).getD 0 0).toNat + 2 ^ 8 * ((le32 x ++ rest).getD 1 0).toNat
      + 2 ^ 16 * ((le32 x ++ rest).getD 2 0).toNat + 2 ^ 24 * ((le32 x ++ rest).getD 3 0).toNat
      = x.toUInt32.toNat from hnat, UInt32.ofNat_toNat]
  rfl

/-! ## Members of a block -/

/-- A member that starts where a prefix of the block ends. -/
theorem field_append {a b c : Bytes} {off len : Nat} (ha : a.length = off) (hb : b.length = len) :
    field (a ++ b ++ c) off len = some b := by
  subst ha hb
  simp [field]

end CData
