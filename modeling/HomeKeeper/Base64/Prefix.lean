import HomeKeeper.Base64.Rfc4648
import HomeKeeper.Lib.Bits

/-!
# The decoder on every string

The abstract layer is the bit string of RFC 4648 read backwards: the characters of the longest
prefix over the alphabet, six bits each, cut into bytes; bits that fill no byte are dropped.
`base64_decode` computes this function on every string its `int` can count, well formed or not.

* `accepts_iff`, `toNat_find` — the loop condition is the alphabet, the value looked up is the
  position in the table;
* `sixBits_four` — the 24 bits of a group, cut into three bytes as the masks of the source do;
* `decodeTailWith_foldl` — the induction over the groups, with any values in the cleared cells of
  the last one.
-/

namespace HomeKeeper.Base64

open CData Bits

namespace Rfc4648

/-- The longest prefix over the alphabet. -/
def alphabetPrefix (x : Bytes) : Bytes := x.takeWhile (· ∈ table)

/-- The 6-bit values of the characters of `p`, one after the other. -/
def sixBits (p : Bytes) : List Bool := p.flatMap fun c => toBits 6 (table.idxOf c)

/-- The first `n` bytes of a bit string. -/
def bytes (n : Nat) (bs : List Bool) : Bytes := (words 8 n bs).map UInt8.ofNat

end Rfc4648

open Rfc4648

/-- `base64_decode` with the values `v` in the cleared cells of the tail path. -/
def base64DecodeWith (v : Vector UInt8 4) (encodedString : Bytes) : Bytes :=
  decodeTailWith v (decodeLoop (Int32.ofNat encodedString.length).toInt encodedString
    ⟨0, Vector.replicate 4 0, []⟩)

/-! ## The alphabet -/

/-- Table 1 by ranges. -/
theorem exists_alphabet {c : UInt8} (hc : isBase64 c = true) : ∃ n < 64, alphabet n = c := by
  have hback {n : Nat} (hn : n = c.toNat) : UInt8.ofNat n = c := by rw [hn, UInt8.ofNat_toNat]
  simp only [isBase64, isalnum, isdigit, Bool.and_eq_true, Bool.or_eq_true, decide_eq_true_eq,
    beq_iff_eq, UInt8.le_iff_toNat_le] at hc
  obtain (((⟨hlo, hhi⟩ | ⟨hlo, hhi⟩) | ⟨hlo, hhi⟩) | rfl) | rfl := hc
  · change 48 ≤ c.toNat at hlo
    change c.toNat ≤ 57 at hhi
    refine ⟨c.toNat - 48 + 52, by omega, ?_⟩
    rw [alphabet, if_neg (by omega), if_neg (by omega), if_pos (by omega)]
    exact hback (by omega)
  · change 65 ≤ c.toNat at hlo
    change c.toNat ≤ 90 at hhi
    refine ⟨c.toNat - 65, by omega, ?_⟩
    rw [alphabet, if_pos (by omega)]
    exact hback (by omega)
  · change 97 ≤ c.toNat at hlo
    change c.toNat ≤ 122 at hhi
    refine ⟨c.toNat - 97 + 26, by omega, ?_⟩
    rw [alphabet, if_neg (by omega), if_pos (by omega)]
    exact hback (by omega)
  · exact ⟨62, by decide, rfl⟩
  · exact ⟨63, by decide, rfl⟩

theorem accepts_iff (c : UInt8) : accepts c = true ↔ c ∈ table := by
  rw [table, List.mem_map]
  constructor
  · intro hc
    have hbase : isBase64 c = true := by
      rw [accepts, Bool.and_eq_true] at hc
      exact hc.2
    obtain ⟨n, hn, heq⟩ := exists_alphabet hbase
    exact ⟨n, List.mem_range.mpr hn, heq⟩
  · rintro ⟨n, hn, rfl⟩
    exact accepts_alphabet n (List.mem_range.mp hn)

theorem idxOf_lt {c : UInt8} (hc : c ∈ table) : table.idxOf c < 64 := by
  have hlen : table.length = 64 := by simp [table]
  rw [← hlen]
  exact List.idxOf_lt_length_iff.mpr hc

theorem toNat_find {c : UInt8} (hc : c ∈ table) : (find c).toNat = table.idxOf c := by
  have hlt := idxOf_lt hc
  obtain ⟨k, hk⟩ := Option.isSome_iff_exists.mp (List.isSome_idxOf?.mpr hc)
  have hidx : table.idxOf c = k := by rw [List.idxOf_eq_getD_idxOf?, hk, Option.getD_some]
  rw [hidx] at hlt ⊢
  rw [find_of_idxOf hk]
  exact UInt8.toNat_ofNat_of_lt' (Nat.lt_trans hlt (by decide))

/-! ## The bits of a group

Each lemma cuts one more byte off the bits of the one before. -/

theorem sixBits_two (c0 c1 : UInt8) (rest : Bytes) :
    sixBits (c0 :: c1 :: rest)
      = toBits 8 (table.idxOf c0 * 4 + table.idxOf c1 / 16 % 4)
        ++ (toBits 4 (table.idxOf c1) ++ sixBits rest) := by
  have hcut (m n : Nat) : toBits 6 m ++ toBits 6 n = toBits 8 (m * 4 + n / 16 % 4) ++ toBits 4 n :=
    toBits_append_toBits 6 2 4 m n
  show toBits 6 _ ++ (toBits 6 _ ++ sixBits rest) = _
  rw [← List.append_assoc, hcut, List.append_assoc]

theorem sixBits_three (c0 c1 c2 : UInt8) (rest : Bytes) :
    sixBits (c0 :: c1 :: c2 :: rest)
      = toBits 8 (table.idxOf c0 * 4 + table.idxOf c1 / 16 % 4)
        ++ (toBits 8 (table.idxOf c1 * 16 + table.idxOf c2 / 4 % 16)
          ++ (toBits 2 (table.idxOf c2) ++ sixBits rest)) := by
  have hcut (m n : Nat) : toBits 4 m ++ toBits 6 n = toBits 8 (m * 16 + n / 4 % 16) ++ toBits 2 n :=
    toBits_append_toBits 4 4 2 m n
  rw [sixBits_two]
  show _ ++ (toBits 4 _ ++ (toBits 6 _ ++ sixBits rest)) = _
  rw [← List.append_assoc (toBits 4 _), hcut, List.append_assoc]

theorem sixBits_four (c0 c1 c2 c3 : UInt8) (rest : Bytes) :
    sixBits (c0 :: c1 :: c2 :: c3 :: rest)
      = toBits 8 (table.idxOf c0 * 4 + table.idxOf c1 / 16 % 4)
        ++ (toBits 8 (table.idxOf c1 * 16 + table.idxOf c2 / 4 % 16)
          ++ (toBits 8 (table.idxOf c2 * 64 + table.idxOf c3 % 64) ++ sixBits rest)) := by
  have hcut (m n : Nat) : toBits 2 m ++ toBits 6 n = toBits 8 (m * 64 + n % 64) := by
    have h := toBits_append_toBits 2 6 0 m n
    rwa [Nat.pow_zero, Nat.div_one, toBits, List.append_nil] at h
  rw [sixBits_three]
  show _ ++ (_ ++ (toBits 2 _ ++ (toBits 6 _ ++ sixBits rest))) = _
  rw [← List.append_assoc (toBits 2 _), hcut]

@[simp] theorem bytes_zero (bs : List Bool) : bytes 0 bs = [] := rfl

theorem bytes_succ (n v : Nat) (bs : List Bool) :
    bytes (n + 1) (toBits 8 v ++ bs) = UInt8.ofNat v :: bytes n bs := by
  rw [bytes, words_succ, List.map_cons]
  congr 1
  exact UInt8.toNat_inj.mp (by simp)

/-- The three bytes the source computes from four values. -/
theorem octets_eq (w x y z : UInt8) :
    (octets #v[w, x, y, z]).toList
      = [w.toNat * 4 + x.toNat / 16 % 4, x.toNat * 16 + y.toNat / 4 % 16,
         y.toNat * 64 + z.toNat].map UInt8.ofNat := by
  have hlen : (octets #v[w, x, y, z]).toList.length = 3 := Vector.length_toList
  rw [← List.take_of_length_le (Nat.le_of_eq hlen)]
  refine take_octets ?_
  simp only [List.take, List.map, UInt8.toNat_ofNat', Nat.reducePow, List.cons.injEq, true_and,
    and_true]
  omega

/-! ## The loop and the tail -/

/-- Induction over the groups of the decoder. -/
theorem groups_induction {motive : Bytes → Prop} (nil : motive []) (one : ∀ c0, motive [c0])
    (two : ∀ c0 c1, motive [c0, c1]) (three : ∀ c0 c1 c2, motive [c0, c1, c2])
    (four : ∀ c0 c1 c2 c3 rest, motive rest → motive (c0 :: c1 :: c2 :: c3 :: rest)) :
    ∀ p, motive p
  | [] => nil
  | [c0] => one c0
  | [c0, c1] => two c0 c1
  | [c0, c1, c2] => three c0 c1 c2
  | c0 :: c1 :: c2 :: c3 :: rest =>
    four c0 c1 c2 c3 rest (groups_induction nil one two three four rest)

/-- **The bytes of a prefix.** The array left by the group before is arbitrary, and so are the
values in the cleared cells of the last group: the bits that fill a byte are all the prefix's
own. -/
theorem decodeTailWith_foldl (v : Vector UInt8 4) {p : Bytes} (hp : ∀ c ∈ p, c ∈ table)
    (a : Vector UInt8 4) (ret : Bytes) :
    decodeTailWith v (p.foldl decodeChar ⟨0, a, ret⟩)
      = ret ++ bytes (6 * p.length / 8) (sixBits p) := by
  induction p using groups_induction generalizing a ret with
  | nil => simp [decodeTailWith]
  | one c0 =>
    have hcount : 6 * [c0].length / 8 = 0 := by simp
    rw [decodeTailWith_one, hcount, bytes_zero, List.append_nil]
  | two c0 c1 =>
    have h0 := toNat_find (hp c0 (by simp))
    have h1 := toNat_find (hp c1 (by simp))
    have hcount : 6 * [c0, c1].length / 8 = 0 + 1 := by simp
    obtain ⟨d2, d3, htail⟩ := decodeTailWith_two v a ret c0 c1
    rw [htail, octets_eq, h0, h1, hcount, sixBits_two, bytes_succ, bytes_zero]
    rfl
  | three c0 c1 c2 =>
    have h0 := toNat_find (hp c0 (by simp))
    have h1 := toNat_find (hp c1 (by simp))
    have h2 := toNat_find (hp c2 (by simp))
    have hcount : 6 * [c0, c1, c2].length / 8 = 0 + 1 + 1 := by simp
    obtain ⟨d3, htail⟩ := decodeTailWith_three v a ret c0 c1 c2
    rw [htail, octets_eq, h0, h1, h2, hcount, sixBits_three, bytes_succ, bytes_succ, bytes_zero]
    rfl
  | four c0 c1 c2 c3 rest ih =>
    have h0 := toNat_find (hp c0 (by simp))
    have h1 := toNat_find (hp c1 (by simp))
    have h2 := toNat_find (hp c2 (by simp))
    have h3 := toNat_find (hp c3 (by simp))
    have hlt := idxOf_lt (hp c3 (by simp))
    have hrest : ∀ c ∈ rest, c ∈ table := fun c hc => hp c (by simp [hc])
    have hcount : 6 * (c0 :: c1 :: c2 :: c3 :: rest).length / 8
        = 6 * rest.length / 8 + 1 + 1 + 1 := by
      simp only [List.length_cons]
      omega
    rw [show c0 :: c1 :: c2 :: c3 :: rest = [c0, c1, c2, c3] ++ rest from rfl, List.foldl_append,
      foldl_decodeChar_group, ih hrest, octets_eq, h0, h1, h2, h3]
    rw [show [c0, c1, c2, c3] ++ rest = c0 :: c1 :: c2 :: c3 :: rest from rfl, hcount,
      sixBits_four, bytes_succ, bytes_succ, bytes_succ, Nat.mod_eq_of_lt hlt, List.append_assoc]
    rfl

theorem takeWhile_accepts (x : Bytes) : x.takeWhile accepts = alphabetPrefix x := by
  have heq : accepts = fun c => decide (c ∈ table) := by
    funext c
    rw [Bool.eq_iff_iff, accepts_iff, decide_eq_true_eq]
  rw [heq, alphabetPrefix]

theorem base64DecodeWith_eq (v : Vector UInt8 4) {x : Bytes} (hx : x.length < 2 ^ 31) :
    base64DecodeWith v x
      = bytes (6 * (alphabetPrefix x).length / 8) (sixBits (alphabetPrefix x)) := by
  have hlen : (Int32.ofNat x.length).toInt = (x.length : Int) := Int32.toInt_ofNat_of_lt hx
  have hall : ∀ c ∈ alphabetPrefix x, c ∈ table := fun c hc => by
    simpa using List.mem_takeWhile_imp hc
  rw [base64DecodeWith, hlen, decodeLoop_length, takeWhile_accepts, decodeTailWith_foldl v hall,
    List.nil_append]

/-- **The decoder on every string.** The output is the first `6 * m / 8` bytes of the 6-bit
values of the longest prefix over the alphabet, `m` its length. So a string with the same prefix
decodes to the same bytes, and so does a tail path that finds any other values in its cleared
cells. -/
theorem base64_decode_prefix (x : Bytes) (hx : x.length < 2 ^ 31) :
    base64Decode x = bytes (6 * (alphabetPrefix x).length / 8) (sixBits (alphabetPrefix x))
    ∧ (∀ y : Bytes, y.length < 2 ^ 31 → alphabetPrefix y = alphabetPrefix x →
        base64Decode y = base64Decode x)
    ∧ ∀ v : Vector UInt8 4, base64DecodeWith v x = base64Decode x := by
  have hcode (y : Bytes) : base64Decode y = base64DecodeWith (Vector.replicate 4 (find 0)) y :=
    decodeTail_eq _
  refine ⟨?_, ?_, ?_⟩
  · rw [hcode, base64DecodeWith_eq _ hx]
  · intro y hy hprefix
    rw [hcode, hcode, base64DecodeWith_eq _ hx, base64DecodeWith_eq _ hy, hprefix]
  · intro v
    rw [hcode, base64DecodeWith_eq _ hx, base64DecodeWith_eq _ hx]

/-- Three characters with bits to spare, then junk. -/
theorem base64_decode_prefix_junk :
    (ascii "QUJ!=Q").length < 2 ^ 31 ∧ alphabetPrefix (ascii "QUJ!=Q") = ascii "QUJ"
      ∧ base64Decode (ascii "QUJ!=Q") = ascii "AB"
      ∧ base64Decode (ascii "QUJ") = base64Decode (ascii "QUJ!=Q")
      ∧ base64DecodeWith #v[0, 0, 0, 17] (ascii "QUJ!=Q") = base64Decode (ascii "QUJ!=Q") := by
  have hprefix : alphabetPrefix (ascii "QUJ!=Q") = ascii "QUJ" := by decide
  have h := base64_decode_prefix (ascii "QUJ!=Q") (by decide)
  refine ⟨by decide, hprefix, ?_, ?_, ?_⟩
  · rw [h.1, hprefix]
    decide
  · exact h.2.1 (ascii "QUJ") (by decide) (by decide)
  · exact h.2.2 _

end HomeKeeper.Base64
