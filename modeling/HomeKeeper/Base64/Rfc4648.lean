import HomeKeeper.Base64.Codec
import Mathlib.Data.List.Basic
import Mathlib.Tactic.IntervalCases

/-!
# The codec against RFC 4648

The abstract layer is the RFC's own description: three octets are one 24-bit group, read as
four 6-bit values of the standard alphabet; a final group of one or two octets is filled with
zero bits and closed with two or one `=`. The encoder computes this function and the decoder
inverts it.

* `mask_values` — what each mask of the source does to a byte, as arithmetic;
* `toNat_sextets`, `toNat_octets` — the two conversions as arithmetic on byte values;
* `foldl_encodeByte_group`, `foldl_decodeChar_group` — a whole group passes through the loop
  and leaves the counter at zero, whatever the array held before;
* `decodeTailWith_two`, `decodeTailWith_three` — the decoder's tail path, whatever it finds for
  the cells it has cleared;
* `encodeTail_foldl`, `decodeTail_foldl` — the induction over the groups.
-/

namespace HomeKeeper.Base64

open CData

/-! ## The RFC's encoding -/

namespace Rfc4648

/-- Table 1 of RFC 4648: the character of a 6-bit value. -/
def alphabet (n : Nat) : UInt8 :=
  if n < 26 then UInt8.ofNat (65 + n)
  else if n < 52 then UInt8.ofNat (97 + (n - 26))
  else if n < 62 then UInt8.ofNat (48 + (n - 52))
  else if n = 62 then 43
  else 47

def table : Bytes := (List.range 64).map alphabet

/-- The `k`-th 6-bit value of a 24-bit group, most significant first. -/
def sextet (group k : Nat) : Nat := group / 2 ^ (6 * (3 - k)) % 64

/-- The 24-bit group of three octets. -/
def group24 (x y z : UInt8) : Nat := x.toNat * 2 ^ 16 + y.toNat * 2 ^ 8 + z.toNat

/-- The characters of the first `n` 6-bit values of a group. -/
def quantum (group n : Nat) : Bytes := (List.range n).map fun k => alphabet (sextet group k)

/-- Section 4 of RFC 4648, with padding. -/
def encode : Bytes → Bytes
  | [] => []
  | [x] => quantum (group24 x 0 0) 2 ++ [61, 61]
  | [x, y] => quantum (group24 x y 0) 3 ++ [61]
  | x :: y :: z :: rest => quantum (group24 x y z) 4 ++ encode rest

end Rfc4648

open Rfc4648

/-! ## The bit operations as arithmetic -/

theorem mask_values : ∀ n < 256,
    n &&& 0xfc = n / 4 * 4 ∧ n &&& 0x03 = n % 4 ∧ n &&& 0xf0 = n / 16 * 16 ∧ n &&& 0x0f = n % 16
      ∧ n &&& 0xc0 = n / 64 * 64 ∧ n &&& 0x3f = n % 64 ∧ n &&& 0x30 = n / 16 % 4 * 16
      ∧ n &&& 0x3c = n / 4 % 16 * 4 := by
  decide +kernel

theorem toNat_sextets (x y z : UInt8) :
    (sextets #v[x, y, z]).toList.map UInt8.toNat
      = [x.toNat / 4, x.toNat % 4 * 16 + y.toNat / 16, y.toNat % 16 * 4 + z.toNat / 64,
         z.toNat % 64] := by
  have hx := x.toNat_lt
  have hy := y.toNat_lt
  have hz := z.toNat_lt
  have h0 := mask_values x.toNat hx
  have h1 := mask_values y.toNat hy
  have h2 := mask_values z.toNat hz
  simp [sextets, UInt8.toNat_add, UInt8.toNat_shiftLeft, UInt8.toNat_shiftRight, UInt8.toNat_and,
    Nat.shiftLeft_eq, Nat.shiftRight_eq_div_pow, h0, h1, h2]
  omega

theorem toNat_octets (w x y z : UInt8) :
    (octets #v[w, x, y, z]).toList.map UInt8.toNat
      = [(w.toNat * 4 + x.toNat / 16 % 4) % 256, (x.toNat % 16 * 16 + y.toNat / 4 % 16) % 256,
         (y.toNat % 4 * 64 + z.toNat) % 256] := by
  have h1 := mask_values x.toNat x.toNat_lt
  have h2 := mask_values y.toNat y.toNat_lt
  simp [octets, UInt8.toNat_add, UInt8.toNat_shiftLeft, UInt8.toNat_shiftRight, UInt8.toNat_and,
    Nat.shiftLeft_eq, Nat.shiftRight_eq_div_pow, h1, h2]

/-! ## The alphabet

`base64_chars` is the table of the RFC; the decoder accepts each of its characters and finds
its value again. -/

theorem base64Chars_eq : base64Chars = table := by decide +kernel

theorem getD_base64Chars (n : Nat) (hn : n < 64) : base64Chars.getD n 0 = alphabet n := by
  rw [base64Chars_eq, table, List.getD_eq_getElem?_getD, List.getElem?_map,
    List.getElem?_range hn]
  rfl

theorem find_of_idxOf {c : UInt8} {k : Nat} (h : table.idxOf? c = some k) :
    find c = UInt8.ofNat k := by
  have hchars : base64Chars.idxOf? c = some k := by
    rw [base64Chars_eq]
    exact h
  unfold find
  rw [hchars]

theorem idxOf_alphabet : ∀ n < 64, table.idxOf? (alphabet n) = some n := by decide +kernel

theorem accepts_alphabet : ∀ n < 64, accepts (alphabet n) = true := by decide +kernel

theorem sextet_lt (group k : Nat) : sextet group k < 64 := Nat.mod_lt _ (by omega)

theorem sextet_group24 (x y z : UInt8) :
    [sextet (group24 x y z) 0, sextet (group24 x y z) 1, sextet (group24 x y z) 2,
      sextet (group24 x y z) 3]
      = [x.toNat / 4, x.toNat % 4 * 16 + y.toNat / 16, y.toNat % 16 * 4 + z.toNat / 64,
         z.toNat % 64] := by
  have hx := x.toNat_lt
  have hy := y.toNat_lt
  have hz := z.toNat_lt
  simp only [sextet, group24, Nat.reduceSub, Nat.reduceMul, Nat.reducePow, List.cons.injEq,
    and_true]
  omega

theorem base64Char_of_lt {d : UInt8} (h : d.toNat < 64) : base64Char d = alphabet d.toNat :=
  getD_base64Chars d.toNat h

theorem quantum_succ (group n : Nat) :
    quantum group (n + 1) = quantum group n ++ [alphabet (sextet group n)] := by
  rw [quantum, List.range_succ, List.map_append]
  rfl

theorem quantum_two (group : Nat) :
    quantum group 2 = [alphabet (sextet group 0), alphabet (sextet group 1)] := by
  simp only [quantum_succ]
  rfl

theorem quantum_three (group : Nat) :
    quantum group 3
      = [alphabet (sextet group 0), alphabet (sextet group 1), alphabet (sextet group 2)] := by
  rw [quantum_succ, quantum_two]
  rfl

theorem quantum_four (group : Nat) :
    quantum group 4
      = [alphabet (sextet group 0), alphabet (sextet group 1), alphabet (sextet group 2),
         alphabet (sextet group 3)] := by
  rw [quantum_succ, quantum_three]
  rfl

/-- The characters the encoder emits for a full group are the RFC's. -/
theorem map_base64Char_sextets (x y z : UInt8) :
    (sextets #v[x, y, z]).toList.map base64Char = quantum (group24 x y z) 4 := by
  have hval := toNat_sextets x y z
  rw [← sextet_group24] at hval
  -- the four values, by position
  generalize (sextets #v[x, y, z]).toList = l at hval
  obtain ⟨d0, d1, d2, d3, rfl⟩ : ∃ d0 d1 d2 d3, l = [d0, d1, d2, d3] :=
    List.length_eq_four.mp (by simpa using congrArg List.length hval)
  simp only [List.map, List.cons.injEq, and_true] at hval
  obtain ⟨h0, h1, h2, h3⟩ := hval
  have hchar {d : UInt8} {k : Nat} (h : d.toNat = sextet (group24 x y z) k) :
      base64Char d = alphabet (sextet (group24 x y z) k) := by
    rw [base64Char_of_lt (h ▸ sextet_lt _ _), h]
  rw [quantum_four, List.map, List.map, List.map, List.map, List.map, hchar h0, hchar h1,
    hchar h2, hchar h3]

theorem take_quantum {n m : Nat} (group : Nat) (h : n ≤ m) :
    (quantum group m).take n = quantum group n := by
  rw [quantum, ← List.map_take, List.take_range, Nat.min_eq_left h]
  rfl

theorem all_accepts_quantum (group n : Nat) : ∀ c ∈ quantum group n, accepts c = true := by
  intro c hc
  obtain ⟨k, -, rfl⟩ := List.mem_map.mp hc
  exact accepts_alphabet _ (sextet_lt _ _)

/-! ## One group through the encoder -/

theorem zeroFrom_two (a : Vector UInt8 3) (x y : UInt8) :
    zeroFrom 2 ((a.set! 0 x).set! 1 y) = #v[x, y, 0] := by
  ext i hi
  interval_cases i <;> simp [zeroFrom]

theorem zeroFrom_one (a : Vector UInt8 3) (x : UInt8) : zeroFrom 1 (a.set! 0 x) = #v[x, 0, 0] := by
  ext i hi
  interval_cases i <;> simp [zeroFrom]

theorem foldl_encodeByte_group (a : Vector UInt8 3) (ret : Bytes) (x y z : UInt8) :
    [x, y, z].foldl encodeByte ⟨0, a, ret⟩
      = ⟨0, #v[x, y, z], ret ++ quantum (group24 x y z) 4⟩ := by
  have hset : ((a.set! 0 x).set! 1 y).set! 2 z = #v[x, y, z] := by
    ext i hi
    interval_cases i <;> simp
  simp only [List.foldl, encodeByte, Nat.reduceAdd, Nat.reduceEqDiff, if_false, if_true]
  rw [hset, map_base64Char_sextets]

/-- **The encoder computes the RFC's function.** Induction over the groups; the array left by
the group before is arbitrary, and so is what has been emitted. -/
theorem encodeTail_foldl (b : Bytes) (a : Vector UInt8 3) (ret : Bytes) :
    encodeTail (b.foldl encodeByte ⟨0, a, ret⟩) = ret ++ encode b := by
  induction b using encode.induct generalizing a ret with
  | case1 => simp [encodeTail, encode]
  | case2 x =>
    have hq : ((sextets #v[x, 0, 0]).toList.take 2).map base64Char
        = quantum (group24 x 0 0) 2 := by
      rw [List.map_take, map_base64Char_sextets, take_quantum _ (by omega)]
    simp only [List.foldl, encodeByte, encodeTail, Nat.reduceAdd, Nat.reduceEqDiff, if_false]
    rw [zeroFrom_one, hq, List.append_assoc]
    rfl
  | case3 x y =>
    have hq : ((sextets #v[x, y, 0]).toList.take 3).map base64Char
        = quantum (group24 x y 0) 3 := by
      rw [List.map_take, map_base64Char_sextets, take_quantum _ (by omega)]
    simp only [List.foldl, encodeByte, encodeTail, Nat.reduceAdd, Nat.reduceEqDiff, if_false]
    rw [zeroFrom_two, hq, List.append_assoc]
    rfl
  | case4 x y z rest ih =>
    rw [show x :: y :: z :: rest = [x, y, z] ++ rest from rfl, List.foldl_append,
      foldl_encodeByte_group, ih, List.append_assoc]
    rfl

/-! ## One group through the decoder -/

/-- The value the decoder finds for the `k`-th character of a group. -/
theorem toNat_find_alphabet (group k : Nat) :
    (find (alphabet (sextet group k))).toNat = sextet group k := by
  have hlt := sextet_lt group k
  rw [find_of_idxOf (idxOf_alphabet _ hlt), UInt8.toNat_ofNat', Nat.mod_eq_of_lt (by omega)]

theorem toNat_find_group24 (x y z : UInt8) :
    (find (alphabet (sextet (group24 x y z) 0))).toNat = x.toNat / 4
      ∧ (find (alphabet (sextet (group24 x y z) 1))).toNat = x.toNat % 4 * 16 + y.toNat / 16
      ∧ (find (alphabet (sextet (group24 x y z) 2))).toNat = y.toNat % 16 * 4 + z.toNat / 64
      ∧ (find (alphabet (sextet (group24 x y z) 3))).toNat = z.toNat % 64 := by
  have hs := sextet_group24 x y z
  simp only [List.cons.injEq, and_true] at hs
  simpa only [toNat_find_alphabet] using hs

/-- A prefix of the decoded bytes is known from its byte values. -/
theorem take_octets {w x y z : UInt8} {n : Nat} {l : Bytes}
    (h : [(w.toNat * 4 + x.toNat / 16 % 4) % 256, (x.toNat % 16 * 16 + y.toNat / 4 % 16) % 256,
          (y.toNat % 4 * 64 + z.toNat) % 256].take n = l.map UInt8.toNat) :
    (octets #v[w, x, y, z]).toList.take n = l := by
  refine List.map_injective_iff.mpr (fun x y => UInt8.toNat_inj.mp) ?_
  rw [List.map_take, toNat_octets, h]

/-- The three bytes of a group come back from its four values. -/
theorem octets_group {x y z d0 d1 d2 d3 : UInt8}
    (hv : d0.toNat = x.toNat / 4 ∧ d1.toNat = x.toNat % 4 * 16 + y.toNat / 16
      ∧ d2.toNat = y.toNat % 16 * 4 + z.toNat / 64 ∧ d3.toNat = z.toNat % 64) :
    (octets #v[d0, d1, d2, d3]).toList = [x, y, z] := by
  have hx := x.toNat_lt
  have hy := y.toNat_lt
  have hz := z.toNat_lt
  rw [← List.take_length (l := (octets _).toList), Vector.length_toList]
  refine take_octets ?_
  simp only [hv, List.take, List.map, List.cons.injEq, and_true]
  omega

theorem foldl_decodeChar_group (a : Vector UInt8 4) (ret : Bytes) (w x y z : UInt8) :
    [w, x, y, z].foldl decodeChar ⟨0, a, ret⟩
      = ⟨0, #v[find w, find x, find y, find z],
          ret ++ (octets #v[find w, find x, find y, find z]).toList⟩ := by
  have hset : (((a.set! 0 w).set! 1 x).set! 2 y).set! 3 z = #v[w, x, y, z] := by
    ext i hi
    interval_cases i <;> simp
  have hmap : (#v[w, x, y, z]).map find = #v[find w, find x, find y, find z] := by simp
  simp only [List.foldl, decodeChar, Nat.reduceAdd, Nat.reduceEqDiff, if_false, if_true]
  rw [hset, hmap]

/-- The tail path with the values `v` in the cells behind the characters left over; the source
has there what it looks up for a cleared cell. -/
def decodeTailWith (v : Vector UInt8 4) (st : DecState) : Bytes :=
  if st.i = 0 then st.ret
  else
    let a := Vector.ofFn fun j : Fin 4 => if j.val < st.i then find st.charArray4[j] else v[j]
    st.ret ++ (octets a).toList.take (st.i - 1)

theorem decodeTail_eq (st : DecState) :
    decodeTail st = decodeTailWith (Vector.replicate 4 (find 0)) st := by
  have hcells : (zeroFrom st.i st.charArray4).map find
      = Vector.ofFn fun j : Fin 4 =>
          if j.val < st.i then find st.charArray4[j]
          else (Vector.replicate 4 (find 0))[j] := by
    ext j hj
    by_cases hlt : j < st.i
    · simp [zeroFrom, hlt]
    · simp [zeroFrom, hlt]
  rw [decodeTail, decodeTailWith, hcells]

theorem decodeTailWith_one (v a : Vector UInt8 4) (ret : Bytes) (c0 : UInt8) :
    decodeTailWith v ([c0].foldl decodeChar ⟨0, a, ret⟩) = ret := by
  simp [decodeTailWith, decodeChar]

/-- Two characters left over; the other two cells are whatever `v` has there. -/
theorem decodeTailWith_two (v a : Vector UInt8 4) (ret : Bytes) (c0 c1 : UInt8) :
    ∃ d2 d3, decodeTailWith v ([c0, c1].foldl decodeChar ⟨0, a, ret⟩)
      = ret ++ (octets #v[find c0, find c1, d2, d3]).toList.take 1 := by
  have hcells : (Vector.ofFn fun j : Fin 4 =>
      if j.val < 2 then find ((a.set! 0 c0).set! 1 c1)[j] else v[j])
      = #v[find c0, find c1, v[2], v[3]] := by
    ext j hj
    interval_cases j <;> simp
  refine ⟨v[2], v[3], ?_⟩
  simp only [List.foldl, decodeChar, decodeTailWith, Nat.reduceAdd, Nat.reduceEqDiff, if_false]
  rw [hcells]

theorem decodeTailWith_three (v a : Vector UInt8 4) (ret : Bytes) (c0 c1 c2 : UInt8) :
    ∃ d3, decodeTailWith v ([c0, c1, c2].foldl decodeChar ⟨0, a, ret⟩)
      = ret ++ (octets #v[find c0, find c1, find c2, d3]).toList.take 2 := by
  have hcells : (Vector.ofFn fun j : Fin 4 =>
      if j.val < 3 then find (((a.set! 0 c0).set! 1 c1).set! 2 c2)[j] else v[j])
      = #v[find c0, find c1, find c2, v[3]] := by
    ext j hj
    interval_cases j <;> simp
  refine ⟨v[3], ?_⟩
  simp only [List.foldl, decodeChar, decodeTailWith, Nat.reduceAdd, Nat.reduceEqDiff, if_false]
  rw [hcells]

/-- Two characters left over: their values give one byte. -/
theorem decodeTail_two (a : Vector UInt8 4) (ret : Bytes) {c0 c1 x : UInt8}
    (h0 : (find c0).toNat = x.toNat / 4) (h1 : (find c1).toNat = x.toNat % 4 * 16) :
    decodeTail ([c0, c1].foldl decodeChar ⟨0, a, ret⟩) = ret ++ [x] := by
  have hx := x.toNat_lt
  obtain ⟨d2, d3, htail⟩ := decodeTailWith_two (Vector.replicate 4 (find 0)) a ret c0 c1
  rw [decodeTail_eq, htail, take_octets (n := 1) (l := [x])]
  simp only [h0, h1, List.take, List.map, List.cons.injEq, and_true]
  omega

/-- Three characters left over: their values give two bytes. -/
theorem decodeTail_three (a : Vector UInt8 4) (ret : Bytes) {c0 c1 c2 x y : UInt8}
    (h0 : (find c0).toNat = x.toNat / 4)
    (h1 : (find c1).toNat = x.toNat % 4 * 16 + y.toNat / 16)
    (h2 : (find c2).toNat = y.toNat % 16 * 4) :
    decodeTail ([c0, c1, c2].foldl decodeChar ⟨0, a, ret⟩) = ret ++ [x, y] := by
  have hx := x.toNat_lt
  have hy := y.toNat_lt
  obtain ⟨d3, htail⟩ := decodeTailWith_three (Vector.replicate 4 (find 0)) a ret c0 c1 c2
  rw [decodeTail_eq, htail, take_octets (n := 2) (l := [x, y])]
  simp only [h0, h1, h2, List.take, List.map, List.cons.injEq, and_true]
  omega

/-- **The decoder inverts the RFC's function.** Induction over the groups: the characters of a
quantum are all accepted, and the first pad ends the loop. -/
theorem decodeTail_foldl (b : Bytes) (a : Vector UInt8 4) (ret : Bytes) :
    decodeTail (((encode b).takeWhile accepts).foldl decodeChar ⟨0, a, ret⟩) = ret ++ b := by
  have hpad : accepts 61 = false := by decide
  induction b using encode.induct generalizing a ret with
  | case1 => simp [decodeTail, encode]
  | case2 x =>
    rw [encode, List.takeWhile_append_of_pos (all_accepts_quantum _ _),
      List.takeWhile_cons_of_neg (by simp [hpad]), List.append_nil, quantum_two]
    obtain ⟨h0, h1, -⟩ := toNat_find_group24 x 0 0
    exact decodeTail_two a ret h0 h1
  | case3 x y =>
    rw [encode, List.takeWhile_append_of_pos (all_accepts_quantum _ _),
      List.takeWhile_cons_of_neg (by simp [hpad]), List.append_nil, quantum_three]
    obtain ⟨h0, h1, h2, -⟩ := toNat_find_group24 x y 0
    exact decodeTail_three a ret h0 h1 h2
  | case4 x y z rest ih =>
    rw [encode, List.takeWhile_append_of_pos (all_accepts_quantum _ _), List.foldl_append,
      quantum_four, foldl_decodeChar_group, octets_group (toNat_find_group24 x y z), ih,
      List.append_assoc]
    rfl

theorem length_encode (b : Bytes) : (encode b).length = 4 * ((b.length + 2) / 3) := by
  induction b using encode.induct with
  | case1 => rfl
  | case2 x => simp [encode, quantum]
  | case3 x y => simp [encode, quantum]
  | case4 x y z rest ih =>
    have hq : (quantum (group24 x y z) 4).length = 4 := by simp [quantum]
    rw [encode, List.length_append, hq, ih]
    simp only [List.length_cons]
    omega

/-! ## The codec -/

/-- **Encoding and round trip.** On every byte string the encoder's output is the RFC 4648
encoding, and the decoder returns the string. The bound keeps the encoded length inside the
decoder's `int`. -/
theorem base64_encode_decode (b : Bytes) (hb : b.length < 2 ^ 30) :
    base64Encode b (UInt32.ofNat b.length) = Rfc4648.encode b
      ∧ base64Decode (base64Encode b (UInt32.ofNat b.length)) = b := by
  have henc : base64Encode b (UInt32.ofNat b.length) = Rfc4648.encode b := by
    rw [base64Encode_eq (by omega), encodeTail_foldl, List.nil_append]
  refine ⟨henc, ?_⟩
  have hlen : (Rfc4648.encode b).length < 2 ^ 31 := by
    rw [length_encode]
    omega
  rw [henc, base64Decode_eq hlen, decodeTail_foldl, List.nil_append]

/-- `foobar` and its prefixes are the RFC's test vectors; two bytes take the tail path. -/
theorem base64_encode_decode_fooba :
    (ascii "fooba").length < 2 ^ 30
      ∧ base64Encode (ascii "fooba") 5 = ascii "Zm9vYmE="
      ∧ base64Decode (ascii "Zm9vYmE=") = ascii "fooba" := by
  have h := base64_encode_decode (ascii "fooba") (by decide)
  have henc : Rfc4648.encode (ascii "fooba") = ascii "Zm9vYmE=" := by decide
  refine ⟨by decide, ?_, ?_⟩
  · exact h.1.trans henc
  · have h2 := h.2
    rw [h.1, henc] at h2
    exact h2

end HomeKeeper.Base64
