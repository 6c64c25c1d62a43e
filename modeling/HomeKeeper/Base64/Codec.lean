import HomeKeeper.Lib.CData

/-!
# `include/base64.hpp` — the Base64 encoder and decoder

Both functions run byte by byte over their input. A counter `i` says how much of the current
group (`char_array_3` in the encoder, `char_array_4` in the decoder) is filled; a full group is
converted and appended to `ret`, and a group left over at the end goes through a separate tail
path. The arrays are the source's: what an earlier group left in them stays until it is
overwritten.
-/

namespace HomeKeeper.Base64

open CData

/-- `base64_chars`. -/
def base64Chars : Bytes :=
  ascii "ABCDEFGHIJKLMNOPQRSTUVWXYZabcdefghijklmnopqrstuvwxyz0123456789+/"

/-- `is_base64`. -/
def isBase64 (c : UInt8) : Bool := isalnum c || c == 43 || c == 47

/-- The padding character `=`. -/
def pad : UInt8 := 61

/-- `for (j = i; j < n; j++) a[j] = 0`. -/
def zeroFrom {n : Nat} (i : Nat) (a : Vector UInt8 n) : Vector UInt8 n :=
  Vector.ofFn fun j : Fin n => if j.val < i then a[j] else 0

/-! ## Encoder -/

/-- The locals of `base64_encode` that live across iterations. -/
structure EncState where
  i : Nat
  charArray3 : Vector UInt8 3
  ret : Bytes

/-- `char_array_4` computed from `char_array_3`. -/
def sextets (a : Vector UInt8 3) : Vector UInt8 4 :=
  #v[(a[0] &&& 0xfc) >>> 2,
     ((a[0] &&& 0x03) <<< 4) + ((a[1] &&& 0xf0) >>> 4),
     ((a[1] &&& 0x0f) <<< 2) + ((a[2] &&& 0xc0) >>> 6),
     a[2] &&& 0x3f]

/-- `base64_chars[d]`. -/
def base64Char (d : UInt8) : UInt8 := base64Chars.getD d.toNat 0

/-- One iteration of the encoder's loop. -/
def encodeByte (st : EncState) (b : UInt8) : EncState :=
  let a := st.charArray3.set! st.i b
  if st.i + 1 = 3 then
    { i := 0, charArray3 := a, ret := st.ret ++ (sextets a).toList.map base64Char }
  else
    { st with i := st.i + 1, charArray3 := a }

/-- `while (in_len--)`: the second equation is reached only when the caller passes a length
beyond its buffer, which no caller does. -/
def encodeLoop : Nat → Bytes → EncState → EncState
  | 0, _, st => st
  | _ + 1, [], st => st
  | n + 1, b :: bs, st => encodeLoop n bs (encodeByte st b)

/-- The `if (i)` block: zero the rest of the group, emit `i + 1` characters and `3 - i` pads. -/
def encodeTail (st : EncState) : Bytes :=
  if st.i = 0 then st.ret
  else
    let a := zeroFrom st.i st.charArray3
    st.ret ++ ((sextets a).toList.take (st.i + 1)).map base64Char
      ++ List.replicate (3 - st.i) pad

/-- `base64_encode (bytes_to_encode, in_len)`. The array is not initialised in the source;
every cell is written before it is read. -/
def base64Encode (bytesToEncode : Bytes) (inLen : UInt32) : Bytes :=
  encodeTail (encodeLoop inLen.toNat bytesToEncode ⟨0, Vector.replicate 3 0, []⟩)

/-! ## Decoder -/

/-- The locals of `base64_decode` that live across iterations. -/
structure DecState where
  i : Nat
  charArray4 : Vector UInt8 4
  ret : Bytes

/-- `(unsigned char) base64_chars.find (c)`: `npos` is cut to 255. -/
def find (c : UInt8) : UInt8 :=
  match base64Chars.idxOf? c with
  | some k => UInt8.ofNat k
  | none => 255

/-- `char_array_3` computed from `char_array_4`. -/
def octets (a : Vector UInt8 4) : Vector UInt8 3 :=
  #v[(a[0] <<< 2) + ((a[1] &&& 0x30) >>> 4),
     ((a[1] &&& 0xf) <<< 4) + ((a[2] &&& 0x3c) >>> 2),
     ((a[2] &&& 0x3) <<< 6) + a[3]]

/-- One iteration of the decoder's loop. -/
def decodeChar (st : DecState) (c : UInt8) : DecState :=
  let a := st.charArray4.set! st.i c
  if st.i + 1 = 4 then
    -- the characters are overwritten by their values
    let a := a.map find
    { i := 0, charArray4 := a, ret := st.ret ++ (octets a).toList }
  else
    { st with i := st.i + 1, charArray4 := a }

/-- The two character tests of the loop condition. -/
def accepts (c : UInt8) : Bool := c ≠ pad && isBase64 c

/-- `while (in_len-- && ...)`. At the end of the string `encoded_string[in_]` is the
terminator, which is not a Base64 character, so the loop stops there for every `in_len`. -/
def decodeLoop : Int → Bytes → DecState → DecState
  | _, [], st => st
  | inLen, c :: cs, st =>
    if inLen = 0 then st
    else if accepts c then decodeLoop (inLen - 1) cs (decodeChar st c)
    else st

/-- The `if (i)` block: clear the rest of the group, look all four cells up, keep `i - 1`
bytes. -/
def decodeTail (st : DecState) : Bytes :=
  if st.i = 0 then st.ret
  else
    let a := (zeroFrom st.i st.charArray4).map find
    st.ret ++ (octets a).toList.take (st.i - 1)

/-- `base64_decode (encoded_string)`, with `int in_len = encoded_string.size ()`. -/
def base64Decode (encodedString : Bytes) : Bytes :=
  decodeTail (decodeLoop (Int32.ofNat encodedString.length).toInt encodedString
    ⟨0, Vector.replicate 4 0, []⟩)

/-! ## The loops as folds

The encoder consumes its whole input; the decoder consumes the longest prefix its condition
accepts. -/

theorem encodeLoop_length (bs : Bytes) (st : EncState) :
    encodeLoop bs.length bs st = bs.foldl encodeByte st := by
  induction bs generalizing st with
  | nil => rfl
  | cons b bs ih => exact ih (encodeByte st b)

theorem decodeLoop_length (cs : Bytes) (st : DecState) :
    decodeLoop cs.length cs st = (cs.takeWhile accepts).foldl decodeChar st := by
  induction cs generalizing st with
  | nil => rfl
  | cons c cs ih =>
    have hne : ((c :: cs).length : Int) ≠ 0 := by simp only [List.length_cons]; omega
    have hpred : ((c :: cs).length : Int) - 1 = cs.length := by
      simp only [List.length_cons]; omega
    rw [decodeLoop, if_neg hne, hpred]
    by_cases hc : accepts c = true
    · rw [if_pos hc, List.takeWhile_cons_of_pos hc, List.foldl_cons, ih]
    · rw [if_neg hc, List.takeWhile_cons_of_neg hc, List.foldl_nil]

theorem base64Encode_eq {b : Bytes} (hb : b.length < 2 ^ 32) :
    base64Encode b (UInt32.ofNat b.length)
      = encodeTail (b.foldl encodeByte ⟨0, Vector.replicate 3 0, []⟩) := by
  rw [base64Encode, UInt32.toNat_ofNat_of_lt' hb, encodeLoop_length]

theorem base64Decode_eq {x : Bytes} (hx : x.length < 2 ^ 31) :
    base64Decode x
      = decodeTail ((x.takeWhile accepts).foldl decodeChar ⟨0, Vector.replicate 4 0, []⟩) := by
  have hlen : (Int32.ofNat x.length).toInt = (x.length : Int) :=
    Int32.toInt_ofNat_of_lt hx
  rw [base64Decode, hlen, decodeLoop_length]

end HomeKeeper.Base64
