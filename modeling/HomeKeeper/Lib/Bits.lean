import Mathlib.Data.List.Basic
import Mathlib.Data.Nat.Bitwise

/-!
# Bit strings, most significant bit first

A number of `w` bits is written into a bit string by `toBits` and read from it by `ofBits`.
A bit string that was written in words of one width can be cut into words of another:

* `toBits_add` — a word is its upper bits followed by its lower bits;
* `toBits_append_toBits` — two words side by side, cut at another place;
* `words_succ` — the first word of a string that begins with a written word.
-/

namespace Bits

/-- The `w` lower bits of `n`. -/
def toBits : Nat → Nat → List Bool
  | 0, _ => []
  | w + 1, n => n.testBit w :: toBits w n

/-- The number that is written as `bs`. -/
def ofBits (bs : List Bool) : Nat := (BitVec.ofBoolListBE bs).toNat

/-- The first `n` words of `w` bits. -/
def words (w n : Nat) (bs : List Bool) : List Nat :=
  (List.range n).map fun k => ofBits ((bs.drop (w * k)).take w)

@[simp] theorem length_toBits (w n : Nat) : (toBits w n).length = w := by
  induction w with
  | zero => rfl
  | succ w ih => rw [toBits, List.length_cons, ih]

/-! ## Cutting a word -/

theorem toBits_add (a b n : Nat) : toBits (a + b) n = toBits a (n / 2 ^ b) ++ toBits b n := by
  induction a with
  | zero => rw [Nat.zero_add, toBits, List.nil_append]
  | succ a ih =>
    rw [Nat.succ_add, toBits, toBits, Nat.testBit_div_two_pow, ih, List.cons_append]

theorem toBits_eq_of_mod_eq {w m n : Nat} (h : m % 2 ^ w = n % 2 ^ w) :
    toBits w m = toBits w n := by
  induction w with
  | zero => rfl
  | succ w ih =>
    have hbit : m.testBit w = n.testBit w := by
      have hcongr := congrArg (Nat.testBit · w) h
      simpa using hcongr
    have hlow : m % 2 ^ w = n % 2 ^ w := by
      have hdvd : 2 ^ w ∣ 2 ^ (w + 1) := Nat.pow_dvd_pow 2 (Nat.le_succ w)
      rw [← Nat.mod_mod_of_dvd m hdvd, h, Nat.mod_mod_of_dvd n hdvd]
    rw [toBits, toBits, hbit, ih hlow]

/-- Two words side by side, cut `b` bits later. -/
theorem toBits_append_toBits (a b c m n : Nat) :
    toBits a m ++ toBits (b + c) n
      = toBits (a + b) (m * 2 ^ b + n / 2 ^ c % 2 ^ b) ++ toBits c n := by
  have hlt : n / 2 ^ c % 2 ^ b < 2 ^ b := Nat.mod_lt _ (Nat.two_pow_pos b)
  have hupper : (m * 2 ^ b + n / 2 ^ c % 2 ^ b) / 2 ^ b = m := by
    rw [Nat.add_comm, Nat.add_mul_div_right _ _ (Nat.two_pow_pos b), Nat.div_eq_of_lt hlt,
      Nat.zero_add]
  have hlower : (m * 2 ^ b + n / 2 ^ c % 2 ^ b) % 2 ^ b = n / 2 ^ c % 2 ^ b := by
    rw [Nat.add_comm, Nat.add_mul_mod_self_right, Nat.mod_mod]
  rw [toBits_add b c, toBits_add a b, hupper, toBits_eq_of_mod_eq hlower, List.append_assoc]

/-! ## Reading back -/

theorem ofBits_cons (b : Bool) (bs : List Bool) :
    ofBits (b :: bs) = b.toNat * 2 ^ bs.length + ofBits bs := by
  show (BitVec.cons b (BitVec.ofBoolListBE bs)).toNat = _
  rw [BitVec.toNat_cons', Nat.shiftLeft_eq]
  rfl

theorem ofBits_toBits (w n : Nat) : ofBits (toBits w n) = n % 2 ^ w := by
  induction w with
  | zero => rw [Nat.pow_zero, Nat.mod_one]; rfl
  | succ w ih =>
    rw [toBits, ofBits_cons, length_toBits, ih, Nat.mod_pow_succ, Nat.toNat_testBit,
      Nat.mul_comm, Nat.add_comm]

theorem words_succ (w n v : Nat) (bs : List Bool) :
    words w (n + 1) (toBits w v ++ bs) = v % 2 ^ w :: words w n bs := by
  have hlen := length_toBits w v
  have hhead : ((toBits w v ++ bs).drop (w * 0)).take w = toBits w v := by
    rw [Nat.mul_zero, List.drop_zero, List.take_left' hlen]
  have hrest (k : Nat) : (toBits w v ++ bs).drop (w * (k + 1)) = bs.drop (w * k) := by
    rw [Nat.mul_succ, Nat.add_comm, ← List.drop_drop, List.drop_left' hlen]
  rw [words, List.range_succ_eq_map, List.map_cons, hhead, ofBits_toBits, List.map_map]
  congr 1
  exact List.map_congr_left fun k _ => by rw [Function.comp_apply, Nat.succ_eq_add_one, hrest]

end Bits
