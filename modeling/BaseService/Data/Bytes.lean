import Mathlib

/-!
# Big-endian numbers

* `encode width n` : the last `8 * width` bits of `n`, the highest byte first;
* `decode bytes` : the number that `bytes` stand for; `decode_encode`, `encode_decode` : the round
  trips;
* `signed width n` : the two's complement number of `8 * width` bits.
-/

namespace BaseService

abbrev Byte := BitVec 8

namespace Bytes

def encode : Nat → Nat → List Byte
  | 0, _ => []
  | width + 1, n => encode width (n / 256) ++ [BitVec.ofNat 8 n]

def decode (bytes : List Byte) : Nat := bytes.foldl (fun n b => 256 * n + b.toNat) 0

def signed (width n : Nat) : Int := (BitVec.ofNat (8 * width) n).toInt

theorem encode_length (width n : Nat) : (encode width n).length = width := by
  induction width generalizing n with
  | zero => rfl
  | succ width ih => rw [encode, List.length_append, ih, List.length_singleton]

theorem decode_encode (width n : Nat) : decode (encode width n) = n % 256 ^ width := by
  induction width generalizing n with
  | zero => rw [pow_zero, Nat.mod_one]; rfl
  | succ width ih =>
    have hn : decode (encode width (n / 256)) = n / 256 % 256 ^ width := ih (n / 256)
    unfold decode at hn
    have hmod : n % (256 * 256 ^ width) = n % 256 + 256 * (n / 256 % 256 ^ width) := Nat.mod_mul
    rw [encode, decode, List.foldl_append, hn, List.foldl_cons, List.foldl_nil,
      BitVec.toNat_ofNat, pow_succ' 256, hmod]
    omega

theorem decode_snoc (bytes : List Byte) (b : Byte) :
    decode (bytes ++ [b]) = 256 * decode bytes + b.toNat := by
  unfold decode
  rw [List.foldl_append, List.foldl_cons, List.foldl_nil]

theorem decode_lt (bytes : List Byte) : decode bytes < 256 ^ bytes.length := by
  induction bytes using List.reverseRecOn with
  | nil => simp [decode]
  | append_singleton bytes b ih =>
    have hb := b.isLt
    rw [decode_snoc, List.length_append, List.length_singleton, pow_succ]
    omega

theorem encode_decode (bytes : List Byte) : encode bytes.length (decode bytes) = bytes := by
  induction bytes using List.reverseRecOn with
  | nil => rfl
  | append_singleton bytes b ih =>
    have hb := b.isLt
    have hdiv : (256 * decode bytes + b.toNat) / 256 = decode bytes := by omega
    have hmod : BitVec.ofNat 8 (256 * decode bytes + b.toNat) = b := by
      apply BitVec.eq_of_toNat_eq
      rw [BitVec.toNat_ofNat]
      omega
    rw [decode_snoc, List.length_append, List.length_singleton, encode, hdiv, hmod, ih]

/-- The first bytes are those of the number they stand for. -/
theorem take_eq_encode {width : Nat} {bytes : List Byte} (h : width ≤ bytes.length) :
    bytes.take width = encode width (decode (bytes.take width)) := by
  have hencode := encode_decode (bytes.take width)
  rw [List.length_take_of_le h] at hencode
  exact hencode.symm

/-- The bits above the width do not matter. -/
theorem signed_mod (width n : Nat) : signed width (n % 256 ^ width) = signed width n := by
  have hpow : 256 ^ width = 2 ^ (8 * width) := by
    rw [pow_mul]
    rfl
  unfold signed
  congr 1
  apply BitVec.eq_of_toNat_eq
  rw [BitVec.toNat_ofNat, BitVec.toNat_ofNat, hpow, Nat.mod_mod]

theorem signed_of_lt {width n : Nat} (h : 2 * n < 2 ^ (8 * width)) : signed width n = n := by
  unfold signed
  rw [BitVec.toInt_eq_toNat_of_lt, BitVec.toNat_ofNat, Nat.mod_eq_of_lt (by omega)]
  rw [BitVec.toNat_ofNat, Nat.mod_eq_of_lt (by omega)]
  exact h

theorem signed_lt (width n : Nat) : 2 * signed (width + 1) n < 2 ^ (8 * (width + 1)) := by
  have := BitVec.two_mul_toInt_lt (x := BitVec.ofNat (8 * (width + 1)) n)
  unfold signed
  exact_mod_cast this

end Bytes

end BaseService
