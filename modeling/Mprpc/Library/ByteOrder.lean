import Mathlib.Data.Nat.Digits.Defs

namespace Mprpc.Library.ByteOrder

/-- The low `width` base-256 digits of a number, least significant first. This
is how a little-endian machine lays the number out in memory. -/
def littleEndian : Nat → Nat → List UInt8
  | 0, _ => []
  | width + 1, n => UInt8.ofNat n :: littleEndian width (n / 256)

def bigEndian (width n : Nat) : List UInt8 := (littleEndian width n).reverse

def ofLittleEndian (bytes : List UInt8) : Nat := Nat.ofDigits 256 (bytes.map UInt8.toNat)

def ofBigEndian (bytes : List UInt8) : Nat := ofLittleEndian bytes.reverse

@[simp]
theorem littleEndian_length (width n : Nat) : (littleEndian width n).length = width := by
  induction width generalizing n with
  | zero => rfl
  | succ width ih => simp [littleEndian, ih]

@[simp]
theorem bigEndian_length (width n : Nat) : (bigEndian width n).length = width := by
  simp [bigEndian]

theorem ofLittleEndian_cons (byte : UInt8) (bytes : List UInt8) :
    ofLittleEndian (byte :: bytes) = byte.toNat + 256 * ofLittleEndian bytes := by
  simp [ofLittleEndian, Nat.ofDigits_cons]

theorem ofLittleEndian_littleEndian (width n : Nat) :
    ofLittleEndian (littleEndian width n) = n % 256 ^ width := by
  induction width generalizing n with
  | zero => simp [littleEndian, ofLittleEndian, Nat.mod_one]
  | succ width ih =>
    rw [littleEndian, ofLittleEndian_cons, ih, Nat.pow_succ, Nat.mul_comm (256 ^ width),
      Nat.mod_mul, UInt8.toNat_ofNat']

theorem littleEndian_ofLittleEndian (bytes : List UInt8) :
    littleEndian bytes.length (ofLittleEndian bytes) = bytes := by
  induction bytes with
  | nil => rfl
  | cons byte bytes ih =>
    have hlt := byte.toNat_lt
    have hhead : UInt8.ofNat (byte.toNat + 256 * ofLittleEndian bytes) = byte := by
      apply UInt8.toNat_inj.mp
      rw [UInt8.toNat_ofNat']
      omega
    have htail : (byte.toNat + 256 * ofLittleEndian bytes) / 256 = ofLittleEndian bytes := by
      omega
    rw [List.length_cons, littleEndian, ofLittleEndian_cons, hhead, htail, ih]

theorem littleEndian_mod (width n : Nat) :
    littleEndian width (n % 256 ^ width) = littleEndian width n := by
  have h := littleEndian_ofLittleEndian (littleEndian width n)
  rwa [littleEndian_length, ofLittleEndian_littleEndian] at h

theorem bigEndian_mod (width n : Nat) : bigEndian width (n % 256 ^ width) = bigEndian width n := by
  rw [bigEndian, littleEndian_mod, bigEndian]

theorem ofBigEndian_bigEndian (width n : Nat) :
    ofBigEndian (bigEndian width n) = n % 256 ^ width := by
  rw [ofBigEndian, bigEndian, List.reverse_reverse, ofLittleEndian_littleEndian]

/-- Exchange the byte order of a `width`-byte word. -/
def byteSwap (width n : Nat) : Nat := ofLittleEndian (bigEndian width n)

theorem littleEndian_byteSwap (width n : Nat) :
    littleEndian width (byteSwap width n) = bigEndian width n := by
  have h := littleEndian_ofLittleEndian (bigEndian width n)
  rwa [bigEndian_length] at h

/-- A word loaded from memory and swapped is the big-endian value of its bytes. -/
theorem byteSwap_ofLittleEndian (bytes : List UInt8) :
    byteSwap bytes.length (ofLittleEndian bytes) = ofBigEndian bytes := by
  rw [byteSwap, bigEndian, littleEndian_ofLittleEndian, ofBigEndian]

end Mprpc.Library.ByteOrder
