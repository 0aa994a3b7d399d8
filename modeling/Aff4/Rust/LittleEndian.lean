import Aff4.Rust.Slice

/-!
# Little-endian encodings

The `width` bytes of a number, least significant first, and the number that a
byte string encodes.
-/

namespace Rust.LittleEndian

/-- The number with the given little-endian bytes. -/
def decode : Bytes → Nat
  | [] => 0
  | byte :: rest => byte.toNat + 256 * decode rest

/-- The `width` low bytes of a number, least significant first. -/
def encode : Nat → Nat → Bytes
  | 0, _ => []
  | width + 1, n => UInt8.ofNat n :: encode width (n / 256)

@[simp] theorem length_encode (width n : Nat) :
    (encode width n).length = width := by
  induction width generalizing n with
  | zero => rfl
  | succ width inductionHypothesis =>
      simp [encode, inductionHypothesis]

/-- Decoding an encoding gives the number back modulo `256 ^ width`. -/
theorem decode_encode (width n : Nat) :
    decode (encode width n) = n % 256 ^ width := by
  induction width generalizing n with
  | zero => simp [encode, decode, Nat.mod_one]
  | succ width inductionHypothesis =>
      calc decode (encode (width + 1) n)
          = n % 256 + 256 * (n / 256 % 256 ^ width) := by
            rw [encode, decode, inductionHypothesis, UInt8.toNat_ofNat']
        _ = n % (256 * 256 ^ width) := Nat.mod_mul.symm
        _ = n % 256 ^ (width + 1) := by rw [Nat.pow_succ']

/-- Decoding inverts encoding where the width is large enough. -/
theorem decode_encode_of_lt {width n : Nat} (fits : n < 256 ^ width) :
    decode (encode width n) = n := by
  rw [decode_encode, Nat.mod_eq_of_lt fits]

end Rust.LittleEndian

namespace Rust

/-- `u64::from_le_bytes(bytes)`. -/
def u64FromLeBytes (bytes : Bytes) : UInt64 :=
  UInt64.ofNat (LittleEndian.decode bytes)

/-- `u32::from_le_bytes(bytes)`. -/
def u32FromLeBytes (bytes : Bytes) : UInt32 :=
  UInt32.ofNat (LittleEndian.decode bytes)

/-- `n.to_le_bytes()` for an unsigned 64-bit `n`. -/
def u64ToLeBytes (n : UInt64) : Bytes := LittleEndian.encode 8 n.toNat

/-- `n.to_le_bytes()` for an unsigned 32-bit `n`. -/
def u32ToLeBytes (n : UInt32) : Bytes := LittleEndian.encode 4 n.toNat

@[simp] theorem length_u64ToLeBytes (n : UInt64) :
    (u64ToLeBytes n).length = 8 := LittleEndian.length_encode 8 _

@[simp] theorem length_u32ToLeBytes (n : UInt32) :
    (u32ToLeBytes n).length = 4 := LittleEndian.length_encode 4 _

@[simp] theorem u64FromLeBytes_toLeBytes (n : UInt64) :
    u64FromLeBytes (u64ToLeBytes n) = n := by
  rw [u64FromLeBytes, u64ToLeBytes,
    LittleEndian.decode_encode_of_lt (by simpa using n.toNat_lt),
    UInt64.ofNat_toNat]

@[simp] theorem u32FromLeBytes_toLeBytes (n : UInt32) :
    u32FromLeBytes (u32ToLeBytes n) = n := by
  rw [u32FromLeBytes, u32ToLeBytes,
    LittleEndian.decode_encode_of_lt (by simpa using n.toNat_lt),
    UInt32.ofNat_toNat]

end Rust
