import Mathlib.Algebra.Group.Nat.Defs

/-! Numbers in a fixed number of bytes, the most significant byte first. Nothing
here names a program. -/
namespace TeepDevice.BigEndian

/-- The low `8 * n` bits of `v` in `n` bytes. -/
def encode : Nat → Nat → List UInt8
  | 0, _ => []
  | n + 1, v => UInt8.ofNat (v / 256 ^ n % 256) :: encode n v

def decode : List UInt8 → Nat
  | [] => 0
  | b :: bytes => b.toNat * 256 ^ bytes.length + decode bytes

@[simp] theorem encode_length (n v : Nat) : (encode n v).length = n := by
  induction n with
  | zero => rfl
  | succ n ih => simp [encode, ih]

theorem decode_lt (bytes : List UInt8) : decode bytes < 256 ^ bytes.length := by
  induction bytes with
  | nil => simp [decode]
  | cons b bytes ih =>
    have byte : b.toNat < 256 := b.toNat_lt
    calc decode (b :: bytes) < b.toNat * 256 ^ bytes.length + 256 ^ bytes.length := by
          simp only [decode]
          omega
      _ = (b.toNat + 1) * 256 ^ bytes.length := by rw [Nat.add_mul, Nat.one_mul]
      _ ≤ 256 * 256 ^ bytes.length := Nat.mul_le_mul_right _ (by omega)
      _ = 256 ^ (b :: bytes).length := by rw [List.length_cons, Nat.pow_succ, Nat.mul_comm]

/-- Only the low bits of a number are written. -/
theorem encode_mod (n m v : Nat) : encode n (v + m * 256 ^ n) = encode n v := by
  induction n generalizing m with
  | zero => rfl
  | succ n ih =>
    have low : m * 256 ^ (n + 1) = (m * 256) * 256 ^ n := by
      rw [Nat.pow_succ, Nat.mul_assoc, Nat.mul_comm 256]
    have positive : 0 < 256 ^ n := Nat.pow_pos (by decide)
    simp only [encode, low, ih, Nat.add_mul_div_right _ _ positive, Nat.add_mul_mod_self_right]

theorem encode_decode (bytes : List UInt8) : encode bytes.length (decode bytes) = bytes := by
  induction bytes with
  | nil => rfl
  | cons b bytes ih =>
    have byte : b.toNat < 256 := b.toNat_lt
    have below := decode_lt bytes
    have positive : 0 < 256 ^ bytes.length := Nat.pow_pos (by decide)
    have top : (b.toNat * 256 ^ bytes.length + decode bytes) / 256 ^ bytes.length = b.toNat := by
      rw [Nat.add_comm, Nat.add_mul_div_right _ _ positive, Nat.div_eq_of_lt below, Nat.zero_add]
    simp only [List.length_cons, encode, decode, top, Nat.mod_eq_of_lt byte]
    rw [Nat.add_comm, encode_mod, ih, UInt8.ofNat_toNat]

theorem decode_encode (n v : Nat) : decode (encode n v) = v % 256 ^ n := by
  induction n with
  | zero => simp [encode, decode, Nat.mod_one]
  | succ n ih =>
    have byte : (UInt8.ofNat (v / 256 ^ n % 256)).toNat = v / 256 ^ n % 256 := by
      rw [UInt8.toNat_ofNat']
      exact Nat.mod_eq_of_lt (by omega)
    rw [encode, decode, ih, byte, encode_length, Nat.pow_succ, Nat.mod_mul,
      Nat.mul_comm (256 ^ n), Nat.add_comm]

theorem decode_encode_of_lt {n v : Nat} (fits : v < 256 ^ n) : decode (encode n v) = v := by
  rw [decode_encode, Nat.mod_eq_of_lt fits]

end TeepDevice.BigEndian
