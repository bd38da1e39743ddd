/-!
# Byte strings

Keys, messages and envelopes are lists of bytes. This module reads them as big-endian numbers,
writes numbers back at a given width or as short as possible, and spells bytes in hexadecimal.
-/

-- a power of naturals is that of `Nat`, also beside a library in which it is one of a monoid
attribute [instance (high), default_instance (high + 1)] instPowNat

namespace Keyring

/-- A string of bytes, first byte first. -/
abbrev Bytes := List UInt8

/-- A statement about bytes holds if it holds of the 256 numbers that spell them. -/
theorem forall_byte {p : UInt8 → Prop} (h : ∀ n < 256, p (UInt8.ofNat n)) (b : UInt8) : p b := by
  have hb := h b.toNat b.toNat_lt
  rwa [UInt8.ofNat_toNat] at hb

/-- The number of binary digits of a number; zero has none. -/
def bitLength (n : Nat) : Nat :=
  if n = 0 then 0 else n.log2 + 1

theorem lt_two_pow_bitLength (n : Nat) : n < 2 ^ bitLength n := by
  unfold bitLength
  split
  · omega
  · exact Nat.lt_log2_self

namespace Bytes

/-! ## Big-endian numbers -/

/-- The number a big-endian byte string denotes; the empty string denotes zero. -/
def toNat (bytes : Bytes) : Nat :=
  bytes.foldl (fun n b => 256 * n + b.toNat) 0

/-- The last `width` base-256 digits of a number, most significant first. -/
def ofNat : (width : Nat) → Nat → Bytes
  | 0, _ => []
  | w + 1, n => UInt8.ofNat (n / 256 ^ w) :: ofNat w n

/-- The shortest big-endian spelling of a number; zero still takes one byte. -/
def minimal (n : Nat) : Bytes :=
  ofNat (max 1 ((bitLength n + 7) / 8)) n

/-- The number a little-endian byte string denotes. -/
def toNatLittle (bytes : Bytes) : Nat :=
  toNat bytes.reverse

@[simp] theorem length_ofNat (width n : Nat) : (ofNat width n).length = width := by
  induction width with
  | zero => rfl
  | succ w ih => simp [ofNat, ih]

@[simp] theorem toNat_nil : toNat [] = 0 := rfl

theorem foldl_digits (bytes : Bytes) (n : Nat) :
    bytes.foldl (fun n b => 256 * n + b.toNat) n = 256 ^ bytes.length * n + toNat bytes := by
  induction bytes generalizing n with
  | nil => simp
  | cons b rest ih =>
    have h : toNat (b :: rest) = 256 ^ rest.length * b.toNat + toNat rest := by
      rw [toNat, List.foldl_cons, ih, Nat.mul_zero, Nat.zero_add]
    rw [List.foldl_cons, ih, h, List.length_cons, Nat.pow_succ, Nat.mul_add, Nat.add_assoc,
      Nat.mul_assoc]

theorem toNat_cons (b : UInt8) (rest : Bytes) :
    toNat (b :: rest) = 256 ^ rest.length * b.toNat + toNat rest := by
  rw [toNat, List.foldl_cons, foldl_digits, Nat.mul_zero, Nat.zero_add]

theorem toNat_append (a b : Bytes) : toNat (a ++ b) = 256 ^ b.length * toNat a + toNat b := by
  rw [toNat, List.foldl_append, foldl_digits]
  rfl

theorem toNat_lt (bytes : Bytes) : toNat bytes < 256 ^ bytes.length := by
  induction bytes with
  | nil => simp
  | cons b rest ih =>
    have hb : b.toNat + 1 ≤ 256 := b.toNat_lt
    calc toNat (b :: rest) = 256 ^ rest.length * b.toNat + toNat rest := toNat_cons b rest
      _ < 256 ^ rest.length * b.toNat + 256 ^ rest.length := Nat.add_lt_add_left ih _
      _ = 256 ^ rest.length * (b.toNat + 1) := by rw [Nat.mul_succ]
      _ ≤ 256 ^ rest.length * 256 := Nat.mul_le_mul_left _ hb
      _ = 256 ^ (b :: rest).length := by rw [List.length_cons, Nat.pow_succ]

/-- Reading back the last digits of a number. -/
theorem toNat_ofNat (width n : Nat) : toNat (ofNat width n) = n % 256 ^ width := by
  induction width with
  | zero => simp [ofNat, Nat.mod_one]
  | succ w ih =>
    have hpow : 256 ^ (w + 1) = 256 ^ w * 256 := Nat.pow_succ ..
    rw [ofNat, toNat_cons, length_ofNat, ih, UInt8.toNat_ofNat', hpow, Nat.mod_mul, Nat.add_comm]

/-! ## Combining and spelling -/

/-- The bytewise exclusive or of two strings, as long as the shorter one. -/
def xor (a b : Bytes) : Bytes :=
  a.zipWith (· ^^^ ·) b

/-- The lower-case hexadecimal digit of a number below sixteen. -/
def hexDigit (n : Nat) : Char :=
  if n < 10 then Char.ofNat (48 + n) else Char.ofNat (87 + n)

/-- Two lower-case hexadecimal digits for each byte. -/
def toHex (bytes : Bytes) : String :=
  String.ofList (bytes.flatMap fun b => [hexDigit (b.toNat / 16), hexDigit (b.toNat % 16)])

/-- The bytes that encode a text in UTF-8. -/
def ofText (text : String) : Bytes :=
  text.toList.flatMap String.utf8EncodeChar

end Bytes

end Keyring
