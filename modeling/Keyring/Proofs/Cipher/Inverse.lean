import Keyring.Cipher.Aes

/-!
# AES blocks decrypt to what was encrypted

Every step of a round has an inverse, so encryption and decryption of a block undo each other under
any list of round keys. Substitution is settled on the 256 bytes. Mixing columns is settled by
linearity: doubling a byte respects the exclusive or, hence so do both mixing maps, and an additive
map that fixes the columns with a single byte is the identity.
-/

namespace Keyring.Aes

/-! ## Bytes -/

@[simp] theorem unsub_sub (b : UInt8) : unsub (sub b) = b :=
  forall_byte (p := fun b => unsub (sub b) = b) (by decide +kernel) b

@[simp] theorem sub_unsub (b : UInt8) : sub (unsub b) = b :=
  forall_byte (p := fun b => sub (unsub b) = b) (by decide +kernel) b

theorem xor_left_comm (a b c : UInt8) : a ^^^ (b ^^^ c) = b ^^^ (a ^^^ c) := by
  rw [← UInt8.xor_assoc, UInt8.xor_comm a b, UInt8.xor_assoc]

theorem xor_lt_highBit (a b : UInt8) : a ^^^ b < 0x80 ↔ (a < 0x80 ↔ b < 0x80) := by
  have low (c : UInt8) : c < 0x80 ↔ c.toBitVec.msb = false := by
    rw [BitVec.msb_eq_false_iff_two_mul_lt, UInt8.lt_iff_toNat_lt]
    show c.toNat < 128 ↔ 2 * c.toNat < 256
    omega
  rw [low, low, low, UInt8.toBitVec_xor, BitVec.msb_xor]
  cases a.toBitVec.msb <;> cases b.toBitVec.msb <;> decide

/-- What doubling adds when the highest bit is shifted out. -/
theorem overflow_xor (a b : UInt8) :
    (if a ^^^ b < 0x80 then 0 else 0x1B : UInt8) =
      (if a < 0x80 then 0 else 0x1B) ^^^ (if b < 0x80 then 0 else 0x1B) := by
  simp only [xor_lt_highBit]
  by_cases ha : a < 0x80 <;> by_cases hb : b < 0x80 <;> simp [ha, hb]

/-- Doubling is additive, and with it every multiple that is made of doublings. -/
theorem double_xor (a b : UInt8) : double (a ^^^ b) = double a ^^^ double b := by
  simp only [double, UInt8.shiftLeft_xor, overflow_xor]
  ac_rfl

theorem double_zero : double 0 = 0 := rfl

/-! ## Columns -/

@[simp] theorem Word.xor_xor_cancel (u v : Word) : (u.xor v).xor v = u := by
  simp only [Word.xor, UInt8.xor_assoc, UInt8.xor_self, UInt8.xor_zero]

/-- A map of columns that respects the exclusive or. -/
def Additive (f : Word → Word) : Prop :=
  ∀ u v, f (u.xor v) = (f u).xor (f v)

theorem Additive.comp {f g : Word → Word} (hf : Additive f) (hg : Additive g) :
    Additive (f ∘ g) := by
  intro u v
  show f (g (u.xor v)) = (f (g u)).xor (f (g v))
  rw [hg, hf]

theorem Word.eq_xor_axes (u : Word) :
    u = ((Word.mk u.a 0 0 0).xor ⟨0, u.b, 0, 0⟩).xor ((Word.mk 0 0 u.c 0).xor ⟨0, 0, 0, u.d⟩) := by
  cases u
  simp [Word.xor]

/-- An additive map is the identity once it fixes the columns with a single byte. -/
theorem Additive.eq_self {f : Word → Word} (hf : Additive f)
    (ha : ∀ b, f ⟨b, 0, 0, 0⟩ = ⟨b, 0, 0, 0⟩) (hb : ∀ b, f ⟨0, b, 0, 0⟩ = ⟨0, b, 0, 0⟩)
    (hc : ∀ b, f ⟨0, 0, b, 0⟩ = ⟨0, 0, b, 0⟩) (hd : ∀ b, f ⟨0, 0, 0, b⟩ = ⟨0, 0, 0, b⟩)
    (u : Word) : f u = u := by
  calc f u = f (((Word.mk u.a 0 0 0).xor ⟨0, u.b, 0, 0⟩).xor
        ((Word.mk 0 0 u.c 0).xor ⟨0, 0, 0, u.d⟩)) := by rw [← u.eq_xor_axes]
    _ = ((Word.mk u.a 0 0 0).xor ⟨0, u.b, 0, 0⟩).xor
        ((Word.mk 0 0 u.c 0).xor ⟨0, 0, 0, u.d⟩) := by rw [hf, hf, hf, ha, hb, hc, hd]
    _ = u := u.eq_xor_axes.symm

theorem additive_mixColumn : Additive mixColumn := by
  intro u v
  simp only [mixColumn, times3, Word.xor, double_xor, Word.mk.injEq]
  refine ⟨?_, ?_, ?_, ?_⟩ <;> ac_rfl

theorem additive_unmixColumn : Additive unmixColumn := by
  intro u v
  simp only [unmixColumn, times9, times11, times13, times14, Word.xor, double_xor, Word.mk.injEq]
  refine ⟨?_, ?_, ?_, ?_⟩ <;> ac_rfl

/-- The matrices are inverse already as matrices of polynomials in the doubling: on a column with a
single byte the repeated doublings of that byte cancel in pairs. -/
@[simp] theorem unmixColumn_mixColumn (u : Word) : unmixColumn (mixColumn u) = u := by
  apply (additive_unmixColumn.comp additive_mixColumn).eq_self
  all_goals
    intro b
    simp only [Function.comp, mixColumn, unmixColumn, times3, times9, times11, times13, times14,
      double_xor, double_zero, UInt8.xor_zero, UInt8.zero_xor, UInt8.xor_self, Word.mk.injEq]
    simp [UInt8.xor_assoc, UInt8.xor_comm, xor_left_comm]

@[simp] theorem mixColumn_unmixColumn (u : Word) : mixColumn (unmixColumn u) = u := by
  apply (additive_mixColumn.comp additive_unmixColumn).eq_self
  all_goals
    intro b
    simp only [Function.comp, mixColumn, unmixColumn, times3, times9, times11, times13, times14,
      double_xor, double_zero, UInt8.xor_zero, UInt8.zero_xor, UInt8.xor_self, Word.mk.injEq]
    simp [UInt8.xor_assoc, UInt8.xor_comm, xor_left_comm]

/-! ## Blocks -/

@[simp] theorem Block.xor_xor_cancel (s t : Block) : (s.xor t).xor t = s := by
  simp [Block.xor]

@[simp] theorem unshiftRows_shiftRows (s : Block) : unshiftRows (shiftRows s) = s := rfl

@[simp] theorem shiftRows_unshiftRows (s : Block) : shiftRows (unshiftRows s) = s := rfl

/-- A column map with a left inverse keeps it when it is applied to each column. -/
theorem Block.map_map_cancel {f g : Word → Word} (h : ∀ u, f (g u) = u) (s : Block) :
    (s.map g).map f = s := by
  simp [Block.map, h]

@[simp] theorem map_unmixColumn_map_mixColumn (s : Block) :
    (s.map mixColumn).map unmixColumn = s :=
  Block.map_map_cancel unmixColumn_mixColumn s

@[simp] theorem map_mixColumn_map_unmixColumn (s : Block) :
    (s.map unmixColumn).map mixColumn = s :=
  Block.map_map_cancel mixColumn_unmixColumn s

@[simp] theorem unsubBlock_subBlock (s : Block) : unsubBlock (subBlock s) = s :=
  Block.map_map_cancel (by simp [Word.map]) s

@[simp] theorem subBlock_unsubBlock (s : Block) : subBlock (unsubBlock s) = s :=
  Block.map_map_cancel (by simp [Word.map]) s

/-! ## Rounds -/

theorem decryptRounds_encryptRounds (keys : List Block) (s : Block) :
    decryptRounds keys (encryptRounds keys s) = s := by
  induction keys generalizing s with
  | nil => rfl
  | cons key rest ih =>
    -- the last round does not mix columns
    cases rest with
    | nil => simp [encryptRounds, decryptRounds]
    | cons next rest => rw [encryptRounds, decryptRounds, ih] <;> simp

theorem encryptRounds_decryptRounds (keys : List Block) (s : Block) :
    encryptRounds keys (decryptRounds keys s) = s := by
  induction keys generalizing s with
  | nil => rfl
  | cons key rest ih =>
    cases rest with
    | nil => simp [encryptRounds, decryptRounds]
    | cons next rest => rw [decryptRounds, encryptRounds] <;> simp [ih]

/-- Decrypting a block gives back the block that was encrypted, under any round keys. -/
theorem decryptBlock_encryptBlock (keys : List Block) (s : Block) :
    decryptBlock keys (encryptBlock keys s) = s := by
  cases keys with
  | nil => rfl
  | cons key rest => simp [encryptBlock, decryptBlock, decryptRounds_encryptRounds]

/-- Every block is the encryption of its decryption. -/
theorem encryptBlock_decryptBlock (keys : List Block) (s : Block) :
    encryptBlock keys (decryptBlock keys s) = s := by
  cases keys with
  | nil => rfl
  | cons key rest => simp [encryptBlock, decryptBlock, encryptRounds_decryptRounds]

end Keyring.Aes
