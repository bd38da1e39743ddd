import Mathlib.GroupTheory.OrderOfElement
import Keyring.Proofs.Dsa.Primitive

/-!
# What the order of the generator decides

Of the generator it is checked only that its power by the secret exponent, which is the public
number, gives one when it is raised to the order. The generator itself need not: then the exponents
of verification, which pass the order a number of times before they end at the secret number, make
another power than signing did. If it does give one, and the order is a prime, then the generator
has that order and exponents are told apart by their powers, up to the order.
-/

namespace Keyring.Dsa

variable {x z k inverse r s : Nat}

/-! ## Exponents beyond the order -/

/-- How often the exponents of verification pass the order before they end at the secret number. -/
def turns (q x z r w : Nat) : Nat :=
  (z * w % q + x * (r * w % q)) / q

theorem exponents_eq_add_turns {q w : Nat} (hk : k < q) (hinverse : k * inverse ≡ 1 [MOD q])
    (hw : s * w ≡ 1 [MOD q]) (hs : s ≡ inverse * (z + x * r) [MOD q]) :
    z * w % q + x * (r * w % q) = k + q * turns q x z r w := by
  have hend : (z * w % q + x * (r * w % q)) % q = k := by
    rw [exponents_modEq hinverse hw hs, Nat.mod_eq_of_lt hk]
  calc z * w % q + x * (r * w % q)
      = (z * w % q + x * (r * w % q)) % q + q * turns q x z r w := (Nat.mod_add_div _ _).symm
    _ = k + q * turns q x z r w := by rw [hend]

/-- What is signed verifies just when there is an inverse and the turns leave the power as it is. -/
theorem verify_of_signWith_iff_turns {n : Numbers} (hk : k < n.q)
    (hinverse : inverseMod? k n.q = some inverse) (hy : n.y ≡ n.g ^ x [MOD n.p])
    (h : signWith? n x z k inverse = some (r, s)) :
    verify n z r s = true ↔ ∃ w, w < n.q ∧ s * w ≡ 1 [MOD n.q] ∧
      n.g ^ (k + n.q * turns n.q x z r w) % n.p % n.q = r := by
  have hq : 0 < n.q := Nat.zero_lt_of_lt hk
  have hsecond : s ≡ inverse * (z + x * r) [MOD n.q] := by
    rw [(of_signWith?_eq_some hq h).2.1]
    exact Nat.mod_modEq _ _
  rw [verify_of_signWith_iff hq hy h]
  apply exists_congr
  intro w
  apply and_congr_right
  intro hlt
  apply and_congr_right
  intro hmul
  rw [exponents_eq_add_turns hk (of_inverseMod?_eq_some hq hinverse).2 hmul hsecond]

/-! ## A generator with the order -/

section Order

variable {p q g : Nat}

theorem natCast_pow_eq_iff (a b : Nat) : (g : ZMod p) ^ a = (g : ZMod p) ^ b ↔
    g ^ a ≡ g ^ b [MOD p] := by
  rw [← ZMod.natCast_eq_natCast_iff, Nat.cast_pow, Nat.cast_pow]

/-- A generator whose powers are not all one has a prime order as its order. -/
theorem orderOf_generator (hq : q.Prime) (hg : g ^ q ≡ 1 [MOD p]) (hx : ¬ g ^ x ≡ 1 [MOD p]) :
    orderOf (g : ZMod p) = q := by
  have : Fact q.Prime := ⟨hq⟩
  have hfull : (g : ZMod p) ^ q = (g : ZMod p) ^ 0 := (natCast_pow_eq_iff q 0).2 hg
  rw [pow_zero] at hfull
  apply orderOf_eq_prime hfull
  intro hone
  apply hx
  apply (natCast_pow_eq_iff x 0).1
  rw [hone, one_pow, one_pow]

/-- Powers of such a generator tell exponents apart up to the order, whatever the modulus. -/
theorem pow_modEq_pow_iff (hq : q.Prime) (hg : g ^ q ≡ 1 [MOD p]) (hx : ¬ g ^ x ≡ 1 [MOD p])
    (a b : Nat) : g ^ a ≡ g ^ b [MOD p] ↔ a ≡ b [MOD q] := by
  have horder := orderOf_generator hq hg hx
  have hfinite : IsOfFinOrder (g : ZMod p) := by
    rw [← orderOf_pos_iff, horder]
    exact hq.pos
  rw [← natCast_pow_eq_iff, hfinite.pow_eq_pow_iff_modEq, horder]

/-- In the range of secret exponents, from one to the order, there is only one for a public number
other than one. -/
theorem eq_of_pow_modEq_pow {x' : Nat} (hq : q.Prime) (hg : g ^ q ≡ 1 [MOD p])
    (hx : ¬ g ^ x ≡ 1 [MOD p]) (hle : x ≤ q) (hle' : x' ≤ q)
    (h : g ^ x' ≡ g ^ x [MOD p]) : x' = x := by
  have hbelow {e : Nat} (he : e ≤ q) (hpow : ¬ g ^ e ≡ 1 [MOD p]) : e < q := by
    apply Nat.lt_of_le_of_ne he
    rintro rfl
    exact hpow hg
  have hmod : x' ≡ x [MOD q] := (pow_modEq_pow_iff hq hg hx x' x).1 h
  exact hmod.eq_of_lt_of_lt (hbelow hle' fun hone => hx (h.symm.trans hone)) (hbelow hle hx)

/-- By Fermat's theorem, the order takes a power by its cofactor to one. -/
theorem pow_cofactor_mod_pow {base : Nat} (hp : p.Prime) (hdvd : q ∣ p - 1) (hbase : ¬ p ∣ base) :
    (base ^ ((p - 1) / q) % p) ^ q ≡ 1 [MOD p] := by
  calc (base ^ ((p - 1) / q) % p) ^ q ≡ (base ^ ((p - 1) / q)) ^ q [MOD p] :=
        (Nat.mod_modEq _ _).pow _
    _ = base ^ (p - 1) := by rw [← pow_mul, Nat.div_mul_cancel hdvd]
    _ ≡ 1 [MOD p] := pow_pred_modEq_one hp hbase

/-- A public number from a secret exponent below a prime order is at least two, and the order takes
it to one. -/
theorem two_le_pow_mod (hp : 1 < p) (hq : q.Prime) (hg : g ^ q ≡ 1 [MOD p])
    (hone : ¬ g ≡ 1 [MOD p]) (hpos : 0 < x) (hlt : x < q) :
    2 ≤ g ^ x % p ∧ (g ^ x % p) ^ q ≡ 1 [MOD p] := by
  have hpow : (g ^ x % p) ^ q ≡ 1 [MOD p] := by
    calc (g ^ x % p) ^ q ≡ (g ^ x) ^ q [MOD p] := (Nat.mod_modEq _ _).pow _
      _ = (g ^ q) ^ x := pow_right_comm _ _ _
      _ ≡ 1 ^ x [MOD p] := hg.pow _
      _ = 1 := one_pow _
  have hzero : g ^ x % p ≠ 0 := ne_zero_of_pow_modEq_one hp hq.ne_zero hpow
  have hnot : g ^ x % p ≠ 1 := by
    intro hx
    have hsame : g ^ x ≡ g ^ 0 [MOD p] := by
      rw [pow_zero]
      exact hx.trans (Nat.mod_eq_of_lt hp).symm
    rw [← pow_one g] at hone
    have hturns := (pow_modEq_pow_iff hq hg hone x 0).1 hsame
    exact hpos.ne' (hturns.eq_of_lt_of_lt hlt hq.pos)
  exact ⟨by omega, hpow⟩

end Order

end Keyring.Dsa
