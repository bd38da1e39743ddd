import Keyring.Json.Amount

/-!
# Decimal digits and their value

The digits of a number are those of a tenth of it and then its last digit. So the first of them is
not zero unless it is the only one, and a reader that takes them one by one comes back to the number
as long as it fits 64 bits.
-/

namespace Keyring.Json

/-! ## Digits -/

theorem toNat_digitChar_sub : ∀ d < 10, (Nat.digitChar d).toNat - 48 = d := by decide

theorem decimalDigits_of_lt {n : Nat} (h : n < 10) : decimalDigits n = [n] := by
  rw [decimalDigits, Nat.toDigits_of_lt_base h, List.map_singleton, toNat_digitChar_sub n h]

theorem decimalDigits_of_le {n : Nat} (h : 10 ≤ n) :
    decimalDigits n = decimalDigits (n / 10) ++ [n % 10] := by
  rw [decimalDigits, Nat.toDigits_of_base_le (by decide) h, List.map_append, List.map_singleton,
    toNat_digitChar_sub (n % 10) (Nat.mod_lt n (by decide))]
  rfl

/-- What holds of a single digit, and with the digits of a number also of those with one digit more,
holds of the digits of every number. -/
theorem decimalDigits_induction {motive : Nat → List Nat → Prop}
    (digit : ∀ n < 10, motive n [n])
    (append : ∀ n digits, 0 < n → ∀ d < 10, motive n digits → motive (10 * n + d) (digits ++ [d]))
    (n : Nat) : motive n (decimalDigits n) := by
  induction n using Nat.strongRecOn with
  | _ n ih =>
    by_cases h : n < 10
    · rw [decimalDigits_of_lt h]
      exact digit n h
    · have hn : 10 * (n / 10) + n % 10 = n := Nat.div_add_mod n 10
      have hstep := append (n / 10) (decimalDigits (n / 10)) (by omega) (n % 10) (by omega)
        (ih (n / 10) (by omega))
      rw [hn] at hstep
      rwa [decimalDigits_of_le (by omega)]

/-- Digits without a leading zero. -/
inductive Unpadded : List Nat → Prop
  | zero : Unpadded [0]
  | leading {d : Nat} {rest : List Nat} (hpos : 0 < d) (hlt : d < 10)
    (hrest : ∀ e ∈ rest, e < 10) : Unpadded (d :: rest)

theorem unpadded_decimalDigits (n : Nat) : Unpadded (decimalDigits n) := by
  -- a digit may follow unless the number is zero
  have h : Unpadded (decimalDigits n) ∧ (decimalDigits n = [0] → n = 0) := by
    refine decimalDigits_induction (motive := fun n digits => Unpadded digits ∧
      (digits = [0] → n = 0)) ?_ ?_ n
    · intro n hn
      refine ⟨?_, fun h => (List.cons.inj h).1⟩
      by_cases hzero : n = 0
      · subst hzero
        exact .zero
      · exact .leading (Nat.pos_of_ne_zero hzero) hn nofun
    · rintro n digits hn d hd ⟨hdigits, hsingle⟩
      cases hdigits with
      | zero => exact absurd (hsingle rfl) (Nat.ne_of_gt hn)
      | @leading first rest hpos hlt hrest =>
        have hall : ∀ e ∈ rest ++ [d], e < 10 :=
          List.forall_mem_append.2 ⟨hrest, List.forall_mem_singleton.2 hd⟩
        exact ⟨.leading hpos hlt hall, fun h => by simp at h⟩
  exact h.1

theorem digitsValue_append (digits : List Nat) (d : Nat) :
    digitsValue (digits ++ [d]) = 10 * digitsValue digits + d := by
  rw [digitsValue, List.foldl_append]
  rfl

theorem digitsValue_decimalDigits (n : Nat) : digitsValue (decimalDigits n) = n := by
  refine decimalDigits_induction (motive := fun n digits => digitsValue digits = n) ?_ ?_ n
  · intro n _
    simp [digitsValue]
  · intro n digits _ d _ h
    rw [digitsValue_append, h]

/-! ## Values -/

theorem le_foldl_digits (digits : List Nat) (s : Nat) :
    s ≤ digits.foldl (fun n d => 10 * n + d) s := by
  induction digits generalizing s with
  | nil => exact Nat.le_refl s
  | cons d rest ih =>
    have hstep : s ≤ 10 * s + d := by omega
    exact Nat.le_trans hstep (ih (10 * s + d))

/-- Digits all go into the significand when the number they end in fits. -/
theorem accumulate_of_lt {digits : List Nat} {s : Nat}
    (h : digits.foldl (fun n d => 10 * n + d) s < 2 ^ 64) :
    accumulate s digits = (digits.foldl (fun n d => 10 * n + d) s, []) := by
  induction digits generalizing s with
  | nil => rfl
  | cons d rest ih =>
    have hfits : 10 * s + d < 2 ^ 64 := Nat.lt_of_le_of_lt (le_foldl_digits rest _) h
    rw [accumulate, if_pos hfits]
    exact ih h

/-- A number of 64 bits is the value of its numeral. -/
theorem amount?_ofNat {n : Nat} (h : n < 2 ^ 64) :
    (Numeral.ofNat n).amount? = some (.natural n) := by
  have hvalue : (decimalDigits n).foldl (fun n d => 10 * n + d) 0 = n := digitsValue_decimalDigits n
  have haccumulate : accumulate 0 (decimalDigits n) = (n, []) := by
    rw [accumulate_of_lt (by rwa [hvalue]), hvalue]
  simp [Numeral.amount?, Numeral.ofNat, haccumulate]

end Keyring.Json
