import Keyring.Number.Binary64

/-!
# Decimal text of a floating-point number

The fewest digits that read back, positional from `1e-5` up to below `1e16` and with a power of ten
beyond. A number without a fraction keeps `.0`.
-/

namespace Keyring.Binary64

/-- Drops the zeros at the end of a digit sequence and raises the power of ten instead. -/
def dropZeros : (fuel : Nat) → Nat × Int → Nat × Int
  | 0, digits => digits
  | fuel + 1, (n, k) => if n ≠ 0 ∧ n % 10 = 0 then dropZeros fuel (n / 10, k + 1) else (n, k)

/-- Lays out decimal digits that count a power of ten. -/
def layOut (digits : String) (k : Int) : String :=
  let length : Int := digits.length
  let point := length + k
  if 0 ≤ k ∧ point ≤ 16 then digits ++ String.ofList (List.replicate k.toNat '0') ++ ".0"
  else if 0 < point ∧ point ≤ 16 then
    String.ofList (digits.toList.take point.toNat) ++ "." ++
      String.ofList (digits.toList.drop point.toNat)
  else if -5 < point ∧ point ≤ 0 then
    "0." ++ String.ofList (List.replicate (-point).toNat '0') ++ digits
  else if length = 1 then digits ++ "e" ++ toString (point - 1)
  else
    String.ofList (digits.toList.take 1) ++ "." ++ String.ofList (digits.toList.drop 1) ++ "e" ++
      toString (point - 1)

/-- The text of a number that is not negative. -/
def text (x : Binary64) : String :=
  if x.isZero then "0.0"
  else
    let (n, k) := dropZeros 20 x.shortest
    layOut (toString n) k

/-- The text of a number with its sign; a negative zero keeps it. -/
def signedText (negative : Bool) (x : Binary64) : String :=
  (if negative then "-" else "") ++ x.text

end Keyring.Binary64
