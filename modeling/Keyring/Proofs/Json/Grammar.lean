import Keyring.Json.Node
import Keyring.Proofs.Json.Numeral

/-!
# The texts of a JSON value

A value has many texts. Blanks may stand before every token and at the end, a character of a string
may stand for itself or be escaped in one of several ways, and the exponent of a number may be
marked by either letter and carry a plus. What the texts of a value are is said here in itself, with
no reference to the machines that read a text.
-/

namespace Keyring.Json

/-! ## Strings -/

/-- The texts of a piece of a string. -/
inductive Piece.Text : Piece → List Char → Prop
  | plain {c : Char} (hquote : c ≠ '"') (hescape : c ≠ '\\') (hcontrol : 0x20 ≤ c.toNat) :
    Text (.char c) [c]
  | letter {c d : Char} (h : escaped? c = some d) : Text (.char d) ['\\', c]
  | unit {a b c d : Char} {u : Nat} (h : unit? [a, b, c, d] = some u) :
    Text (.unit u) ['\\', 'u', a, b, c, d]

/-- The texts of the pieces of a string, one behind the other. -/
inductive PiecesText : List Piece → List Char → Prop
  | nil : PiecesText [] []
  | snoc {pieces : List Piece} {piece : Piece} {text chars : List Char}
    (h : PiecesText pieces text) (hpiece : piece.Text chars) :
    PiecesText (pieces ++ [piece]) (text ++ chars)

/-! ## Numbers -/

/-- The sign of a number. -/
def signText (negative : Bool) : List Char :=
  if negative then ['-'] else []

/-- At least one decimal digit. -/
structure Digits (digits : List Nat) : Prop where
  ne_nil : digits ≠ []
  lt_ten : ∀ d ∈ digits, d < 10

/-- The texts of the fraction of a number. -/
inductive FractionText : List Nat → List Char → Prop
  | none : FractionText [] []
  | some {digits : List Nat} (h : Digits digits) :
    FractionText digits ('.' :: digits.map digitChar)

def isExponentMark (c : Char) : Prop := c = 'e' ∨ c = 'E'

/-- The texts of the exponent of a number. -/
inductive ExponentText : Option (Bool × List Nat) → List Char → Prop
  | none : ExponentText none []
  | plain {mark : Char} (hmark : isExponentMark mark) {digits : List Nat} (h : Digits digits) :
    ExponentText (some (false, digits)) (mark :: digits.map digitChar)
  | plus {mark : Char} (hmark : isExponentMark mark) {digits : List Nat} (h : Digits digits) :
    ExponentText (some (false, digits)) (mark :: '+' :: digits.map digitChar)
  | minus {mark : Char} (hmark : isExponentMark mark) {digits : List Nat} (h : Digits digits) :
    ExponentText (some (true, digits)) (mark :: '-' :: digits.map digitChar)

/-- The texts of a number. -/
inductive Numeral.Text : Numeral → List Char → Prop
  | mk (negative : Bool) {whole fraction : List Nat} {exponent : Option (Bool × List Nat)}
    {fractionText exponentText : List Char} (hwhole : Unpadded whole)
    (hfraction : FractionText fraction fractionText)
    (hexponent : ExponentText exponent exponentText) :
    Text ⟨negative, whole, fraction, exponent⟩
      (signText negative ++ whole.map digitChar ++ fractionText ++ exponentText)

/-! ## Tokens -/

/-- A token that is a single character and stands between values. -/
def Token.isDelimiter : Token → Bool
  | .beginObject | .endObject | .beginArray | .endArray | .colon | .comma => true
  | _ => false

/-- The texts of a token. -/
inductive Token.Text : Token → List Char → Prop
  | delimiter {token : Token} (h : token.isDelimiter) : Text token token.spell
  | null : Text .null ['n', 'u', 'l', 'l']
  | true : Text (.bool true) ['t', 'r', 'u', 'e']
  | false : Text (.bool false) ['f', 'a', 'l', 's', 'e']
  | number {value : Numeral} {text : List Char} (h : value.Text text) : Text (.number value) text
  | text {pieces : List Piece} {text : List Char} (h : PiecesText pieces text) :
    Text (.text ⟨pieces, none⟩) ('"' :: text ++ ['"'])

/-- A text that says nothing. -/
def Blank (text : List Char) : Prop := ∀ c ∈ text, isBlank c

/-- The texts of several tokens, with blanks before each and behind the last. -/
inductive TokensText : List Token → List Char → Prop
  | nil {blanks : List Char} (h : Blank blanks) : TokensText [] blanks
  | cons {token : Token} {list : List Token} {blanks chars rest : List Char}
    (hblanks : Blank blanks) (htoken : token.Text chars) (hrest : TokensText list rest) :
    TokensText (token :: list) (blanks ++ chars ++ rest)

theorem TokensText.blanks_append {list : List Token} {text : List Char} (h : TokensText list text)
    {blanks : List Char} (hblanks : Blank blanks) : TokensText list (blanks ++ text) := by
  cases h with
  | nil hend => exact .nil (List.forall_mem_append.2 ⟨hblanks, hend⟩)
  | cons hfirst htoken hrest =>
    rw [← List.append_assoc, ← List.append_assoc]
    exact .cons (List.forall_mem_append.2 ⟨hblanks, hfirst⟩) htoken hrest

/-! ## Values -/

/-- Values whose containers are all closed and whose strings all have their end. -/
inductive Node.Complete : Node → Prop
  | null : Complete .null
  | bool (value : Bool) : Complete (.bool value)
  | number (value : Numeral) : Complete (.number value)
  | text {value : Spelling} (h : value.cut = none) : Complete (.text value)
  | array {items : List Node} (h : ∀ item ∈ items, item.Complete) : Complete (.array items .closed)
  | object {members : List (Spelling × Node)} (hkeys : ∀ member ∈ members, member.1.cut = none)
    (hvalues : ∀ member ∈ members, member.2.Complete) : Complete (.object members .closed)

/-- Nothing stops a reader that passes over a complete value. -/
theorem Node.Complete.skipStop? {node : Node} (h : node.Complete) : node.skipStop? = none := by
  cases h with
  | text h => exact h
  | null | bool | number | array | object => rfl

/-- The texts of a value. -/
structure Node.Text (node : Node) (text : List Char) : Prop where
  complete : node.Complete
  tokens : TokensText node.tokens text

end Keyring.Json
