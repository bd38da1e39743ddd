/-!
# JSON tokens

A text is cut into tokens by a machine that looks at one character at a time. What the machine has
read of a token is its mode, so cutting a text in two only splits the run of the machine.

A text need not be well formed. The machine stops at the first place where no token can be completed
and says there why: a character that may not stand, or the end of the text. A string keeps its
pieces as they are spelled, since an unpaired half of an escaped character matters only to a reader
who wants the string.
-/

namespace Keyring.Json

/-- What stops the reading of a text. -/
inductive Stop
  /-- A character that may not stand where it does. -/
  | malformed
  | truncated
  deriving DecidableEq, Repr

/-! ## Strings as they are spelled -/

/-- One piece of a string: a character, or a 16-bit unit written as a `\u` escape. -/
inductive Piece
  | char (value : Char)
  | unit (value : Nat)
  deriving DecidableEq, Repr

/-- A string as it is spelled, with what cut it short if anything did. -/
structure Spelling where
  pieces : List Piece
  cut : Option Stop
  deriving DecidableEq, Repr

/-- Units that only stand first in a pair. -/
def isHighHalf (unit : Nat) : Bool :=
  0xD800 ≤ unit && unit < 0xDC00

/-- Units that only stand second in a pair. -/
def isLowHalf (unit : Nat) : Bool :=
  0xDC00 ≤ unit && unit < 0xE000

/-- The character that a pair of halves denotes. -/
def joinHalves (high low : Nat) : Char :=
  Char.ofNat (0x10000 + (high - 0xD800) * 0x400 + (low - 0xDC00))

/-- The characters that pieces denote. A half without its partner is malformed; where the text stops
before the partner could come, the cause of the stop counts. -/
def Piece.decodeAll (cut : Option Stop) : List Piece → Except Stop (List Char)
  | [] =>
    match cut with
    | none => .ok []
    | some stop => .error stop
  | .char c :: rest => (c :: ·) <$> decodeAll cut rest
  | [.unit u] =>
    if isLowHalf u then .error .malformed
    else if isHighHalf u then .error (cut.getD .malformed)
    else
      match cut with
      | none => .ok [Char.ofNat u]
      | some stop => .error stop
  | .unit u :: .char c :: rest =>
    if isLowHalf u || isHighHalf u then .error .malformed
    else (Char.ofNat u :: c :: ·) <$> decodeAll cut rest
  | .unit u :: .unit v :: rest =>
    if isLowHalf u then .error .malformed
    else if isHighHalf u then
      if isLowHalf v then (joinHalves u v :: ·) <$> decodeAll cut rest else .error .malformed
    else (Char.ofNat u :: ·) <$> decodeAll cut (.unit v :: rest)

def Spelling.decode (spelling : Spelling) : Except Stop String :=
  String.ofList <$> Piece.decodeAll spelling.cut spelling.pieces

/-- The plain spelling of a string. -/
def Spelling.ofString (text : String) : Spelling :=
  ⟨text.toList.map .char, none⟩

/-! ## Numbers as they are spelled -/

/-- A number as it is spelled: its sign and its decimal digits. -/
structure Numeral where
  negative : Bool
  whole : List Nat
  fraction : List Nat
  /-- Whether the exponent is negative, and its digits. -/
  exponent : Option (Bool × List Nat)
  deriving DecidableEq, Repr

/-- The decimal digits of a number, most significant first. -/
def decimalDigits (n : Nat) : List Nat :=
  (Nat.toDigits 10 n).map fun c => c.toNat - 48

def Numeral.ofNat (n : Nat) : Numeral :=
  ⟨false, decimalDigits n, [], none⟩

/-! ## Tokens -/

/-- A token, or the place where the text stops making sense. A `broken` token has two causes: one
for a reader that wants the value, one for a reader that only passes over it. -/
inductive Token
  | beginObject
  | endObject
  | beginArray
  | endArray
  | colon
  | comma
  | null
  | bool (value : Bool)
  | number (value : Numeral)
  | text (value : Spelling)
  | broken (read skipped : Stop)
  deriving DecidableEq, Repr

/-- Where in a number the machine is. -/
inductive Stage
  | sign
  | zero
  | whole
  | point
  | fraction
  | mark
  | markSign
  | exponent
  deriving DecidableEq, Repr

/-- What the machine has read of the token it is in. Pieces of a string are kept latest first. -/
inductive Mode
  | between
  | word (rest : List Char) (token : Token)
  | text (pieces : List Piece)
  | escape (pieces : List Piece)
  | unicode (pieces : List Piece) (seen : List Char)
  | number (stage : Stage) (value : Numeral)
  | stopped
  deriving Repr

/-! ## Characters -/

def isBlank (c : Char) : Bool :=
  c == ' ' || c == '\n' || c == '\t' || c == '\r'

def digit? (c : Char) : Option Nat :=
  if '0' ≤ c ∧ c ≤ '9' then some (c.toNat - 48) else none

/-- The value of a hexadecimal digit, in either case. -/
def hexDigit? (c : Char) : Option Nat :=
  if '0' ≤ c ∧ c ≤ '9' then some (c.toNat - 48)
  else if 'a' ≤ c ∧ c ≤ 'f' then some (c.toNat - 87)
  else if 'A' ≤ c ∧ c ≤ 'F' then some (c.toNat - 55)
  else none

/-- The character that a one-letter escape denotes. -/
def escaped? (c : Char) : Option Char :=
  match c with
  | '"' => some '"'
  | '\\' => some '\\'
  | '/' => some '/'
  | 'b' => some '\x08'
  | 'f' => some '\x0c'
  | 'n' => some '\n'
  | 'r' => some '\r'
  | 't' => some '\t'
  | _ => none

/-- The unit that four hexadecimal digits denote. -/
def unit? (digits : List Char) : Option Nat :=
  match digits.mapM hexDigit? with
  | some [a, b, c, d] => some (((a * 16 + b) * 16 + c) * 16 + d)
  | _ => none

/-! ## The machine -/

/-- A string that the text breaks off. -/
def cutText (pieces : List Piece) (stop : Stop) : Token :=
  .text ⟨pieces.reverse, some stop⟩

/-- The step from between two tokens. -/
def openToken (c : Char) : List Token × Mode :=
  if isBlank c then ([], .between)
  else
    match c with
    | '{' => ([.beginObject], .between)
    | '}' => ([.endObject], .between)
    | '[' => ([.beginArray], .between)
    | ']' => ([.endArray], .between)
    | ':' => ([.colon], .between)
    | ',' => ([.comma], .between)
    | '"' => ([], .text [])
    | 'n' => ([], .word ['u', 'l', 'l'] .null)
    | 't' => ([], .word ['r', 'u', 'e'] (.bool true))
    | 'f' => ([], .word ['a', 'l', 's', 'e'] (.bool false))
    | '-' => ([], .number .sign ⟨true, [], [], none⟩)
    | '0' => ([], .number .zero ⟨false, [0], [], none⟩)
    | c =>
      match digit? c with
      | some d => ([], .number .whole ⟨false, [d], [], none⟩)
      | none => ([.broken .malformed .malformed], .stopped)

/-- The end of all tokens at a character that may not stand. -/
def halt : List Token × Mode :=
  ([.broken .malformed .malformed], .stopped)

/-- One more digit of an exponent. -/
def Numeral.addExponentDigit (value : Numeral) (d : Nat) : Numeral :=
  match value.exponent with
  | some (negative, digits) => { value with exponent := some (negative, digits ++ [d]) }
  | none => { value with exponent := some (false, [d]) }

/-- The step inside a number. The character after a complete number opens the next token. -/
def numberStep (stage : Stage) (value : Numeral) (c : Char) : List Token × Mode :=
  let close : List Token × Mode :=
    let (tokens, mode) := openToken c
    (.number value :: tokens, mode)
  match stage with
  | .sign =>
    match digit? c with
    | some 0 => ([], .number .zero { value with whole := [0] })
    | some d => ([], .number .whole { value with whole := [d] })
    | none => halt
  | .zero =>
    if (digit? c).isSome then halt
    else if c = '.' then ([], .number .point value)
    else if c = 'e' ∨ c = 'E' then ([], .number .mark value)
    else close
  | .whole =>
    match digit? c with
    | some d => ([], .number .whole { value with whole := value.whole ++ [d] })
    | none =>
      if c = '.' then ([], .number .point value)
      else if c = 'e' ∨ c = 'E' then ([], .number .mark value)
      else close
  | .point =>
    match digit? c with
    | some d => ([], .number .fraction { value with fraction := [d] })
    | none => halt
  | .fraction =>
    match digit? c with
    | some d => ([], .number .fraction { value with fraction := value.fraction ++ [d] })
    | none => if c = 'e' ∨ c = 'E' then ([], .number .mark value) else close
  | .mark =>
    if c = '+' then ([], .number .markSign { value with exponent := some (false, []) })
    else if c = '-' then ([], .number .markSign { value with exponent := some (true, []) })
    else
      match digit? c with
      | some d => ([], .number .exponent (value.addExponentDigit d))
      | none => halt
  | .markSign =>
    match digit? c with
    | some d => ([], .number .exponent (value.addExponentDigit d))
    | none => halt
  | .exponent =>
    match digit? c with
    | some d => ([], .number .exponent (value.addExponentDigit d))
    | none => close

/-- The step behind `\u`. Four bytes are taken before they are judged, whatever they are. -/
def unicodeStep (pieces : List Piece) (seen : List Char) (c : Char) : List Token × Mode :=
  let seen := seen ++ [c]
  if (String.ofList seen).utf8ByteSize < 4 then ([], .unicode pieces seen)
  else
    match unit? seen with
    | some unit => ([], .text (.unit unit :: pieces))
    | none => ([cutText pieces .malformed], .stopped)

/-- One character: the tokens it completes, and what the machine is in afterwards. -/
def Mode.step (mode : Mode) (c : Char) : List Token × Mode :=
  match mode with
  | .between => openToken c
  | .word [] token =>
    let (tokens, mode) := openToken c
    (token :: tokens, mode)
  | .word (d :: rest) token =>
    if c ≠ d then halt
    else if rest.isEmpty then ([token], .between)
    else ([], .word rest token)
  | .text pieces =>
    if c = '"' then ([.text ⟨pieces.reverse, none⟩], .between)
    else if c = '\\' then ([], .escape pieces)
    else if c.toNat < 0x20 then ([cutText pieces .malformed], .stopped)
    else ([], .text (.char c :: pieces))
  | .escape pieces =>
    if c = 'u' then ([], .unicode pieces [])
    else
      match escaped? c with
      | some d => ([], .text (.char d :: pieces))
      | none => ([cutText pieces .malformed], .stopped)
  | .unicode pieces seen => unicodeStep pieces seen c
  | .number stage value => numberStep stage value c
  | .stopped => ([], .stopped)

/-- The tokens that the end of the text completes. A number that lacks a digit is truncated for its
reader and malformed for a reader that passes over it. -/
def Mode.finish : Mode → List Token
  | .between | .stopped => []
  | .word [] token => [token]
  | .word _ _ => [.broken .truncated .truncated]
  | .text pieces | .escape pieces | .unicode pieces _ => [cutText pieces .truncated]
  | .number stage value =>
    match stage with
    | .sign | .point | .mark | .markSign => [.broken .truncated .malformed]
    | .zero | .whole | .fraction | .exponent => [.number value]

/-- The tokens of the rest of a text, from a mode of the machine. -/
def Mode.run : Mode → List Char → List Token
  | mode, [] => mode.finish
  | mode, c :: rest =>
    let (tokens, next) := mode.step c
    tokens ++ next.run rest

def tokens (text : List Char) : List Token :=
  Mode.between.run text

/-! ## Writing tokens -/

/-- The four lower-case hexadecimal digits of a unit. -/
def unitDigits (unit : Nat) : List Char :=
  [unit / 4096 % 16, unit / 256 % 16, unit / 16 % 16, unit % 16].map fun n =>
    if n < 10 then Char.ofNat (48 + n) else Char.ofNat (87 + n)

/-- The characters that spell a piece; quotes, backslashes and control characters are escaped. -/
def Piece.spell : Piece → List Char
  | .unit u => '\\' :: 'u' :: unitDigits u
  | .char '"' => ['\\', '"']
  | .char '\\' => ['\\', '\\']
  | .char '\x08' => ['\\', 'b']
  | .char '\x0c' => ['\\', 'f']
  | .char '\n' => ['\\', 'n']
  | .char '\r' => ['\\', 'r']
  | .char '\t' => ['\\', 't']
  | .char c => if c.toNat < 0x20 then '\\' :: 'u' :: unitDigits c.toNat else [c]

def digitChar (d : Nat) : Char :=
  Char.ofNat (48 + d)

def Numeral.spell (value : Numeral) : List Char :=
  (if value.negative then ['-'] else []) ++ value.whole.map digitChar ++
    (if value.fraction.isEmpty then [] else '.' :: value.fraction.map digitChar) ++
    (match value.exponent with
    | none => []
    | some (negative, digits) =>
      'e' :: (if negative then ['-'] else []) ++ digits.map digitChar)

/-- The characters that spell a token; a broken one has none. -/
def Token.spell : Token → List Char
  | .beginObject => ['{']
  | .endObject => ['}']
  | .beginArray => ['[']
  | .endArray => [']']
  | .colon => [':']
  | .comma => [',']
  | .null => ['n', 'u', 'l', 'l']
  | .bool true => ['t', 'r', 'u', 'e']
  | .bool false => ['f', 'a', 'l', 's', 'e']
  | .number value => value.spell
  | .text value => '"' :: value.pieces.flatMap Piece.spell ++ ['"']
  | .broken _ _ => []

end Keyring.Json
