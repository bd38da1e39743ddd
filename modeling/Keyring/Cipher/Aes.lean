import Keyring.Bytes

/-!
# AES

A block is four columns of four bytes. A round substitutes bytes, shifts rows, mixes columns and
adds a round key; every step has an inverse, and decryption takes the inverses in the opposite
order. Both directions recurse over the round keys in the same way, so that they can be compared
round by round.
-/

namespace Keyring.Aes

def blockSize : Nat := 16

/-! ## Columns and blocks -/

/-- A column of the state, and a word of the key schedule. -/
structure Word where
  a : UInt8
  b : UInt8
  c : UInt8
  d : UInt8
  deriving DecidableEq, Repr

/-- Four columns. -/
structure Block where
  w : Word
  x : Word
  y : Word
  z : Word
  deriving DecidableEq, Repr

def Word.xor (u v : Word) : Word :=
  ⟨u.a ^^^ v.a, u.b ^^^ v.b, u.c ^^^ v.c, u.d ^^^ v.d⟩

/-- Applies a function to each byte of a column. -/
def Word.map (f : UInt8 → UInt8) (u : Word) : Word :=
  ⟨f u.a, f u.b, f u.c, f u.d⟩

def Word.bytes (u : Word) : Bytes :=
  [u.a, u.b, u.c, u.d]

def Block.xor (s t : Block) : Block :=
  ⟨s.w.xor t.w, s.x.xor t.x, s.y.xor t.y, s.z.xor t.z⟩

def Block.map (f : Word → Word) (s : Block) : Block :=
  ⟨f s.w, f s.x, f s.y, f s.z⟩

/-- The bytes of a block, column by column. -/
def Block.bytes (s : Block) : Bytes :=
  s.w.bytes ++ s.x.bytes ++ s.y.bytes ++ s.z.bytes

/-- What a list is made of when it is taken four items at a time, if it divides by four. -/
def fours? {α β : Type} (make : α → α → α → α → β) : List α → Option (List β)
  | [] => some []
  | a :: b :: c :: d :: rest => (make a b c d :: ·) <$> fours? make rest
  | _ => none

/-- The words of a byte string, if it divides into words. -/
def words? : Bytes → Option (List Word) := fours? Word.mk

def groupWords? : List Word → Option (List Block) := fours? Block.mk

/-- The blocks of a byte string, if it divides into blocks. -/
def blocks? (bytes : Bytes) : Option (List Block) :=
  words? bytes >>= groupWords?

/-! ## Substitution -/

/-- The substitution of bytes: sixteen rows of sixteen bytes, each row one number. -/
def substitution : List Nat :=
  [0x637C777BF26B6FC53001672BFED7AB76,
    0xCA82C97DFA5947F0ADD4A2AF9CA472C0,
    0xB7FD9326363FF7CC34A5E5F171D83115,
    0x04C723C31896059A071280E2EB27B275,
    0x09832C1A1B6E5AA0523BD6B329E32F84,
    0x53D100ED20FCB15B6ACBBE394A4C58CF,
    0xD0EFAAFB434D338545F9027F503C9FA8,
    0x51A3408F929D38F5BCB6DA2110FFF3D2,
    0xCD0C13EC5F974417C4A77E3D645D1973,
    0x60814FDC222A908846EEB814DE5E0BDB,
    0xE0323A0A4906245CC2D3AC629195E479,
    0xE7C8376D8DD54EA96C56F4EA657AAE08,
    0xBA78252E1CA6B4C6E8DD741F4BBD8B8A,
    0x703EB5664803F60E613557B986C11D9E,
    0xE1F8981169D98E949B1E87E9CE5528DF,
    0x8CA1890DBFE6426841992D0FB054BB16]

def inverseSubstitution : List Nat :=
  [0x52096AD53036A538BF40A39E81F3D7FB,
    0x7CE339829B2FFF87348E4344C4DEE9CB,
    0x547B9432A6C2233DEE4C950B42FAC34E,
    0x082EA16628D924B2765BA2496D8BD125,
    0x72F8F66486689816D4A45CCC5D65B692,
    0x6C704850FDEDB9DA5E154657A78D9D84,
    0x90D8AB008CBCD30AF7E45805B8B34506,
    0xD02C1E8FCA3F0F02C1AFBD0301138A6B,
    0x3A9111414F67DCEA97F2CFCEF0B4E673,
    0x96AC7422E7AD3585E2F937E81C75DF6E,
    0x47F11A711D29C5896FB7620EAA18BE1B,
    0xFC563E4BC6D279209ADBC0FE78CD5AF4,
    0x1FDDA8338807C731B11210592780EC5F,
    0x60517FA919B54A0D2DE57A9F93C99CEF,
    0xA0E03B4DAE2AF5B0C8EBBB3C83539961,
    0x172B047EBA77D626E169146355210C7D]

/-- The byte at the row and place that the two halves of a byte name. -/
def entry (rows : List Nat) (b : UInt8) : UInt8 :=
  UInt8.ofNat (rows.getD (b.toNat / 16) 0 / 256 ^ (15 - b.toNat % 16))

def sub (b : UInt8) : UInt8 := entry substitution b

def unsub (b : UInt8) : UInt8 := entry inverseSubstitution b

/-! ## Rows and columns -/

/-- Rotates row `i` of a block by `i` columns to the left. -/
def shiftRows (s : Block) : Block where
  w := ⟨s.w.a, s.x.b, s.y.c, s.z.d⟩
  x := ⟨s.x.a, s.y.b, s.z.c, s.w.d⟩
  y := ⟨s.y.a, s.z.b, s.w.c, s.x.d⟩
  z := ⟨s.z.a, s.w.b, s.x.c, s.y.d⟩

/-- Rotates row `i` of a block by `i` columns to the right. -/
def unshiftRows (s : Block) : Block where
  w := ⟨s.w.a, s.z.b, s.y.c, s.x.d⟩
  x := ⟨s.x.a, s.w.b, s.z.c, s.y.d⟩
  y := ⟨s.y.a, s.x.b, s.w.c, s.z.d⟩
  z := ⟨s.z.a, s.y.b, s.x.c, s.w.d⟩

/-- Doubles a byte in the field of 256 elements. -/
def double (b : UInt8) : UInt8 :=
  (b <<< 1) ^^^ (if b < 0x80 then 0 else 0x1B)

/-- Three times a byte. -/
def times3 (b : UInt8) : UInt8 := double b ^^^ b

def times9 (b : UInt8) : UInt8 := double (double (double b)) ^^^ b

def times11 (b : UInt8) : UInt8 := double (double (double b) ^^^ b) ^^^ b

def times13 (b : UInt8) : UInt8 := double (double (double b ^^^ b)) ^^^ b

def times14 (b : UInt8) : UInt8 := double (double (double b ^^^ b) ^^^ b)

/-- Multiplies a column by the mixing matrix. -/
def mixColumn (u : Word) : Word where
  a := double u.a ^^^ times3 u.b ^^^ u.c ^^^ u.d
  b := u.a ^^^ double u.b ^^^ times3 u.c ^^^ u.d
  c := u.a ^^^ u.b ^^^ double u.c ^^^ times3 u.d
  d := times3 u.a ^^^ u.b ^^^ u.c ^^^ double u.d

/-- Multiplies a column by the inverse of the mixing matrix. -/
def unmixColumn (u : Word) : Word where
  a := times14 u.a ^^^ times11 u.b ^^^ times13 u.c ^^^ times9 u.d
  b := times9 u.a ^^^ times14 u.b ^^^ times11 u.c ^^^ times13 u.d
  c := times13 u.a ^^^ times9 u.b ^^^ times14 u.c ^^^ times11 u.d
  d := times11 u.a ^^^ times13 u.b ^^^ times9 u.c ^^^ times14 u.d

/-! ## Rounds -/

def subBlock (s : Block) : Block := s.map (Word.map sub)

def unsubBlock (s : Block) : Block := s.map (Word.map unsub)

/-- The rounds for the given round keys; the last one does not mix columns. -/
def encryptRounds : List Block → Block → Block
  | [], s => s
  | [key], s => (shiftRows (subBlock s)).xor key
  | key :: keys, s => encryptRounds keys (((shiftRows (subBlock s)).map mixColumn).xor key)

/-- Undoes the rounds for the given round keys. -/
def decryptRounds : List Block → Block → Block
  | [], s => s
  | [key], s => unsubBlock (unshiftRows (s.xor key))
  | key :: keys, s =>
    unsubBlock (unshiftRows (((decryptRounds keys s).xor key).map unmixColumn))

def encryptBlock (keys : List Block) (s : Block) : Block :=
  match keys with
  | [] => s
  | key :: keys => encryptRounds keys (s.xor key)

def decryptBlock (keys : List Block) (s : Block) : Block :=
  match keys with
  | [] => s
  | key :: keys => (decryptRounds keys s).xor key

/-! ## Key schedule -/

/-- The constants that go into every first word of a stretch of the schedule. -/
def roundConstants : List UInt8 :=
  [0x01, 0x02, 0x04, 0x08, 0x10, 0x20, 0x40, 0x80, 0x1B, 0x36]

/-- What is added to the word one key length before word `index`, given the word just before. -/
def scheduleMask (keyWords index : Nat) (previous : Word) : Word :=
  if index % keyWords = 0 then
    let turned : Word := ⟨previous.b, previous.c, previous.d, previous.a⟩
    (turned.map sub).xor ⟨roundConstants.getD (index / keyWords - 1) 0, 0, 0, 0⟩
  else if 6 < keyWords ∧ index % keyWords = 4 then previous.map sub
  else previous

/-- Words of the schedule from `index` on, from a window of as many words as the key has. -/
def expand (keyWords : Nat) : (count index : Nat) → (window : List Word) → List Word
  | 0, _, _ => []
  | _, _, [] => []
  | count + 1, index, word :: rest =>
    let mask := scheduleMask keyWords (index + keyWords) (rest.getLastD word)
    word :: expand keyWords count (index + 1) (rest ++ [word.xor mask])

/-- The round keys of a key of 16, 24 or 32 bytes; there are none for another length. -/
def roundKeys? (key : Bytes) : Option (List Block) :=
  if key.length = 16 ∨ key.length = 24 ∨ key.length = 32 then do
    let window ← words? key
    let keyWords := key.length / 4
    groupWords? (expand keyWords (4 * (keyWords + 7)) 0 window)
  else none

end Keyring.Aes
