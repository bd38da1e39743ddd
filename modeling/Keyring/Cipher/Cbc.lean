import Keyring.Cipher.Aes
import Keyring.Error

/-!
# Chained blocks

Before a block is encrypted, the cipher block before it is added; an initial block stands before the
first. The chain is defined over any permutation of blocks and then applied to AES.
-/

namespace Keyring.Cbc

open Aes

/-- Encrypts a chain of blocks behind an initial block. -/
def encryptBlocks (encrypt : Block → Block) : (initial : Block) → List Block → List Block
  | _, [] => []
  | initial, plain :: rest =>
    let cipher := encrypt (plain.xor initial)
    cipher :: encryptBlocks encrypt cipher rest

/-- Decrypts a chain of blocks behind an initial block. -/
def decryptBlocks (decrypt : Block → Block) : (initial : Block) → List Block → List Block
  | _, [] => []
  | initial, cipher :: rest => (decrypt cipher).xor initial :: decryptBlocks decrypt cipher rest

/-- The round keys and the initial block, if key and initial value have lengths the cipher knows. -/
def setup (key initial : Bytes) : Result (List Block × Block) :=
  match roundKeys? key, blocks? initial with
  | some keys, some [block] => .ok (keys, block)
  | _, _ => .error .invalidKeyLength

/-- The blocks of a text, which must divide into blocks. -/
def wholeBlocks (data : Bytes) : Result (List Block) :=
  match blocks? data with
  | some blocks => .ok blocks
  | none => .error .invalidPadding

/-- Encrypts whole blocks with AES. -/
def encrypt (key initial data : Bytes) : Result Bytes := do
  let (keys, block) ← setup key initial
  let plain ← wholeBlocks data
  return (encryptBlocks (encryptBlock keys) block plain).flatMap Block.bytes

/-- Decrypts whole blocks with AES. -/
def decrypt (key initial data : Bytes) : Result Bytes := do
  let (keys, block) ← setup key initial
  let cipher ← wholeBlocks data
  return (decryptBlocks (decryptBlock keys) block cipher).flatMap Block.bytes

end Keyring.Cbc
