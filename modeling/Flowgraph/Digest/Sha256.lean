/-!
# SHA-256

The digest of a byte string.  The message is padded to whole blocks of
sixteen words, and each block is worked into eight chaining words.
-/

namespace Flowgraph.Digest.Sha256

/-- The constant of each of the sixty-four rounds. -/
def roundConstants : List UInt32 :=
  [0x428a2f98, 0x71374491, 0xb5c0fbcf, 0xe9b5dba5, 0x3956c25b, 0x59f111f1,
   0x923f82a4, 0xab1c5ed5, 0xd807aa98, 0x12835b01, 0x243185be, 0x550c7dc3,
   0x72be5d74, 0x80deb1fe, 0x9bdc06a7, 0xc19bf174, 0xe49b69c1, 0xefbe4786,
   0x0fc19dc6, 0x240ca1cc, 0x2de92c6f, 0x4a7484aa, 0x5cb0a9dc, 0x76f988da,
   0x983e5152, 0xa831c66d, 0xb00327c8, 0xbf597fc7, 0xc6e00bf3, 0xd5a79147,
   0x06ca6351, 0x14292967, 0x27b70a85, 0x2e1b2138, 0x4d2c6dfc, 0x53380d13,
   0x650a7354, 0x766a0abb, 0x81c2c92e, 0x92722c85, 0xa2bfe8a1, 0xa81a664b,
   0xc24b8b70, 0xc76c51a3, 0xd192e819, 0xd6990624, 0xf40e3585, 0x106aa070,
   0x19a4c116, 0x1e376c08, 0x2748774c, 0x34b0bcb5, 0x391c0cb3, 0x4ed8aa4a,
   0x5b9cca4f, 0x682e6ff3, 0x748f82ee, 0x78a5636f, 0x84c87814, 0x8cc70208,
   0x90befffa, 0xa4506ceb, 0xbef9a3f7, 0xc67178f2]

/-- The eight chaining words. -/
structure Chaining where
  a : UInt32
  b : UInt32
  c : UInt32
  d : UInt32
  e : UInt32
  f : UInt32
  g : UInt32
  h : UInt32

/-- The chaining words before the first block. -/
def initialChaining : Chaining :=
  ⟨0x6a09e667, 0xbb67ae85, 0x3c6ef372, 0xa54ff53a,
    0x510e527f, 0x9b05688c, 0x1f83d9ab, 0x5be0cd19⟩

/-- A word with its bits turned to the right; the amount lies between 1 and 31. -/
def rotateRight (word amount : UInt32) : UInt32 :=
  (word >>> amount) ||| (word <<< (32 - amount))

/--
The words of all rounds.  The schedule starts with the block itself, and each
later word is mixed from the words 2, 7, 15 and 16 places before it.
-/
def schedule (block : Array UInt32) : Array UInt32 :=
  (List.range 48).foldl
    (fun words _ =>
      let before (distance : Nat) : UInt32 := words.getD (words.size - distance) 0
      let far := before 15
      let near := before 2
      let farMix := rotateRight far 7 ^^^ rotateRight far 18 ^^^ (far >>> 3)
      let nearMix := rotateRight near 17 ^^^ rotateRight near 19 ^^^ (near >>> 10)
      words.push (before 16 + farMix + before 7 + nearMix))
    block

/-- One round, with the word and the constant of the round. -/
def round (chaining : Chaining) (word constant : UInt32) : Chaining :=
  let mixE := rotateRight chaining.e 6 ^^^ rotateRight chaining.e 11 ^^^ rotateRight chaining.e 25
  let choice := (chaining.e &&& chaining.f) ^^^ ((~~~chaining.e) &&& chaining.g)
  let first := chaining.h + mixE + choice + constant + word
  let mixA := rotateRight chaining.a 2 ^^^ rotateRight chaining.a 13 ^^^ rotateRight chaining.a 22
  let majority :=
    (chaining.a &&& chaining.b) ^^^ (chaining.a &&& chaining.c) ^^^ (chaining.b &&& chaining.c)
  ⟨first + (mixA + majority), chaining.a, chaining.b, chaining.c,
    chaining.d + first, chaining.e, chaining.f, chaining.g⟩

/-- Work one block of sixteen words into the chaining words. -/
def compress (chaining : Chaining) (block : Array UInt32) : Chaining :=
  let mixed :=
    ((schedule block).toList.zip roundConstants).foldl
      (fun state (word, constant) => round state word constant) chaining
  ⟨chaining.a + mixed.a, chaining.b + mixed.b, chaining.c + mixed.c, chaining.d + mixed.d,
    chaining.e + mixed.e, chaining.f + mixed.f, chaining.g + mixed.g, chaining.h + mixed.h⟩

/-- The bytes of a number, most significant first. -/
def bigEndian (count number : Nat) : List UInt8 :=
  (List.range count).map fun index =>
    UInt8.ofNat (number / Nat.pow 256 (count - 1 - index))

/--
The message, a closing one bit, the fewest zeros that complete a block, and the
length of the message in bits.
-/
def padded (message : List UInt8) : List UInt8 :=
  message ++ [0x80] ++ List.replicate ((119 - message.length % 64) % 64) 0 ++
    bigEndian 8 (8 * message.length)

/-- The words of a byte string, four bytes a word. -/
def words : List UInt8 → List UInt32
  | first :: second :: third :: fourth :: rest =>
      ((first.toUInt32 <<< 24) ||| (second.toUInt32 <<< 16) |||
        (third.toUInt32 <<< 8) ||| fourth.toUInt32) :: words rest
  | _ => []

/-- The chaining words so far and the words of the block that is being collected. -/
structure Progress where
  chaining : Chaining
  block : Array UInt32

/-- Collect one more word, and work the block in once it is complete. -/
def Progress.absorb (progress : Progress) (word : UInt32) : Progress :=
  let block := progress.block.push word
  if block.size = 16 then ⟨compress progress.chaining block, #[]⟩
  else ⟨progress.chaining, block⟩

/-- The thirty-two bytes of the digest. -/
def digest (message : List UInt8) : List UInt8 :=
  let final := ((words (padded message)).foldl Progress.absorb ⟨initialChaining, #[]⟩).chaining
  [final.a, final.b, final.c, final.d, final.e, final.f, final.g, final.h].flatMap
    fun word => bigEndian 4 word.toNat

/-- Two lower-case hexadecimal digits for each byte. -/
def hexadecimal (bytes : List UInt8) : String :=
  String.ofList (bytes.flatMap fun byte =>
    [(byte.toNat / 16).digitChar, (byte.toNat % 16).digitChar])

/-- The digest of the UTF-8 form of a text, in hexadecimal. -/
def ofText (text : String) : String :=
  hexadecimal (digest text.toUTF8.toList)

end Flowgraph.Digest.Sha256
