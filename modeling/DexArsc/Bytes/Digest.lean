/-
The Adler-32 checksum.
-/

import DexArsc.Bytes.Word

namespace DexArsc

/-- The two sums of an Adler-32 checksum. -/
structure Adler where
  /-- One plus the sum of the bytes. -/
  low : UInt32 := 1
  /-- The sum of the values that the first sum takes. -/
  high : UInt32 := 0

namespace Adler

/-- Both sums are kept below the largest prime below `2 ^ 16`. -/
def modulus : UInt32 := 65521

/-- The sums after one more byte. -/
def push (sums : Adler) (byte : UInt8) : Adler :=
  let low := (sums.low + byte.toUInt32) % modulus
  { low, high := (sums.high + low) % modulus }

/-- The checksum word, with the second sum in the high half. -/
def word (sums : Adler) : UInt32 :=
  sums.high <<< 16 ||| sums.low

end Adler

/-- The Adler-32 checksum of the bytes from a position on. -/
def adler32 (data : Bytes) (start : Nat := 0) : UInt32 :=
  (data.foldl Adler.push {} start).word

end DexArsc

namespace DexArsc

/-- The five words of a SHA-1 computation. -/
structure Sha1 where
  a : UInt32 := 0x67452301
  b : UInt32 := 0xEFCDAB89
  c : UInt32 := 0x98BADCFE
  d : UInt32 := 0x10325476
  e : UInt32 := 0xC3D2E1F0

namespace Sha1

/-- A word rotated to the left by fewer bits than it has. -/
def rotate (word bits : UInt32) : UInt32 :=
  word <<< bits ||| word >>> (32 - bits)

/-- The big-endian word at a position. Bytes past the end count as zero. -/
def bigEndianWord (data : Bytes) (position : Nat) : UInt32 :=
  let byte (i : Nat) : UInt32 := (data[position + i]?.getD 0).toUInt32
  byte 0 <<< 24 ||| byte 1 <<< 16 ||| byte 2 <<< 8 ||| byte 3

/-- The four bytes of a word, the highest first. -/
def bigEndian (word : UInt32) : List UInt8 :=
  (Bytes.ofWord32 word).reverse

/-- The message with its end mark, padded to whole blocks, and with its length in bits. -/
def padded (message : Bytes) : Bytes :=
  let zeros := (119 - message.size % 64) % 64
  let length := message.size * 8
  message ++ (0x80 :: List.replicate zeros 0).toArray ++
    (bigEndian (UInt32.ofNat (length / UInt32.size)) ++ bigEndian (UInt32.ofNat length)).toArray

/-- The schedule of a block: its 16 words and 64 words that each mix four earlier ones. -/
def schedule (data : Bytes) (position : Nat) : Array UInt32 :=
  let words := (List.range 16).foldl (fun words i =>
    words.push (bigEndianWord data (position + 4 * i))) (Array.emptyWithCapacity 80)
  (List.range 64).foldl (fun words i =>
    let word (back : Nat) : UInt32 := words[16 + i - back]?.getD 0
    words.push (rotate (word 3 ^^^ word 8 ^^^ word 14 ^^^ word 16) 1)) words

/-- The mixing function and the constant of a round. -/
def mix (round : Nat) (b c d : UInt32) : UInt32 × UInt32 :=
  if round < 20 then (b &&& c ||| ~~~b &&& d, 0x5A827999)
  else if round < 40 then (b ^^^ c ^^^ d, 0x6ED9EBA1)
  else if round < 60 then (b &&& c ||| b &&& d ||| c &&& d, 0x8F1BBCDC)
  else (b ^^^ c ^^^ d, 0xCA62C1D6)

/-- The state after one round with a word of the schedule. -/
def step (state : Sha1) (round : Nat) (word : UInt32) : Sha1 :=
  let (mixed, constant) := mix round state.b state.c state.d
  { a := rotate state.a 5 + mixed + state.e + constant + word
    b := state.a
    c := rotate state.b 30
    d := state.c
    e := state.d }

/-- The state after the block at a position. -/
def absorb (data : Bytes) (state : Sha1) (position : Nat) : Sha1 :=
  let (last, _) := (schedule data position).foldl (fun (state, round) word =>
    (step state round word, round + 1)) (state, 0)
  { a := state.a + last.a
    b := state.b + last.b
    c := state.c + last.c
    d := state.d + last.d
    e := state.e + last.e }

/-- The 20 bytes of a state. -/
def bytes (state : Sha1) : List UInt8 :=
  [state.a, state.b, state.c, state.d, state.e].flatMap bigEndian

end Sha1

/-- The SHA-1 digest of a message. -/
def sha1 (message : Bytes) : List UInt8 :=
  let data := Sha1.padded message
  ((List.range (data.size / 64)).foldl (fun state block => Sha1.absorb data state (64 * block))
    {}).bytes

end DexArsc
