import WriteBuffer.Bytes

/-!
The seeded 64-bit hash XXH3. Inputs of up to 16, 128 and 240 bytes each have a short form of their
own; longer ones are taken in stripes of 64 bytes into eight accumulators.
-/
namespace WriteBuffer.Xxh3

/-- The built-in secret that inputs are mixed with. -/
def defaultSecret : Array UInt8 := #[
  0xb8, 0xfe, 0x6c, 0x39, 0x23, 0xa4, 0x4b, 0xbe, 0x7c, 0x01, 0x81, 0x2c, 0xf7, 0x21, 0xad, 0x1c,
  0xde, 0xd4, 0x6d, 0xe9, 0x83, 0x90, 0x97, 0xdb, 0x72, 0x40, 0xa4, 0xa4, 0xb7, 0xb3, 0x67, 0x1f,
  0xcb, 0x79, 0xe6, 0x4e, 0xcc, 0xc0, 0xe5, 0x78, 0x82, 0x5a, 0xd0, 0x7d, 0xcc, 0xff, 0x72, 0x21,
  0xb8, 0x08, 0x46, 0x74, 0xf7, 0x43, 0x24, 0x8e, 0xe0, 0x35, 0x90, 0xe6, 0x81, 0x3a, 0x26, 0x4c,
  0x3c, 0x28, 0x52, 0xbb, 0x91, 0xc3, 0x00, 0xcb, 0x88, 0xd0, 0x65, 0x8b, 0x1b, 0x53, 0x2e, 0xa3,
  0x71, 0x64, 0x48, 0x97, 0xa2, 0x0d, 0xf9, 0x4e, 0x38, 0x19, 0xef, 0x46, 0xa9, 0xde, 0xac, 0xd8,
  0xa8, 0xfa, 0x76, 0x3f, 0xe3, 0x9c, 0x34, 0x3f, 0xf9, 0xdc, 0xbb, 0xc7, 0xc7, 0x0b, 0x4f, 0x1d,
  0x8a, 0x51, 0xe0, 0x4b, 0xcd, 0xb4, 0x59, 0x31, 0xc8, 0x9f, 0x7e, 0xc9, 0xd9, 0x78, 0x73, 0x64,
  0xea, 0xc5, 0xac, 0x83, 0x34, 0xd3, 0xeb, 0xc3, 0xc5, 0x81, 0xa0, 0xff, 0xfa, 0x13, 0x63, 0xeb,
  0x17, 0x0d, 0xdd, 0x51, 0xb7, 0xf0, 0xda, 0x49, 0xd3, 0x16, 0x55, 0x26, 0x29, 0xd4, 0x68, 0x9e,
  0x2b, 0x16, 0xbe, 0x58, 0x7d, 0x47, 0xa1, 0xfc, 0x8f, 0xf8, 0xb8, 0xd1, 0x7a, 0xd0, 0x31, 0xce,
  0x45, 0xcb, 0x3a, 0x8f, 0x95, 0x16, 0x04, 0x28, 0xaf, 0xd7, 0xfb, 0xca, 0xbb, 0x4b, 0x40, 0x7e]

def prime32A : UInt64 := 0x9E3779B1
def prime32B : UInt64 := 0x85EBCA77
def prime32C : UInt64 := 0xC2B2AE3D
def prime64A : UInt64 := 0x9E3779B185EBCA87
def prime64B : UInt64 := 0xC2B2AE3D27D4EB4F
def prime64C : UInt64 := 0x165667B19E3779F9
def prime64D : UInt64 := 0x85EBCA77C2B2AE63
def prime64E : UInt64 := 0x27D4EB2F165667C5

/-- The byte at an offset, as a word. -/
def byteAt (data : Array UInt8) (offset : Nat) : UInt64 := (data.getD offset 0).toUInt64

/-- The little-endian word of four bytes at an offset. -/
def word32 (data : Array UInt8) (offset : Nat) : UInt64 :=
  byteAt data offset ||| byteAt data (offset + 1) <<< 8 ||| byteAt data (offset + 2) <<< 16
    ||| byteAt data (offset + 3) <<< 24

/-- The little-endian word of eight bytes at an offset. -/
def word64 (data : Array UInt8) (offset : Nat) : UInt64 :=
  word32 data offset ||| word32 data (offset + 4) <<< 32

/-- The halves of the full product of two words, combined. -/
def fold (a b : UInt64) : UInt64 :=
  let product := a.toNat * b.toNat
  UInt64.ofNat product ^^^ UInt64.ofNat (product >>> 64)

def rotateLeft (word places : UInt64) : UInt64 := word <<< places ||| word >>> (64 - places)

def swapBytes (word : UInt64) : UInt64 :=
  UInt64.ofNat (ofLittleEndian (littleEndian 8 word.toNat).reverse)

/-- The last scrambling of longer inputs. -/
def avalanche (word : UInt64) : UInt64 :=
  let word := (word ^^^ word >>> 37) * 0x165667919E3779F9
  word ^^^ word >>> 32

/-- The last scrambling of the shortest inputs. -/
def avalancheShort (word : UInt64) : UInt64 :=
  let word := (word ^^^ word >>> 33) * prime64B
  let word := (word ^^^ word >>> 29) * prime64C
  word ^^^ word >>> 32

/-- Sixteen bytes of input mixed with sixteen of the secret. -/
def mix16 (data : Array UInt8) (offset secretOffset : Nat) (seed : UInt64) : UInt64 :=
  fold (word64 data offset ^^^ (word64 defaultSecret secretOffset + seed))
    (word64 data (offset + 8) ^^^ (word64 defaultSecret (secretOffset + 8) - seed))

/-- The hash of up to 3 bytes, at least one. -/
def hashTo3 (data : Array UInt8) (seed : UInt64) : UInt64 :=
  let size := data.size
  let combined := byteAt data 0 <<< 16 ||| byteAt data (size / 2) <<< 24
    ||| byteAt data (size - 1) ||| UInt64.ofNat size <<< 8
  avalancheShort (combined ^^^ ((word32 defaultSecret 0 ^^^ word32 defaultSecret 4) + seed))

/-- The hash of 4 to 8 bytes. -/
def hashTo8 (data : Array UInt8) (seed : UInt64) : UInt64 :=
  let size := data.size
  let seed := seed ^^^ (swapBytes (seed &&& 0xFFFFFFFF) >>> 32) <<< 32
  let input := word32 data (size - 4) + word32 data 0 <<< 32
  let word := input ^^^ ((word64 defaultSecret 8 ^^^ word64 defaultSecret 16) - seed)
  let word := word ^^^ rotateLeft word 49 ^^^ rotateLeft word 24
  let word := word * 0x9FB21C651E98DF25
  let word := word ^^^ (word >>> 35 + UInt64.ofNat size)
  let word := word * 0x9FB21C651E98DF25
  word ^^^ word >>> 28

/-- The hash of 9 to 16 bytes. -/
def hashTo16 (data : Array UInt8) (seed : UInt64) : UInt64 :=
  let size := data.size
  let low := word64 data 0 ^^^ ((word64 defaultSecret 24 ^^^ word64 defaultSecret 32) + seed)
  let high :=
    word64 data (size - 8) ^^^ ((word64 defaultSecret 40 ^^^ word64 defaultSecret 48) - seed)
  avalanche (UInt64.ofNat size + swapBytes low + high + fold low high)

/-- The hash of 17 to 128 bytes: pairs of 16 bytes from both ends inwards. -/
def hashTo128 (data : Array UInt8) (seed : UInt64) : UInt64 :=
  let size := data.size
  let sum := (List.range ((size - 1) / 32 + 1)).foldl
    (fun sum k => sum + mix16 data (16 * k) (32 * k) seed
      + mix16 data (size - 16 * (k + 1)) (32 * k + 16) seed)
    (UInt64.ofNat size * prime64A)
  avalanche sum

/-- The hash of 129 to 240 bytes. -/
def hashTo240 (data : Array UInt8) (seed : UInt64) : UInt64 :=
  let size := data.size
  let start := (List.range 8).foldl
    (fun sum k => sum + mix16 data (16 * k) (16 * k) seed) (UInt64.ofNat size * prime64A)
  let sum := (List.range (size / 16 - 8)).foldl
    (fun sum k => sum + mix16 data (16 * (k + 8)) (16 * k + 3) seed) (avalanche start)
  avalanche (sum + mix16 data (size - 16) 119 seed)

/-- The secret that a seed makes of the built-in one. -/
def seededSecret (seed : UInt64) : Array UInt8 :=
  ((List.range 12).flatMap fun k =>
    littleEndian 8 (word64 defaultSecret (16 * k) + seed).toNat
      ++ littleEndian 8 (word64 defaultSecret (16 * k + 8) - seed).toNat).toArray

/-- Takes 64 bytes of input into the eight accumulators. -/
def takeStripe (data secret : Array UInt8) (sums : Array UInt64) (offset secretOffset : Nat) :
    Array UInt64 :=
  (List.range 8).foldl (fun sums lane =>
    let word : UInt64 := word64 data (offset + 8 * lane)
    let keyed : UInt64 := word ^^^ word64 secret (secretOffset + 8 * lane)
    let low : UInt64 := keyed &&& 0xFFFFFFFF
    let high : UInt64 := keyed >>> 32
    (sums.modify (lane ^^^ 1) (· + word)).modify lane (· + low * high)) sums

/-- Takes the first stripes of a block into the accumulators. -/
def takeStripes (data secret : Array UInt8) (sums : Array UInt64) (offset count : Nat) :
    Array UInt64 :=
  (List.range count).foldl
    (fun sums k => takeStripe data secret sums (offset + 64 * k) (8 * k)) sums

/-- Scrambles the accumulators at the end of a block. -/
def scrambleSums (secret : Array UInt8) (sums : Array UInt64) : Array UInt64 :=
  sums.mapIdx fun lane (sum : UInt64) =>
    (sum ^^^ (sum >>> 47) ^^^ word64 secret (128 + 8 * lane)) * prime32A

/-- The hash of more than 240 bytes: blocks of 16 stripes, the stripes left over, and the last 64
bytes once more. -/
def hashLong (data : Array UInt8) (seed : UInt64) : UInt64 :=
  let size := data.size
  let secret := if seed = 0 then defaultSecret else seededSecret seed
  let start : Array UInt64 :=
    #[prime32C, prime64A, prime64B, prime64C, prime64D, prime32B, prime64E, prime32A]
  let blocks := (size - 1) / 1024
  let sums := (List.range blocks).foldl
    (fun sums block => scrambleSums secret (takeStripes data secret sums (1024 * block) 16)) start
  let sums := takeStripes data secret sums (1024 * blocks) ((size - 1 - 1024 * blocks) / 64)
  let sums := takeStripe data secret sums (size - 64) 121
  let result := (List.range 4).foldl
    (fun result k => result + fold (sums.getD (2 * k) 0 ^^^ word64 secret (11 + 16 * k))
      (sums.getD (2 * k + 1) 0 ^^^ word64 secret (19 + 16 * k)))
    (UInt64.ofNat size * prime64A)
  avalanche result

/-- The hash of a byte string under a seed. -/
def hash (seed : UInt64) (bytes : Bytes) : UInt64 :=
  let data := bytes.toArray
  if data.size = 0 then
    avalancheShort (seed ^^^ word64 defaultSecret 56 ^^^ word64 defaultSecret 64)
  else if data.size ≤ 3 then hashTo3 data seed
  else if data.size ≤ 8 then hashTo8 data seed
  else if data.size ≤ 16 then hashTo16 data seed
  else if data.size ≤ 128 then hashTo128 data seed
  else if data.size ≤ 240 then hashTo240 data seed
  else hashLong data seed

end WriteBuffer.Xxh3
