/-!
# XXH64

The 64-bit digest of a byte string: stripes of 32 bytes go into four lanes, what is left over is
mixed in by eights, fours and single bytes, and a final avalanche spreads every bit.
-/

namespace StagedLowering.Text.Digest

def prime1 : UInt64 := 0x9E3779B185EBCA87
def prime2 : UInt64 := 0xC2B2AE3D27D4EB4F
def prime3 : UInt64 := 0x165667B19E3779F9
def prime4 : UInt64 := 0x85EBCA77C2B2AE63
def prime5 : UInt64 := 0x27D4EB2F165667C5

def rotateLeft (x k : UInt64) : UInt64 := (x <<< k) ||| (x >>> (64 - k))

/-- The number written by bytes, the lowest first. -/
def word (bytes : List UInt8) : UInt64 := bytes.foldr (fun b w => w * 256 + b.toUInt64) 0

def round (lane input : UInt64) : UInt64 := rotateLeft (lane + input * prime2) 31 * prime1

def mergeLane (hash lane : UInt64) : UInt64 := (hash ^^^ round 0 lane) * prime1 + prime4

structure Lanes where
  a : UInt64
  b : UInt64
  c : UInt64
  d : UInt64

def Lanes.start (seed : UInt64) : Lanes :=
  { a := seed + prime1 + prime2, b := seed + prime2, c := seed, d := seed - prime1 }

def Lanes.absorb (lanes : Lanes) (stripe : List UInt8) : Lanes where
  a := round lanes.a (word (stripe.take 8))
  b := round lanes.b (word ((stripe.drop 8).take 8))
  c := round lanes.c (word ((stripe.drop 16).take 8))
  d := round lanes.d (word (stripe.drop 24))

def Lanes.merge (lanes : Lanes) : UInt64 :=
  let sum := rotateLeft lanes.a 1 + rotateLeft lanes.b 7 + rotateLeft lanes.c 12 +
    rotateLeft lanes.d 18
  mergeLane (mergeLane (mergeLane (mergeLane sum lanes.a) lanes.b) lanes.c) lanes.d

/-- The lanes after a number of stripes, and the bytes behind them. -/
def Lanes.absorbAll (lanes : Lanes) (bytes : List UInt8) : Nat → Lanes × List UInt8
  | 0 => (lanes, bytes)
  | stripes + 1 => (lanes.absorb (bytes.take 32)).absorbAll (bytes.drop 32) stripes

def mixEight (hash word : UInt64) : UInt64 :=
  rotateLeft (hash ^^^ round 0 word) 27 * prime1 + prime4

def mixFour (hash word : UInt64) : UInt64 :=
  rotateLeft (hash ^^^ (word * prime1)) 23 * prime2 + prime3

def mixOne (hash : UInt64) (byte : UInt8) : UInt64 :=
  rotateLeft (hash ^^^ (byte.toUInt64 * prime5)) 11 * prime1

/-- Mixes in what the stripes left over. -/
def mixRest (hash : UInt64) : List UInt8 → UInt64
  | b₀ :: b₁ :: b₂ :: b₃ :: b₄ :: b₅ :: b₆ :: b₇ :: rest =>
    mixRest (mixEight hash (word [b₀, b₁, b₂, b₃, b₄, b₅, b₆, b₇])) rest
  | b₀ :: b₁ :: b₂ :: b₃ :: rest => rest.foldl mixOne (mixFour hash (word [b₀, b₁, b₂, b₃]))
  | rest => rest.foldl mixOne hash

def avalanche (hash : UInt64) : UInt64 :=
  let hash := (hash ^^^ (hash >>> 33)) * prime2
  let hash := (hash ^^^ (hash >>> 29)) * prime3
  hash ^^^ (hash >>> 32)

def digest (seed : UInt64) (bytes : List UInt8) : UInt64 :=
  let length := bytes.length
  let (lanes, rest) := (Lanes.start seed).absorbAll bytes (length / 32)
  let hash := if 32 ≤ length then lanes.merge else seed + prime5
  avalanche (mixRest (hash + length.toUInt64) rest)

end StagedLowering.Text.Digest
