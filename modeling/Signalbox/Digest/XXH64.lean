import Signalbox.Digest.Bytes

/-!
# The 64-bit xxHash

The xxHash of a list of bytes with 64-bit words and seed zero.  The bytes are read as words of
eight; as long as four words are left they go, one each, through four lanes, which are then merged,
and the rest is mixed in word by word, then by half a word, then byte by byte.
-/

set_option autoImplicit false

namespace Signalbox.Digest.XXH64

def prime1 : UInt64 := 11400714785074694791
def prime2 : UInt64 := 14029467366897019727
def prime3 : UInt64 := 1609587929392839161
def prime4 : UInt64 := 9650029242287828579
def prime5 : UInt64 := 2870177450012600261

def rotate (x : UInt64) (n : UInt64) : UInt64 := (x <<< n) ||| (x >>> (64 - n))

/-- Mix one word into a lane. -/
def round (lane word : UInt64) : UInt64 := rotate (lane + word * prime2) 31 * prime1

/-- The complete words of eight bytes, and the bytes that are left over. -/
def split : List UInt8 → List UInt64 × List UInt8
  | a :: b :: c :: d :: e :: f :: g :: h :: rest =>
    let (words, tail) := split rest
    (UInt64.ofNat (ofBytes [a, b, c, d, e, f, g, h]) :: words, tail)
  | tail => ([], tail)

/-- The four lanes. -/
structure Lanes where
  v1 : UInt64
  v2 : UInt64
  v3 : UInt64
  v4 : UInt64

/-- Pass all groups of four words through the lanes; fewer than four words are left. -/
def Lanes.absorb (l : Lanes) : List UInt64 → Lanes × List UInt64
  | a :: b :: c :: d :: rest =>
    Lanes.absorb ⟨round l.v1 a, round l.v2 b, round l.v3 c, round l.v4 d⟩ rest
  | rest => (l, rest)

/-- Fold one lane into the state. -/
def mergeLane (h lane : UInt64) : UInt64 := (h ^^^ round 0 lane) * prime1 + prime4

/-- The state of the four lanes. -/
def Lanes.merge (l : Lanes) : UInt64 :=
  let h := rotate l.v1 1 + rotate l.v2 7 + rotate l.v3 12 + rotate l.v4 18
  [l.v1, l.v2, l.v3, l.v4].foldl mergeLane h

/-- Mix a whole word into the state. -/
def mixWord (h word : UInt64) : UInt64 := rotate (h ^^^ round 0 word) 27 * prime1 + prime4

def mixHalf (h word : UInt64) : UInt64 := rotate (h ^^^ (word * prime1)) 23 * prime2 + prime3

def mixByte (h : UInt64) (b : UInt8) : UInt64 := rotate (h ^^^ (b.toUInt64 * prime5)) 11 * prime1

/-- Mix the bytes after the last whole word into the state. -/
def mixTail (h : UInt64) : List UInt8 → UInt64
  | a :: b :: c :: d :: rest => rest.foldl mixByte (mixHalf h (UInt64.ofNat (ofBytes [a, b, c, d])))
  | rest => rest.foldl mixByte h

/-- Spread every bit over the whole word. -/
def avalanche (h : UInt64) : UInt64 :=
  let h := (h ^^^ (h >>> 33)) * prime2
  let h := (h ^^^ (h >>> 29)) * prime3
  h ^^^ (h >>> 32)

/-- The hash of a list of bytes. -/
def hash (bytes : List UInt8) : UInt64 :=
  let (words, tail) := split bytes
  let (lanes, rest) := Lanes.absorb ⟨prime1 + prime2, prime2, 0, 0 - prime1⟩ words
  let start := if bytes.length < 32 then prime5 else lanes.merge
  let h := start + UInt64.ofNat bytes.length
  avalanche (mixTail (rest.foldl mixWord h) tail)

end Signalbox.Digest.XXH64
