import HistoryKeeper.Text.Utf8

/-!
# SHA-256

The digest of bytes as FIPS 180-4 defines it, and its hexadecimal text.
-/

namespace HistoryKeeper.Sha256

def rotate (x : UInt32) (n : UInt32) : UInt32 :=
  (x >>> n) ||| (x <<< (32 - n))

/-- The first 32 bits of the fractional parts of the cube roots of the first 64 primes. -/
def roundConstants : List UInt32 :=
  [0x428a2f98, 0x71374491, 0xb5c0fbcf, 0xe9b5dba5, 0x3956c25b, 0x59f111f1, 0x923f82a4, 0xab1c5ed5,
   0xd807aa98, 0x12835b01, 0x243185be, 0x550c7dc3, 0x72be5d74, 0x80deb1fe, 0x9bdc06a7, 0xc19bf174,
   0xe49b69c1, 0xefbe4786, 0x0fc19dc6, 0x240ca1cc, 0x2de92c6f, 0x4a7484aa, 0x5cb0a9dc, 0x76f988da,
   0x983e5152, 0xa831c66d, 0xb00327c8, 0xbf597fc7, 0xc6e00bf3, 0xd5a79147, 0x06ca6351, 0x14292967,
   0x27b70a85, 0x2e1b2138, 0x4d2c6dfc, 0x53380d13, 0x650a7354, 0x766a0abb, 0x81c2c92e, 0x92722c85,
   0xa2bfe8a1, 0xa81a664b, 0xc24b8b70, 0xc76c51a3, 0xd192e819, 0xd6990624, 0xf40e3585, 0x106aa070,
   0x19a4c116, 0x1e376c08, 0x2748774c, 0x34b0bcb5, 0x391c0cb3, 0x4ed8aa4a, 0x5b9cca4f, 0x682e6ff3,
   0x748f82ee, 0x78a5636f, 0x84c87814, 0x8cc70208, 0x90befffa, 0xa4506ceb, 0xbef9a3f7, 0xc67178f2]

/-- Eight working words. -/
structure Words where
  a : UInt32
  b : UInt32
  c : UInt32
  d : UInt32
  e : UInt32
  f : UInt32
  g : UInt32
  h : UInt32

/-- The first 32 bits of the fractional parts of the square roots of the first eight primes. -/
def initial : Words :=
  ⟨0x6a09e667, 0xbb67ae85, 0x3c6ef372, 0xa54ff53a, 0x510e527f, 0x9b05688c, 0x1f83d9ab, 0x5be0cd19⟩

def Words.add (x y : Words) : Words :=
  ⟨x.a + y.a, x.b + y.b, x.c + y.c, x.d + y.d, x.e + y.e, x.f + y.f, x.g + y.g, x.h + y.h⟩

def Words.toList (x : Words) : List UInt32 :=
  [x.a, x.b, x.c, x.d, x.e, x.f, x.g, x.h]

/-- One round, with a word of the schedule and its constant. -/
def round (x : Words) (word constant : UInt32) : Words :=
  let s1 := rotate x.e 6 ^^^ rotate x.e 11 ^^^ rotate x.e 25
  let choice := (x.e &&& x.f) ^^^ ((x.e ^^^ 0xffffffff) &&& x.g)
  let t1 := x.h + s1 + choice + constant + word
  let s0 := rotate x.a 2 ^^^ rotate x.a 13 ^^^ rotate x.a 22
  let majority := (x.a &&& x.b) ^^^ (x.a &&& x.c) ^^^ (x.b &&& x.c)
  ⟨t1 + (s0 + majority), x.a, x.b, x.c, x.d + t1, x.e, x.f, x.g⟩

/-- The bytes as numbers of four bytes, the first the most significant. -/
def words : Bytes → List UInt32
  | a :: b :: c :: d :: rest =>
    let word := (a.toUInt32 <<< 24) ||| (b.toUInt32 <<< 16) ||| (c.toUInt32 <<< 8) ||| d.toUInt32
    word :: words rest
  | _ => []

/-- The schedule so far, the newest word first, extended by `count` words. -/
def extendSchedule : (count : Nat) → List UInt32 → List UInt32
  | 0, w => w
  | count + 1, w =>
    let word (n : Nat) : UInt32 := (w[n]?).getD 0
    let near := word 1
    let far := word 14
    let s1 := rotate near 17 ^^^ rotate near 19 ^^^ (near >>> 10)
    let s0 := rotate far 7 ^^^ rotate far 18 ^^^ (far >>> 3)
    extendSchedule count ((word 15 + s0 + word 6 + s1) :: w)

/-- The state after one block of 64 bytes. -/
def compress (state : Words) (block : Bytes) : Words :=
  let schedule := (extendSchedule 48 (words block).reverse).reverse
  let rounds := schedule.zip roundConstants
  state.add (rounds.foldl (fun x (word, constant) => round x word constant) state)

/-- A one bit, zeros, and the length in bits, up to a whole number of blocks. -/
def pad (bytes : Bytes) : Bytes :=
  let length := bytes.length
  let zeros := (119 - length % 64) % 64
  let bits := length * 8
  bytes ++ [0x80] ++ List.replicate zeros 0 ++
    (List.range 8).map fun n => (bits / Nat.pow 256 (7 - n)).toUInt8

/-- Take up `count` blocks. -/
def absorb : (count : Nat) → Words → Bytes → Words
  | 0, state, _ => state
  | count + 1, state, bytes => absorb count (compress state (bytes.take 64)) (bytes.drop 64)

def digest (bytes : Bytes) : List UInt32 :=
  let padded := pad bytes
  (absorb (padded.length / 64) initial padded).toList

def hexWord (w : UInt32) : List Char :=
  let ds := Nat.toDigits 16 w.toNat
  List.replicate (8 - ds.length) '0' ++ ds

/-- The digest in lower-case hexadecimal. -/
def hex (bytes : Bytes) : String :=
  String.ofList ((digest bytes).flatMap hexWord)

end HistoryKeeper.Sha256
