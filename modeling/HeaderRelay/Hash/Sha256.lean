import HeaderRelay.Bytes.LittleEndian
import HeaderRelay.Hash.Basic

/-!
# SHA-256

The Secure Hash Standard with 256-bit digests, and its double application, which identifies
headers.

* `Sha256.digest` — the digest of a string of bytes;
* `Sha256.double` — the digest of the digest.

Sizes are part of the types: the schedule of a block has 64 words and a digest 32 bytes.
-/

namespace HeaderRelay
namespace Sha256

/-! ## Constants -/

/-- The first 32 bits of the fractional parts of the cube roots of the first 64 primes. -/
def roundConstants : Vector UInt32 64 := #v[
  0x428a2f98, 0x71374491, 0xb5c0fbcf, 0xe9b5dba5, 0x3956c25b, 0x59f111f1, 0x923f82a4, 0xab1c5ed5,
  0xd807aa98, 0x12835b01, 0x243185be, 0x550c7dc3, 0x72be5d74, 0x80deb1fe, 0x9bdc06a7, 0xc19bf174,
  0xe49b69c1, 0xefbe4786, 0x0fc19dc6, 0x240ca1cc, 0x2de92c6f, 0x4a7484aa, 0x5cb0a9dc, 0x76f988da,
  0x983e5152, 0xa831c66d, 0xb00327c8, 0xbf597fc7, 0xc6e00bf3, 0xd5a79147, 0x06ca6351, 0x14292967,
  0x27b70a85, 0x2e1b2138, 0x4d2c6dfc, 0x53380d13, 0x650a7354, 0x766a0abb, 0x81c2c92e, 0x92722c85,
  0xa2bfe8a1, 0xa81a664b, 0xc24b8b70, 0xc76c51a3, 0xd192e819, 0xd6990624, 0xf40e3585, 0x106aa070,
  0x19a4c116, 0x1e376c08, 0x2748774c, 0x34b0bcb5, 0x391c0cb3, 0x4ed8aa4a, 0x5b9cca4f, 0x682e6ff3,
  0x748f82ee, 0x78a5636f, 0x84c87814, 0x8cc70208, 0x90befffa, 0xa4506ceb, 0xbef9a3f7, 0xc67178f2]

/-- The eight words that a digest is computed on. -/
structure Chain where
  a : UInt32
  b : UInt32
  c : UInt32
  d : UInt32
  e : UInt32
  f : UInt32
  g : UInt32
  h : UInt32

/-- The first 32 bits of the fractional parts of the square roots of the first 8 primes. -/
def Chain.initial : Chain where
  a := 0x6a09e667
  b := 0xbb67ae85
  c := 0x3c6ef372
  d := 0xa54ff53a
  e := 0x510e527f
  f := 0x9b05688c
  g := 0x1f83d9ab
  h := 0x5be0cd19

/-! ## One block -/

def rotateRight (x n : UInt32) : UInt32 :=
  (x >>> n) ||| (x <<< (32 - n))

/-- The big-endian word that starts at byte `i`. -/
def wordAt (message : Array UInt8) (i : Nat) : UInt32 :=
  ((message.getD i 0).toUInt32 <<< 24) ||| ((message.getD (i + 1) 0).toUInt32 <<< 16) |||
    ((message.getD (i + 2) 0).toUInt32 <<< 8) ||| (message.getD (i + 3) 0).toUInt32

/-- The first `16 + n` words of the schedule of the block that starts at byte `start`. -/
def scheduleFrom (message : Array UInt8) (start : Nat) : (n : Nat) → Vector UInt32 (16 + n)
  | 0 => Vector.ofFn fun i => wordAt message (start + 4 * i)
  | n + 1 =>
      let words := scheduleFrom message start n
      let x := words[1 + n]
      let y := words[14 + n]
      let s0 := rotateRight x 7 ^^^ rotateRight x 18 ^^^ (x >>> 3)
      let s1 := rotateRight y 17 ^^^ rotateRight y 19 ^^^ (y >>> 10)
      let next := words[n] + s0 + words[9 + n] + s1
      words.push next

/-- All 64 words of the schedule. -/
def schedule (message : Array UInt8) (start : Nat) : Vector UInt32 64 :=
  scheduleFrom message start 48

/-- One of the 64 rounds, with the sum of its constant and its schedule word. -/
def Chain.round (s : Chain) (word : UInt32) : Chain :=
  let s1 := rotateRight s.e 6 ^^^ rotateRight s.e 11 ^^^ rotateRight s.e 25
  let choice := (s.e &&& s.f) ^^^ (~~~s.e &&& s.g)
  let t1 := s.h + s1 + choice + word
  let s0 := rotateRight s.a 2 ^^^ rotateRight s.a 13 ^^^ rotateRight s.a 22
  let majority := (s.a &&& s.b) ^^^ (s.a &&& s.c) ^^^ (s.b &&& s.c)
  let t2 := s0 + majority
  { a := t1 + t2, b := s.a, c := s.b, d := s.c, e := s.d + t1, f := s.e, g := s.f, h := s.g }

def Chain.add (s t : Chain) : Chain where
  a := s.a + t.a
  b := s.b + t.b
  c := s.c + t.c
  d := s.d + t.d
  e := s.e + t.e
  f := s.f + t.f
  g := s.g + t.g
  h := s.h + t.h

/-- Takes in the block that starts at byte `start`. -/
def Chain.absorb (s : Chain) (message : Array UInt8) (start : Nat) : Chain :=
  let words := schedule message start
  s.add (Fin.foldl 64 (fun t i => t.round (roundConstants[i] + words[i])) s)

/-! ## Whole messages -/

/-- The message followed by a one bit, zeros up to the last eight bytes of a block of 64, and
its length in bits, most significant byte first. -/
def pad (bytes : List UInt8) : Array UInt8 :=
  let size := bytes.length
  let zeros := (119 - size % 64) % 64
  (bytes ++ 0x80 :: (List.replicate zeros 0 ++
    (LittleEndian.split 8 (8 * size)).reverse)).toArray

/-- The bytes of a word, most significant first. -/
def wordBytes (w : UInt32) : List UInt8 :=
  [(w >>> 24).toUInt8, (w >>> 16).toUInt8, (w >>> 8).toUInt8, w.toUInt8]

def Chain.toHash (s : Chain) : Hash :=
  Hash.ofBytes
    (wordBytes s.a ++ wordBytes s.b ++ wordBytes s.c ++ wordBytes s.d ++ wordBytes s.e ++
      wordBytes s.f ++ wordBytes s.g ++ wordBytes s.h)
    (by simp [wordBytes])

/-- The SHA-256 digest of `bytes`. -/
def digest (bytes : List UInt8) : Hash :=
  let message := pad bytes
  (Nat.fold (message.size / 64) (fun i _ s => s.absorb message (64 * i)) Chain.initial).toHash

/-- The digest of the digest. -/
def double (bytes : List UInt8) : Hash :=
  digest (digest bytes).bytes

end Sha256
end HeaderRelay
