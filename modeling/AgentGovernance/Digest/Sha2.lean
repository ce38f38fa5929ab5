import AgentGovernance.Bytes

/-!
# The SHA-2 digests

SHA-256 and SHA-512 share one schedule and one round; a `Variant` holds what differs between
them. The round constants are the leading fraction bits of the cube roots of the first primes and
the initial words those of the square roots, so both variants draw on one definition of each.
-/
namespace AgentGovernance.Sha2

/-- Digit by digit, the largest `r` below `2 ^ bits` with `r ^ k ≤ n`, starting from `found`. -/
def rootFrom (k n : Nat) : Nat → Nat → Nat
  | 0, found => found
  | bits + 1, found =>
      let next := found + (1 <<< bits)
      rootFrom k n bits (if Nat.pow next k ≤ n then next else found)

/-- The first 64 fraction bits of the `k`-th root of `n`. -/
def rootFraction (k n : Nat) : Nat := rootFrom k (n <<< (64 * k)) 72 0 % (1 <<< 64)

/-- The first 80 primes: the numbers below 410 with no smaller proper divisor. -/
def primes : List Nat :=
  (List.range 410).filter fun n => 2 ≤ n && (List.range n).all fun d => d < 2 || n % d != 0

def roundFractions : List Nat := primes.map (rootFraction 3)

def initialFractions : List Nat := (primes.take 8).map (rootFraction 2)

/-- The eight chaining words. -/
structure Chain (α : Type) where
  a : α
  b : α
  c : α
  d : α
  e : α
  f : α
  g : α
  h : α

/-- What a width brings: its words, its four mixing functions and its constants. -/
structure Variant (α : Type) where
  zero : α
  add : α → α → α
  choose : α → α → α → α
  majority : α → α → α → α
  bigSigma0 : α → α
  bigSigma1 : α → α
  smallSigma0 : α → α
  smallSigma1 : α → α
  ofNat : Nat → α
  toNat : α → Nat
  wordBytes : Nat
  constants : List α
  initial : Chain α

namespace Variant

variable {α : Type}

/-- Extends the sixteen words of a block, one word for each remaining round. -/
def extend (v : Variant α) : Nat → Array α → Array α
  | 0, words => words
  | rounds + 1, words =>
      let t := words.size
      let prior := fun back => words.getD (t - back) v.zero
      let word :=
        v.add (v.add (v.smallSigma1 (prior 2)) (prior 7))
          (v.add (v.smallSigma0 (prior 15)) (prior 16))
      extend v rounds (words.push word)

def round (v : Variant α) (s : Chain α) (constant word : α) : Chain α :=
  let t1 := v.add (v.add (v.add s.h (v.bigSigma1 s.e)) (v.choose s.e s.f s.g)) (v.add constant word)
  let t2 := v.add (v.bigSigma0 s.a) (v.majority s.a s.b s.c)
  { a := v.add t1 t2, b := s.a, c := s.b, d := s.c, e := v.add s.d t1, f := s.e, g := s.f,
    h := s.g }

def compress (v : Variant α) (s : Chain α) (block : Bytes) : Chain α :=
  let first := (Bytes.blocks v.wordBytes 16 block).map fun bs => v.ofNat (Bytes.ofBigEndian bs)
  let words := v.extend (v.constants.length - 16) first.toArray
  let r := (v.constants.zip words.toList).foldl (fun s (k, w) => v.round s k w) s
  { a := v.add s.a r.a, b := v.add s.b r.b, c := v.add s.c r.c, d := v.add s.d r.d
    e := v.add s.e r.e, f := v.add s.f r.f, g := v.add s.g r.g, h := v.add s.h r.h }

/-- The message, a one bit, zeros, and the length in bits, filling whole blocks. -/
def pad (v : Variant α) (message : Bytes) : Bytes :=
  let size := 16 * v.wordBytes
  let lengthBytes := 2 * v.wordBytes
  let zeros := (2 * size - 1 - lengthBytes - message.length % size) % size
  message ++ 0x80 :: List.replicate zeros 0 ++ Bytes.bigEndian lengthBytes (8 * message.length)

def digest (v : Variant α) (message : Bytes) : Bytes :=
  let padded := v.pad message
  let size := 16 * v.wordBytes
  let s := (Bytes.blocks size (padded.length / size) padded).foldl v.compress v.initial
  [s.a, s.b, s.c, s.d, s.e, s.f, s.g, s.h].flatMap fun w => Bytes.bigEndian v.wordBytes (v.toNat w)

theorem length_digest (v : Variant α) (message : Bytes) :
    (v.digest message).length = 8 * v.wordBytes := by
  simp [digest]
  omega

end Variant

def chainOf {α : Type} (word : Nat → α) (fractions : List Nat) : Chain α :=
  let prior := fun i => word (fractions.getD i 0)
  { a := prior 0, b := prior 1, c := prior 2, d := prior 3, e := prior 4, f := prior 5,
    g := prior 6, h := prior 7 }

def rotate32 (x : UInt32) (n : UInt32) : UInt32 := (x >>> n) ||| (x <<< (32 - n))

def rotate64 (x : UInt64) (n : UInt64) : UInt64 := (x >>> n) ||| (x <<< (64 - n))

def sha256Variant : Variant UInt32 where
  zero := 0
  add := (· + ·)
  choose x y z := (x &&& y) ^^^ (~~~x &&& z)
  majority x y z := (x &&& y) ^^^ (x &&& z) ^^^ (y &&& z)
  bigSigma0 x := rotate32 x 2 ^^^ rotate32 x 13 ^^^ rotate32 x 22
  bigSigma1 x := rotate32 x 6 ^^^ rotate32 x 11 ^^^ rotate32 x 25
  smallSigma0 x := rotate32 x 7 ^^^ rotate32 x 18 ^^^ (x >>> 3)
  smallSigma1 x := rotate32 x 17 ^^^ rotate32 x 19 ^^^ (x >>> 10)
  ofNat := UInt32.ofNat
  toNat := UInt32.toNat
  wordBytes := 4
  constants := (roundFractions.take 64).map fun n => UInt32.ofNat (n >>> 32)
  initial := chainOf (fun n => UInt32.ofNat (n >>> 32)) initialFractions

def sha512Variant : Variant UInt64 where
  zero := 0
  add := (· + ·)
  choose x y z := (x &&& y) ^^^ (~~~x &&& z)
  majority x y z := (x &&& y) ^^^ (x &&& z) ^^^ (y &&& z)
  bigSigma0 x := rotate64 x 28 ^^^ rotate64 x 34 ^^^ rotate64 x 39
  bigSigma1 x := rotate64 x 14 ^^^ rotate64 x 18 ^^^ rotate64 x 41
  smallSigma0 x := rotate64 x 1 ^^^ rotate64 x 8 ^^^ (x >>> 7)
  smallSigma1 x := rotate64 x 19 ^^^ rotate64 x 61 ^^^ (x >>> 6)
  ofNat := UInt64.ofNat
  toNat := UInt64.toNat
  wordBytes := 8
  constants := (roundFractions.take 80).map UInt64.ofNat
  initial := chainOf UInt64.ofNat initialFractions

def sha256 (message : Bytes) : Bytes := sha256Variant.digest message

def sha512 (message : Bytes) : Bytes := sha512Variant.digest message

theorem length_sha256 (message : Bytes) : (sha256 message).length = 32 :=
  sha256Variant.length_digest message

/-- HMAC over SHA-256. Keys longer than a block are hashed first. -/
def hmacSha256 (key message : Bytes) : Bytes :=
  let short := if key.length > 64 then sha256 key else key
  let block := short ++ List.replicate (64 - short.length) 0
  let inner := block.map (· ^^^ 0x36)
  let outer := block.map (· ^^^ 0x5c)
  sha256 (outer ++ sha256 (inner ++ message))

end AgentGovernance.Sha2
