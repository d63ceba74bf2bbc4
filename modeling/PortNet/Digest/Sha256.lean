import PortNet.Json.Printer

namespace PortNet.Digest

/-- The largest number whose `k`-th power is at most `n`, looked for among those below `2 ^ 36`. -/
def integerRoot (k n : Nat) : Nat :=
  (List.range 36).foldr (fun bit r =>
    let next := r + Nat.pow 2 bit
    if Nat.pow next k ≤ n then next else r) 0

def primes (below : Nat) : List Nat :=
  (List.range below).filter (fun n => 2 ≤ n ∧ (List.range n).all (fun d => d < 2 ∨ n % d ≠ 0))

/-- The first 32 bits behind the point of the `k`-th root of a prime. -/
def rootBits (k prime : Nat) : UInt32 := UInt32.ofNat (integerRoot k (prime * Nat.pow 2 (32 * k)))

/-- Eight words that are carried from block to block. -/
structure State where
  a : UInt32
  b : UInt32
  c : UInt32
  d : UInt32
  e : UInt32
  f : UInt32
  g : UInt32
  h : UInt32

namespace State

def words (s : State) : List UInt32 := [s.a, s.b, s.c, s.d, s.e, s.f, s.g, s.h]

def add (s t : State) : State :=
  ⟨s.a + t.a, s.b + t.b, s.c + t.c, s.d + t.d, s.e + t.e, s.f + t.f, s.g + t.g, s.h + t.h⟩

/-- The square roots of the first eight primes. -/
def start : State :=
  ⟨rootBits 2 2, rootBits 2 3, rootBits 2 5, rootBits 2 7,
    rootBits 2 11, rootBits 2 13, rootBits 2 17, rootBits 2 19⟩

end State

/-- The cube roots of the first sixty-four primes. -/
def roundConstants : List UInt32 := (primes 312).map (rootBits 3)

def rotateRight (x n : UInt32) : UInt32 := (x >>> n) ||| (x <<< (32 - n))

def smallSigma0 (x : UInt32) : UInt32 := rotateRight x 7 ^^^ rotateRight x 18 ^^^ (x >>> 3)

def smallSigma1 (x : UInt32) : UInt32 := rotateRight x 17 ^^^ rotateRight x 19 ^^^ (x >>> 10)

def bigSigma0 (x : UInt32) : UInt32 := rotateRight x 2 ^^^ rotateRight x 13 ^^^ rotateRight x 22

def bigSigma1 (x : UInt32) : UInt32 := rotateRight x 6 ^^^ rotateRight x 11 ^^^ rotateRight x 25

def choose (x y z : UInt32) : UInt32 := (x &&& y) ^^^ (~~~x &&& z)

def majority (x y z : UInt32) : UInt32 := (x &&& y) ^^^ (x &&& z) ^^^ (y &&& z)

/-- One round with its scheduled word and its constant, added up beforehand. -/
def round (s : State) (input : UInt32) : State :=
  let t₁ := s.h + bigSigma1 s.e + choose s.e s.f s.g + input
  let t₂ := bigSigma0 s.a + majority s.a s.b s.c
  ⟨t₁ + t₂, s.a, s.b, s.c, s.d + t₁, s.e, s.f, s.g⟩

/-- The sixteen words of a block and forty-eight more, each made from four before it. -/
def schedule (block : Array UInt32) : Array UInt32 :=
  (List.range 48).foldl (fun w i => w.push
    (smallSigma1 (w.getD (i + 14) 0) + w.getD (i + 9) 0 + smallSigma0 (w.getD (i + 1) 0)
      + w.getD i 0)) block

def compress (s : State) (block : Array UInt32) : State :=
  s.add (((schedule block).toList.zipWith (· + ·) roundConstants).foldl round s)

/-- The message, a closing bit, zeros up to the last eight bytes of a block, and its length in
bits. -/
def padded (message : List UInt8) : List UInt8 :=
  let length := message.length
  message ++ 0x80 :: List.replicate ((119 - length % 64) % 64) 0 ++
    (List.range 8).map (fun i => UInt8.ofNat (8 * length / Nat.pow 256 (7 - i)))

def bigEndian (bytes : List UInt8) : UInt32 :=
  bytes.foldl (fun w byte => (w <<< 8) ||| byte.toUInt32) 0

/-- Cuts a list into pieces of `n + 1` members, the last of which may be shorter. -/
def pieces {α : Type} (n : Nat) : List α → List (List α)
  | [] => []
  | x :: xs => (x :: xs.take n) :: pieces n (xs.drop n)
termination_by xs => xs.length
decreasing_by simp only [List.length_drop, List.length_cons]; omega

def sha256 (message : List UInt8) : List UInt32 :=
  let words := (pieces 3 (padded message)).map bigEndian
  ((pieces 15 words).foldl (fun s block => compress s block.toArray) .start).words

def hexWord (w : UInt32) : List Char :=
  (List.range 8).map (fun i => Json.hexDigit (w.toNat / Nat.pow 16 (7 - i) % 16))

/-- The digest of the bytes of a text in hexadecimal digits. -/
def fingerprint (text : String) : String :=
  String.ofList ((sha256 text.toUTF8.toList).flatMap hexWord)

end PortNet.Digest
