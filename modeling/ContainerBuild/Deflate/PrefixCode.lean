import ContainerBuild.Bytes

/-!
# Prefix codes

A prefix code gives a word of up to fifteen bits to each of its symbols. It is known from the lengths
of the words alone: shorter words come before longer ones, words of one length go with the order of
the symbols, and each word is the smallest that no earlier word begins.
-/

namespace ContainerBuild
namespace Deflate

def maxWord : Nat := 15

/-- How many words there are of each length from one on, and the symbols in the order of their
words. -/
structure PrefixCode where
  counts : List Nat
  symbols : Array Nat

namespace PrefixCode

def lengths : List Nat := (List.range maxWord).map (· + 1)

/-- The code of the symbols 0, 1, … with words of the given lengths; length zero is for a symbol that
has no word. -/
def ofLengths (l : List Nat) : PrefixCode where
  counts := lengths.map fun n => l.count n
  symbols := (lengths.flatMap fun n =>
    (l.zipIdx.filter fun p => p.1 == n).map Prod.snd).toArray

/-- The share of all words of the greatest length that the words of the code begin. -/
def coverage (c : PrefixCode) : Nat :=
  c.counts.foldl (fun n count => 2 * n + count) 0

/-- Whether every long enough sequence of bits begins with a word. -/
def isComplete (c : PrefixCode) : Bool :=
  c.coverage == 1 <<< maxWord

/-- A code may be incomplete when it has at most one symbol. -/
def isUsable (c : PrefixCode) : Bool :=
  c.isComplete || c.symbols.size ≤ 1

end PrefixCode

/-- What is still to be read, bit by bit: a number of bits held back, lowest first, and the bytes
after them. -/
structure BitSource where
  held : Nat
  count : Nat
  rest : Bytes

namespace BitSource

def ofBytes (b : Bytes) : BitSource := ⟨0, 0, b⟩

def fill (n : Nat) : Nat → Nat → Bytes → Option BitSource
  | held, count, [] => if n ≤ count then some ⟨held, count, []⟩ else none
  | held, count, b :: rest =>
    if n ≤ count then some ⟨held, count, b :: rest⟩
    else fill n (held + b.toNat <<< count) (count + 8) rest

/-- The number that the next `n` bits make, lowest first, and what comes after them. -/
def take? (s : BitSource) (n : Nat) : Option (Nat × BitSource) :=
  (fill n s.held s.count s.rest).map fun f =>
    (f.held % (1 <<< n), ⟨f.held >>> n, f.count - n, f.rest⟩)

/-- The rest from the next whole byte on. -/
def align (s : BitSource) : BitSource :=
  ⟨s.held >>> (s.count % 8), s.count - s.count % 8, s.rest⟩

def remaining (s : BitSource) : Bytes :=
  (List.range (s.count / 8)).map (fun i => UInt8.ofNat (s.align.held >>> (8 * i))) ++ s.rest

/-- The number of bits that are left. -/
def bitCount (s : BitSource) : Nat := s.count + 8 * s.rest.length

end BitSource
end Deflate
end ContainerBuild
