import ContainerBuild.Deflate.PrefixCode

/-!
# Inflating

Deflated data are a sequence of blocks. A block holds bytes as they are, or symbols of a prefix code:
a byte, the end of the block, or the length of a copy, which is followed by a symbol for the distance
to go back. The codes of a block are fixed or written at its start.

Inflating keeps what it has made when the data end too soon or make no sense, and says which.
-/

namespace ContainerBuild
namespace Deflate

/-- Why inflating stops before the last block is over. -/
inductive Halt
  | cut
  | corrupt
  deriving DecidableEq, Repr

structure Progress where
  input : BitSource
  output : Array UInt8

/-- A step of inflating. What is made before a step fails is kept. -/
abbrev Step (α : Type) := ExceptT Halt (StateM Progress) α

def takeBits (n : Nat) : Step Nat := do
  let p ← get
  match p.input.take? n with
  | some (bits, input) =>
    set { p with input := input }
    return bits
  | none => throw .cut

/-- Reads the rest of a word. `word` is the word so far, `first` the first word of this length, and
`index` the number of symbols with shorter words. -/
def readWord (c : PrefixCode) : List Nat → Nat → Nat → Nat → Step Nat
  | [], _, _, _ => throw .corrupt
  | count :: counts, word, first, index => do
    let word := 2 * word + (← takeBits 1)
    let first := 2 * first
    if word < first + count then return c.symbols.getD (index + (word - first)) 0
    else readWord c counts word (first + count) (index + count)

def readSymbol (c : PrefixCode) : Step Nat :=
  readWord c c.counts 0 0 0

def emit (b : UInt8) : Step Unit :=
  modify fun p => { p with output := p.output.push b }

/-- Repeats, byte by byte, what was made some distance ago. What lies before the start is zero. -/
def copyBack (distance : Nat) : Nat → Step Unit
  | 0 => pure ()
  | n + 1 => do
    let p ← get
    let b := if p.output.size < distance then 0 else p.output.getD (p.output.size - distance) 0
    emit b
    copyBack distance n

/-- The smallest copy of each symbol from 257 on, and how many bits are added to it. -/
def copyLengths : List (Nat × Nat) :=
  [(3, 0), (4, 0), (5, 0), (6, 0), (7, 0), (8, 0), (9, 0), (10, 0), (11, 1), (13, 1), (15, 1),
    (17, 1), (19, 2), (23, 2), (27, 2), (31, 2), (35, 3), (43, 3), (51, 3), (59, 3), (67, 4),
    (83, 4), (99, 4), (115, 4), (131, 5), (163, 5), (195, 5), (227, 5), (258, 0)]

def copyDistances : List (Nat × Nat) :=
  [(1, 0), (2, 0), (3, 0), (4, 0), (5, 1), (7, 1), (9, 2), (13, 2), (17, 3), (25, 3), (33, 4),
    (49, 4), (65, 5), (97, 5), (129, 6), (193, 6), (257, 7), (385, 7), (513, 8), (769, 8),
    (1025, 9), (1537, 9), (2049, 10), (3073, 10), (4097, 11), (6145, 11), (8193, 12), (12289, 12),
    (16385, 13), (24577, 13)]

/-- A number given by a symbol and the bits after it. -/
def readAmount (table : List (Nat × Nat)) (symbol : Nat) : Step Nat :=
  match table[symbol]? with
  | some (base, extra) => do return base + (← takeBits extra)
  | none => throw .corrupt

/-- The symbols of a block up to its end. Every symbol takes a bit at least, so the number of bits
bounds the number of symbols. -/
def readSymbols (literals distances : PrefixCode) : Nat → Step Unit
  | 0 => throw .cut
  | fuel + 1 => do
    let symbol ← readSymbol literals
    if symbol < 256 then
      emit (UInt8.ofNat symbol)
      readSymbols literals distances fuel
    else if symbol = 256 then pure ()
    else
      let length ← readAmount copyLengths (symbol - 257)
      let distance ← readAmount copyDistances (← readSymbol distances)
      copyBack distance length
      readSymbols literals distances fuel

def readPlain : Step Unit := do
  modify fun p => { p with input := p.input.align }
  let length ← takeBits 16
  let check ← takeBits 16
  if length + check ≠ 0xFFFF then throw .corrupt
  let p ← get
  let bytes := p.input.remaining
  set { p with
    input := BitSource.ofBytes (bytes.drop length)
    output := p.output ++ bytes.take length }
  if bytes.length < length then throw .cut

def fixedLiterals : PrefixCode :=
  PrefixCode.ofLengths (List.replicate 144 8 ++ List.replicate 112 9 ++ List.replicate 24 7 ++
    List.replicate 8 8)

def fixedDistances : PrefixCode :=
  PrefixCode.ofLengths (List.replicate 32 5)

/-- The order in which the lengths of the words for lengths are written. -/
def lengthOrder : List Nat :=
  [16, 17, 18, 0, 8, 7, 9, 6, 10, 5, 11, 4, 12, 3, 13, 2, 14, 1, 15]

/-- Reads lengths of words until there are as many as wanted, in reverse. -/
def readLengths (c : PrefixCode) (wanted : Nat) :
    Nat → List Nat → Step (List Nat)
  | 0, _ => throw .cut
  | fuel + 1, done => do
    if wanted < done.length then throw .corrupt
    if done.length = wanted then return done
    let symbol ← readSymbol c
    if symbol < 16 then readLengths c wanted fuel (symbol :: done)
    else if symbol = 16 then
      match done with
      | [] => throw .corrupt
      | last :: _ =>
        let n ← takeBits 2
        readLengths c wanted fuel (List.replicate (3 + n) last ++ done)
    else if symbol = 17 then
      let n ← takeBits 3
      readLengths c wanted fuel (List.replicate (3 + n) 0 ++ done)
    else
      let n ← takeBits 7
      readLengths c wanted fuel (List.replicate (11 + n) 0 ++ done)

def readShortLengths : Nat → Step (List Nat)
  | 0 => return []
  | n + 1 => do
    let first ← takeBits 3
    let rest ← readShortLengths n
    return first :: rest

def readCodes : Step (PrefixCode × PrefixCode) := do
  let literalCount := 257 + (← takeBits 5)
  let distanceCount := 1 + (← takeBits 5)
  let lengthCount := 4 + (← takeBits 4)
  let short := lengthOrder.zip (← readShortLengths lengthCount)
  let lengthCode := PrefixCode.ofLengths
    ((List.range 19).map fun symbol => (short.lookup symbol).getD 0)
  if !lengthCode.isComplete then throw .corrupt
  let wanted := literalCount + distanceCount
  let lengths := (← readLengths lengthCode wanted (wanted + 1) []).reverse
  let literals := PrefixCode.ofLengths (lengths.take literalCount)
  let distances := PrefixCode.ofLengths (lengths.drop literalCount)
  if !literals.isUsable || !distances.isUsable then throw .corrupt
  return (literals, distances)

def readBlocks : Nat → Step Unit
  | 0 => throw .cut
  | fuel + 1 => do
    let isLast ← takeBits 1
    let form ← takeBits 2
    let p ← get
    if form = 0 then readPlain
    else if form = 1 then readSymbols fixedLiterals fixedDistances (p.input.bitCount + 1)
    else if form = 2 then do
      let (literals, distances) ← readCodes
      readSymbols literals distances (p.input.bitCount + 1)
    else throw .corrupt
    if isLast = 1 then pure () else readBlocks fuel

/-- What some deflated data hold: the bytes made of them, and the data after the last block or why it
was not reached. -/
def inflate (b : Bytes) : Bytes × Except Halt Bytes :=
  let (outcome, p) := (readBlocks (8 * b.length + 1)).run ⟨BitSource.ofBytes b, #[]⟩
  (p.output.toList, outcome.map fun _ => p.input.align.remaining)

end Deflate
end ContainerBuild
