import ContainerBuild.Source
import ContainerBuild.Tar.Header

/-!
# Reading archives

The members of an archive are read one after another. Members that only carry a long name, a long link
or further attributes belong to the member that follows them. A file with holes has its parts listed
in its header and in blocks after it.

Each member is read only when it is asked for, so a fault of the archive shows after the members before
it have been dealt with.
-/

namespace ContainerBuild
namespace Tar

/-- One part of the data of a member: bytes of the archive or a hole. -/
inductive Part
  | data (length : Nat)
  | hole (length : Nat)
  deriving DecidableEq, Repr

structure Entry where
  block : Block
  longName : Option Bytes
  longLink : Option Bytes
  attributes : Option Bytes
  /-- The size of the member, with its holes. -/
  size : Nat
  parts : List Part
  /-- The archive from the data of the member on. -/
  body : Source

structure RawEntry where
  block : Block
  size : Nat
  body : Source

namespace Attributes

/-- The key and value of a line, which begins with its own length. -/
def parseLine (line : Bytes) : Option (Bytes × Bytes) := do
  let digits := line.takeWhile (· != 0x20)
  if digits.length = line.length then none
  let length ← (Utf8.decode? digits).bind fun s => Text.unsigned? 10 Text.maxUnsigned64 s.toList
  if line.length + 1 ≠ length then none
  let pair := line.drop (digits.length + 1)
  let key := pair.takeWhile (· != 0x3D)
  if key.length = pair.length then none
  return (key, pair.drop (key.length + 1))

def lines (text : Bytes) : List Bytes :=
  (Bytes.split 0x0A text).takeWhile fun line => !line.isEmpty

def value? (text : Bytes) (key : String) : Option Bytes :=
  ((lines text).filterMap parseLine).findSome? fun (k, v) =>
    if k = Utf8.encode key then some v else none

/-- The number that the first line with a key has; lines before it must be well formed. -/
def number? (key : Bytes) : List Bytes → Option Nat
  | [] => none
  | line :: rest =>
    match parseLine line with
    | none => none
    | some (k, v) =>
      if k = key then (Utf8.decode? v).bind fun s => Text.unsigned? 10 Text.maxUnsigned64 s.toList
      else number? key rest

def size? (text : Bytes) : Option Nat := number? (Utf8.encode "size") (lines text)

end Attributes

inductive Next (α : Type)
  | member (a : α)
  | ended
  | broken

/-- The next header, from the block where it must begin. The size in the attributes wins over the one
in the header. -/
def nextRaw (s : Source) (attributes : Option Bytes) : Next RawEntry :=
  match s.nextBlock blockSize with
  | .ended => .ended
  | .broken => .broken
  | .block bytes rest =>
    let block : Block := ⟨bytes⟩
    if block.isZero then .ended
    else if block.checksum? ≠ some block.sum then .broken
    else
      match block.size? with
      | none => .broken
      | some size =>
        let size := (attributes.bind Attributes.size?).getD size
        if Text.maxUnsigned64 < size + (blockSize - 1) then .broken else .member ⟨block, size, rest⟩

namespace RawEntry

def after? (r : RawEntry) : Option Source :=
  r.body.skip? (padded r.size)

def data (r : RawEntry) : Option Bytes :=
  if r.body.fails && r.body.bytes.length < r.size then none else some (r.body.bytes.take r.size)

end RawEntry

/-- The parts of a file with holes so far: how far they reach, how much of the data is left, and the
parts in reverse. -/
structure Holes where
  reached : Nat
  left : Nat
  parts : List Part

/-- Adds a part, given by its offset and its length in octal digits; a part without one is none. -/
def Holes.add (size : Nat) (h : Holes) (part : Bytes) : Option Holes :=
  let offset := part.take 12
  let length := (part.drop 12).take 12
  if offset.headD 0 == 0 || length.headD 0 == 0 then some h
  else do
    let offset ← Block.octal? offset
    let length ← Block.octal? length
    if length ≠ 0 ∧ (size - h.left) % blockSize ≠ 0 then none
    if offset < h.reached then none
    if Text.maxUnsigned64 < offset + length then none
    if h.left < length then none
    let hole := if h.reached < offset then [Part.hole (offset - h.reached)] else []
    return ⟨offset + length, h.left - length, .data length :: (hole ++ h.parts)⟩

def Holes.addAll (size : Nat) : Nat → Bytes → Holes → Option Holes
  | 0, _, h => some h
  | n + 1, b, h => (h.add size (b.take 24)).bind (addAll size n (b.drop 24))

def Holes.extend (size : Nat) : Nat → Source → Holes → Option (Holes × Source)
  | 0, _, _ => none
  | fuel + 1, s, h =>
    match s.nextBlock blockSize with
    | .block b rest => do
      let h ← Holes.addAll size 21 b h
      if (b.drop 504).headD 0 == 1 then extend size fuel rest h else return (h, rest)
    | _ => none

def sparseParts (r : RawEntry) : Option (Nat × List Part × Source) := do
  if !r.block.isGnu then none
  let h ← Holes.addAll r.size 4 (r.block.slice 386 96) ⟨0, r.size, []⟩
  let (h, body) ←
    if (r.block.slice 482 1).headD 0 == 1 then
      Holes.extend r.size (r.body.bytes.length + 1) r.body h
    else some (h, r.body)
  let real ← Block.octal? (r.block.slice 483 12)
  if h.reached ≠ real ∨ h.left ≠ 0 then none
  return (real, h.parts.reverse, body)

/-- What belongs to the member that is read next. -/
structure Pending where
  longName : Option Bytes
  longLink : Option Bytes
  attributes : Option Bytes

def Pending.none : Pending := ⟨.none, .none, .none⟩

def Pending.isNone (p : Pending) : Bool :=
  p.longName.isNone && p.longLink.isNone && p.attributes.isNone

/-- The member that a header begins, and the archive after it, if it can be passed over. -/
def complete (r : RawEntry) (p : Pending) : Next (Entry × Option Source) :=
  if r.block.kind == Kind.sparse then
    match sparseParts r with
    | .none => .broken
    | some (size, parts, body) =>
      .member (⟨r.block, p.longName, p.longLink, p.attributes, size, parts, body⟩,
        body.skip? (padded r.size))
  else
    .member (⟨r.block, p.longName, p.longLink, p.attributes, r.size, [.data r.size], r.body⟩,
      r.after?)

/-- What a member that belongs to the next one adds to what is known of that. Each may come once. -/
def Pending.add (p : Pending) (kind : UInt8) (data : Bytes) : Option Pending :=
  if kind == Kind.longName then
    if p.longName.isSome then .none else some { p with longName := some data }
  else if kind == Kind.longLink then
    if p.longLink.isSome then .none else some { p with longLink := some data }
  else
    if p.attributes.isSome then .none else some { p with attributes := some data }

def Block.isForNext (b : Block) : Bool :=
  (b.isGnu || b.isStandard) &&
    (b.kind == Kind.longName || b.kind == Kind.longLink || b.kind == Kind.extended)

def nextEntryFrom : Nat → Source → Pending → Next (Entry × Option Source)
  | 0, _, _ => .broken
  | fuel + 1, s, p =>
    match nextRaw s p.attributes with
    | .broken => .broken
    | .ended => if p.isNone then .ended else .broken
    | .member r =>
      if r.block.isForNext then
        match r.data, r.after? with
        | some data, some rest =>
          match p.add r.block.kind data with
          | some p => nextEntryFrom fuel rest p
          | .none => .broken
        | _, _ => .broken
      else complete r p

def nextEntry (s : Source) : Next (Entry × Option Source) :=
  nextEntryFrom (s.bytes.length + 1) s Pending.none

/-- The members from here on, and whether the archive is well formed up to its end. -/
def entriesFrom : Nat → Source → List Entry × Bool
  | 0, _ => ([], false)
  | fuel + 1, s =>
    match nextEntry s with
    | .ended => ([], true)
    | .broken => ([], false)
    | .member (e, none) => ([e], false)
    | .member (e, some rest) =>
      let (es, whole) := entriesFrom fuel rest
      (e :: es, whole)

/-- All members of an archive that can be read, in order, and whether that is all there is. Each takes a
block at least. -/
def entries (s : Source) : List Entry × Bool :=
  entriesFrom (s.bytes.length / blockSize + 1) s

namespace Entry

def dropNul (b : Bytes) : Bytes :=
  if b.getLast? == some 0 then b.dropLast else b

/-- The name of a member. A long name wins over one in the attributes, and that over the header. -/
def name (e : Entry) : Bytes :=
  match e.longName with
  | some b => dropNul b
  | none =>
    match e.attributes.bind fun a => Attributes.value? a "path" with
    | some b => b
    | none => e.block.fullName

def link? (e : Entry) : Option Bytes :=
  match e.longLink with
  | some b => some (dropNul b)
  | none =>
    match e.attributes.bind fun a => Attributes.value? a "linkpath" with
    | some b => some b
    | none => e.block.link?

def fillParts : List Part → Bytes → Bytes × Bool
  | [], _ => ([], true)
  | .hole n :: rest, b =>
    let (more, whole) := fillParts rest b
    (List.replicate n 0 ++ more, whole)
  | .data n :: rest, b =>
    if b.length < n then (b, false)
    else
      let (more, whole) := fillParts rest (b.drop n)
      (b.take n ++ more, whole)

def data (e : Entry) : Bytes × Bool :=
  fillParts e.parts e.body.bytes

end Entry
end Tar
end ContainerBuild
