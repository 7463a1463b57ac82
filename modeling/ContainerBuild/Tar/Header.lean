import ContainerBuild.Bytes
import ContainerBuild.Text
import ContainerBuild.Text.Number

/-!
# Tar headers

An archive is made of blocks of 512 bytes. Before the data of each member stands a block with its name,
its permissions, its size and its kind, each in a field of its own. Numbers are octal digits; a size
that has too many of them is in binary. The header has a checksum: the sum of its bytes, with blanks in
place of the checksum itself.
-/

namespace ContainerBuild
namespace Tar

def blockSize : Nat := 512

def padded (n : Nat) : Nat :=
  (n + (blockSize - 1)) / blockSize * blockSize

def nameWidth : Nat := 100

namespace Kind

def regular : UInt8 := 0x30

def hardLink : UInt8 := 0x31

def symbolicLink : UInt8 := 0x32

def directory : UInt8 := 0x35

def continuous : UInt8 := 0x37

def longName : UInt8 := 0x4C

def longLink : UInt8 := 0x4B

def sparse : UInt8 := 0x53

def extended : UInt8 := 0x78

def globalExtended : UInt8 := 0x67

end Kind

/-- A field filled up with zero bytes. -/
def field (width : Nat) (b : Bytes) : Bytes :=
  b ++ List.replicate (width - b.length) 0

def octalField (width n : Nat) : Bytes :=
  let digits := (Nat.toDigits 8 n).map fun c => UInt8.ofNat c.toNat
  List.replicate (width - 1 - digits.length) 0x30 ++ digits ++ [0]

/-- The first number whose octal digits, three bits each, have no room in a field. -/
def octalLimit (width : Nat) : Nat :=
  1 <<< (3 * (width - 1))

/-- A number in octal digits, or, where they have no room, in binary with the first bit as a mark. -/
def numberField (width n : Nat) : Bytes :=
  if n < octalLimit width then octalField width n
  else 0x80 :: (List.replicate (width - 9) 0 ++ Bytes.bigEndianDigits 8 n)

def sum (b : Bytes) : Nat :=
  b.foldl (fun n x => n + x.toNat) 0

structure Header where
  name : Bytes
  mode : Nat
  size : Nat
  kind : UInt8
  link : Bytes

namespace Header

/-- The signature and version of the headers that are written. -/
def signature : Bytes := Utf8.encode "ustar  " ++ [0]

def fieldsBefore (h : Header) : Bytes :=
  field nameWidth h.name ++ octalField 8 h.mode ++ octalField 8 0 ++ octalField 8 0 ++
    numberField 12 h.size ++ octalField 12 0

def fieldsAfter (h : Header) : Bytes :=
  h.kind :: (field nameWidth h.link ++ signature ++ List.replicate 247 0)

def checksum (h : Header) : Nat :=
  sum h.fieldsBefore + 8 * 0x20 + sum h.fieldsAfter

def render (h : Header) : Bytes :=
  h.fieldsBefore ++ octalField 8 h.checksum ++ h.fieldsAfter

end Header

structure Block where
  bytes : Bytes

namespace Block

def slice (b : Block) (start width : Nat) : Bytes :=
  (b.bytes.drop start).take width

/-- The number in a field of octal digits, with blanks around them and nothing after a zero byte. -/
def octal? (f : Bytes) : Option Nat := do
  let s ← Utf8.decode? (Bytes.untilNul f)
  Text.unsigned? 8 Text.maxUnsigned64 (Text.trimChars s.toList)

/-- The number in a field that may also hold it in binary, marked by its first bit. -/
def number? (f : Bytes) : Option Nat :=
  match f with
  | first :: _ =>
    if first < 0x80 then octal? f else some (Bytes.bigEndian (f.drop (f.length - 8)))
  | [] => none

def name (b : Block) : Bytes := Bytes.untilNul (b.slice 0 100)

def mode? (b : Block) : Option Nat := octal? (b.slice 100 8)

def size? (b : Block) : Option Nat := number? (b.slice 124 12)

def checksum? (b : Block) : Option Nat := octal? (b.slice 148 8)

def kind (b : Block) : UInt8 := (b.slice 156 1).headD 0

def link? (b : Block) : Option Bytes :=
  let f := b.slice 157 100
  if f.headD 0 == 0 then none else some (Bytes.untilNul f)

def signature (b : Block) : Bytes := b.slice 257 8

/-- Whether the header is of the standard form, whose name has a second field. -/
def isStandard (b : Block) : Bool :=
  b.signature == Utf8.encode "ustar" ++ 0 :: Utf8.encode "00"

def isGnu (b : Block) : Bool :=
  b.signature == Header.signature

def namePrefix (b : Block) : Bytes := Bytes.untilNul (b.slice 345 155)

/-- The name with what the second field puts before it. -/
def fullName (b : Block) : Bytes :=
  if b.isStandard && !b.namePrefix.isEmpty then b.namePrefix ++ 0x2F :: b.name else b.name

def isZero (b : Block) : Bool := b.bytes.all (· == 0)

def sum (b : Block) : Nat :=
  Tar.sum (b.bytes.take 148) + 8 * 0x20 + Tar.sum (b.bytes.drop 156)

end Block
end Tar
end ContainerBuild
