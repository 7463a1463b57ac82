import ContainerBuild.Deflate
import ContainerBuild.Source

/-!
# Gzip

A gzip file is a header, deflated data, and a trailer with a checksum and the length of what was
deflated. The header starts with two fixed bytes. The trailer is looked at only by a reader that goes
past the end of the data, so a wrong one shows as a failure there and nowhere else.
-/

namespace ContainerBuild
namespace Gzip

def signature : Bytes := [0x1F, 0x8B]

def hasSignature (b : Bytes) : Bool := signature.isPrefixOf b

/-- One bit of the division that makes the checksum. -/
def checksumBit (n : UInt32) : UInt32 :=
  if n &&& 1 == 1 then (n >>> 1) ^^^ 0xEDB88320 else n >>> 1

def checksumByte (n : UInt32) (b : UInt8) : UInt32 :=
  (checksumBit ∘ checksumBit ∘ checksumBit ∘ checksumBit ∘ checksumBit ∘ checksumBit ∘
    checksumBit ∘ checksumBit) (n ^^^ b.toUInt32)

def checksum (b : Bytes) : UInt32 :=
  b.foldl checksumByte 0xFFFFFFFF ^^^ 0xFFFFFFFF

def maxText : Nat := 65535

def afterText? (b : Bytes) : Option Bytes :=
  let text := Bytes.untilNul b
  if text.length = b.length ∨ maxText < text.length then none else some (b.drop (text.length + 1))

/-- What is left after some bytes that begin with their own number. -/
def afterCounted? (b : Bytes) : Option Bytes :=
  let n := Bytes.littleEndian (b.take 2)
  if b.length < 2 + n then none else some (b.drop (2 + n))

def afterChecksum? (whole b : Bytes) : Option Bytes :=
  if b.length < 2 then none
  else
    let header := whole.take (whole.length - b.length)
    if (checksum header).toNat % 65536 = Bytes.littleEndian (b.take 2) then some (b.drop 2) else none

def afterHeader? (b : Bytes) : Option Bytes := do
  if b.length < 10 ∨ !hasSignature b ∨ b[2]? ≠ some 8 then none
  let flags := (b[3]?.getD 0).toNat
  if flags / 32 ≠ 0 then none
  let r := b.drop 10
  let r ← if flags / 4 % 2 = 1 then afterCounted? r else some r
  let r ← if flags / 8 % 2 = 1 then afterText? r else some r
  let r ← if flags / 16 % 2 = 1 then afterText? r else some r
  if flags / 2 % 2 = 1 then afterChecksum? b r else some r

def matchesTrailer (data trailer : Bytes) : Bool :=
  trailer.length ≥ 8 && Bytes.littleEndian (trailer.take 4) == (checksum data).toNat &&
    Bytes.littleEndian ((trailer.drop 4).take 4) == data.length % UInt32.size

/-- Inflated data are handed on in windows of this length; one that cannot be finished is lost. -/
def window : Nat := 32768

/-- What a reader of a gzip file gets. -/
def expand (b : Bytes) : Source :=
  match afterHeader? b with
  | none => ⟨[], true⟩
  | some r =>
    match Deflate.inflate r with
    | (data, .ok trailer) => ⟨data, !matchesTrailer data trailer⟩
    | (data, .error .cut) => ⟨data, true⟩
    | (data, .error .corrupt) => ⟨data.take (data.length / window * window), true⟩

/-- What a reader gets who looks for the signature first. -/
def source (b : Bytes) : Source :=
  if hasSignature b then expand b else Source.ofBytes b

end Gzip
end ContainerBuild
