import ContainerBuild.Tar.Header

/-!
# Listing archives

A listing shows every header of an archive as it stands, with the bytes that follow it, up to the first
block of zeros. Nothing is checked or put together.
-/

namespace ContainerBuild
namespace Tar

/-- A header with the data after it. -/
structure Listed where
  name : Bytes
  mode : Nat
  size : Nat
  kind : UInt8
  signature : Bytes
  link : Bytes
  data : Bytes
  deriving DecidableEq, Repr

def Listed.ofBlock (b : Block) (rest : Bytes) : Listed :=
  let size := (Block.octal? (b.slice 124 12)).getD 0
  { name := b.name
    mode := b.mode?.getD 0
    size := size
    kind := b.kind
    signature := b.signature
    link := Bytes.untilNul (b.slice 157 nameWidth)
    data := rest.take size }

def listing (archive : Bytes) : List Listed :=
  if _h : archive.length < blockSize then []
  else
    let b : Block := ⟨archive.take blockSize⟩
    if b.isZero then []
    else
      let first := Listed.ofBlock b (archive.drop blockSize)
      first :: listing (archive.drop (blockSize + padded first.size))
termination_by archive.length
decreasing_by
  have : 0 < blockSize := by decide
  simp only [List.length_drop]
  omega

end Tar
end ContainerBuild
