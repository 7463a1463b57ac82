import ContainerBuild.Docker.Client
import ContainerBuild.Manager
import ContainerBuild.Output.Frame

/-!
# Output of attached commands

The output of a command comes in frames, or in plain lines where a byte that begins no frame stands. A
line is given out with its line feed. Bytes that are left over when the output ends are a failure, but
not a header alone.
-/

namespace ContainerBuild
namespace Docker

inductive Piece
  | whole (payload rest : Bytes)
  /-- A frame or a line that is not all there, with the bytes that are left of it. -/
  | partly (left : Bytes)

/-- The piece that some bytes begin with. -/
def Piece.first (b : Bytes) : Piece :=
  match b with
  | [] => partly []
  | kind :: _ =>
    if 2 < kind then
      match b.dropWhile (· != lineFeed) with
      | feed :: rest => whole (b.takeWhile (· != lineFeed) ++ [feed]) rest
      | [] => partly b
    else if b.length < Frame.headerLength then partly b
    else
      let length := Bytes.bigEndian ((b.drop 4).take 4)
      let rest := b.drop Frame.headerLength
      if rest.length < length then partly rest else whole (rest.take length) (rest.drop length)

theorem length_lt_of_first {b payload rest : Bytes} (h : Piece.first b = .whole payload rest) :
    rest.length < b.length := by
  unfold Piece.first at h
  split at h
  · simp at h
  · rename_i kind tail
    split at h
    · split at h
      · rename_i feed more hd
        have hle :=
          (List.dropWhile_sublist (l := kind :: tail) (· != lineFeed)).length_le
        rw [hd] at hle
        simp only [Piece.whole.injEq] at h
        rw [← h.2]
        simp only [List.length_cons] at *
        omega
      · simp at h
    · split at h
      · simp at h
      · rename_i hl
        simp only at h
        split at h
        · simp at h
        · simp only [Piece.whole.injEq] at h
          rw [← h.2]
          simp only [List.length_drop, Frame.headerLength] at hl ⊢
          omega

/-- The payloads of the pieces of an output, and the bytes that are left over. -/
def readPieces (b : Bytes) : List Bytes × Bytes :=
  match _h : Piece.first b with
  | .whole payload rest =>
    let (payloads, left) := readPieces rest
    (payload :: payloads, left)
  | .partly left => ([], left)
termination_by b.length
decreasing_by exact length_lt_of_first _h

def outputOf (r : Http.Response) : ExecOutput :=
  let (payloads, left) := readPieces r.chunks.flatten
  let error (reason : String) : BuildError := .backend name reason
  match r.broken with
  | some reason => ⟨payloads, some (error reason)⟩
  | none =>
    ⟨payloads, if left.isEmpty then none else some (error "bytes remaining on stream")⟩

end Docker
end ContainerBuild
