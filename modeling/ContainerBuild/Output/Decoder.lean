import ContainerBuild.Output.Frame

/-!
# Decoding output

A decoder takes the bytes of an output as they arrive, cut anywhere, and gives out pieces. Whether the
output is framed is decided once, by the bytes that are there when the first piece is asked for, so few
bytes decide for framed output as long as they agree with a header.
-/

namespace ContainerBuild

/-- What a decoder knows of its output. -/
inductive OutputForm
  | unknown
  | framed
  | raw
  deriving DecidableEq, Repr

structure FrameDecoder where
  buffer : Bytes
  form : OutputForm
  deriving DecidableEq, Repr

namespace FrameDecoder

def new : FrameDecoder := ⟨[], .unknown⟩

def push (d : FrameDecoder) (b : Bytes) : FrameDecoder :=
  { d with buffer := d.buffer ++ b }

/-- Whether bytes agree with the header of a frame as far as they go. -/
def agreesWithHeader : Bytes → Bool
  | [] => true
  | first :: rest => first ≤ 2 && (rest.take 3).all (· == 0)

def decide (d : FrameDecoder) : OutputForm :=
  match d.form with
  | .unknown => if agreesWithHeader d.buffer then .framed else .raw
  | form => form

/-- The length in the header of a frame. -/
def payloadLength (buffer : Bytes) : Nat :=
  Bytes.bigEndian ((buffer.drop 4).take 4)

/-- The first frame of some bytes and the bytes after it, if all of it is there. -/
def takeFrame? (buffer : Bytes) : Option (Frame × Bytes) :=
  let rest := buffer.drop Frame.headerLength
  let length := payloadLength buffer
  if buffer.length < Frame.headerLength ∨ rest.length < length then none
  else some (⟨OutputStream.ofByte (buffer.headD 0), rest.take length⟩, rest.drop length)

def next (d : FrameDecoder) : Option OutputPiece × FrameDecoder :=
  if d.buffer.isEmpty then (none, d)
  else
    match d.decide with
    | .raw => (some (.raw d.buffer), ⟨[], .raw⟩)
    | form =>
      match takeFrame? d.buffer with
      | some (f, rest) => (some (.frame f), ⟨rest, form⟩)
      | none => (none, ⟨d.buffer, form⟩)

/-- What is left when no more bytes come. Of a frame that is cut short the payload is given as far as
it goes. -/
def finish (d : FrameDecoder) : Option Bytes × FrameDecoder :=
  if d.buffer.isEmpty then (none, d)
  else if d.form = .framed then
    if d.buffer.length < Frame.headerLength then (none, ⟨[], .framed⟩)
    else (some (d.buffer.drop Frame.headerLength), ⟨[], .framed⟩)
  else (some d.buffer, ⟨[], d.form⟩)

theorem length_takeFrame?_lt {buffer rest : Bytes} {f : Frame}
    (h : takeFrame? buffer = some (f, rest)) : rest.length < buffer.length := by
  simp only [takeFrame?] at h
  split at h
  · simp at h
  · rename_i hl
    simp only [Option.some.injEq, Prod.mk.injEq] at h
    rw [← h.2]
    simp only [List.length_drop, Frame.headerLength] at hl ⊢
    omega

/-- Takes pieces until none is complete. -/
def drain (d : FrameDecoder) : List OutputPiece × FrameDecoder :=
  if d.buffer.isEmpty then ([], d)
  else
    match d.decide with
    | .raw => ([.raw d.buffer], ⟨[], .raw⟩)
    | form =>
      match _h : takeFrame? d.buffer with
      | some (f, rest) =>
        let (pieces, last) := drain ⟨rest, form⟩
        (.frame f :: pieces, last)
      | none => ([], ⟨d.buffer, form⟩)
termination_by d.buffer.length
decreasing_by exact length_takeFrame?_lt _h

@[simp] theorem buffer_push (d : FrameDecoder) (b : Bytes) :
    (d.push b).buffer = d.buffer ++ b :=
  rfl

theorem next_of_empty {d : FrameDecoder} (h : d.buffer = []) : d.next = (none, d) := by
  simp [FrameDecoder.next, h]

/-- Every piece that is given takes bytes from the buffer. -/
theorem length_next_lt {d : FrameDecoder} {p : OutputPiece} (h : d.next.1 = some p) :
    d.next.2.buffer.length < d.buffer.length := by
  by_cases hb : d.buffer = []
  · simp [next_of_empty hb] at h
  · have hpos : 0 < d.buffer.length := List.length_pos_iff.2 hb
    simp only [FrameDecoder.next, List.isEmpty_iff, hb, if_false] at h ⊢
    split
    · simpa using hpos
    · cases ht : takeFrame? d.buffer with
      | some taken => exact length_takeFrame?_lt ht
      | none => simp_all

theorem buffer_next_of_none {d : FrameDecoder} (h : d.next.1 = none) :
    d.next.2.buffer = d.buffer := by
  by_cases hb : d.buffer = []
  · rw [next_of_empty hb]
  · simp only [FrameDecoder.next, List.isEmpty_iff, hb, if_false] at h ⊢
    split
    · simp_all
    · cases ht : takeFrame? d.buffer with
      | some taken => simp_all
      | none => rfl

@[simp] theorem buffer_finish (d : FrameDecoder) : d.finish.2.buffer = [] := by
  unfold finish
  split
  · simp_all
  · split
    · split <;> rfl
    · rfl

end FrameDecoder
end ContainerBuild
