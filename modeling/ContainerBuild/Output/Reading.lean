import ContainerBuild.Manager
import ContainerBuild.Output.Decoder

/-!
# Reading output

The output of a command is read from a response body. A reader asks its decoder for the next piece, and
feeds it with the body when there is none. A body that ends gives what is left of a frame that was cut
short; a body that breaks off gives an error. After either the reader only gives what its decoder still
has.
-/

namespace ContainerBuild

/-- What comes of a body at a time: bytes, or something that is not part of its content. -/
inductive BodyFrame
  | data (b : Bytes)
  | other
  deriving DecidableEq, Repr

namespace BodyFrame

def bytes : BodyFrame → Bytes
  | data b => b
  | other => []

end BodyFrame

structure OutputReader where
  frames : List BodyFrame
  broken : Option BuildError
  decoder : FrameDecoder
  ended : Bool
  deriving DecidableEq, Repr

namespace OutputReader

def start (frames : List BodyFrame) (broken : Option BuildError) : OutputReader :=
  ⟨frames, broken, .new, false⟩

def next (r : OutputReader) : Option (Except BuildError Bytes × OutputReader) :=
  match r.decoder.next with
  | (some piece, d) => some (.ok piece.payload, { r with decoder := d })
  | (none, d) =>
    if _he : r.ended then none
    else
      match _hf : r.frames with
      | .data b :: frames => next { r with frames := frames, decoder := d.push b }
      | .other :: frames => next { r with frames := frames, decoder := d }
      | [] =>
        match r.broken with
        | some e => some (.error e, { r with decoder := d, ended := true })
        | none =>
          match d.finish with
          | (some rest, d) => some (.ok rest, { r with decoder := d, ended := true })
          | (none, d) => next { r with decoder := d, ended := true }
termination_by (r.frames.length, (!r.ended).toNat)
decreasing_by
  · exact .left _ _ (by simp [_hf])
  · exact .left _ _ (by simp [_hf])
  · simp only [_hf, _he]
    exact .right _ (by decide)

/-- A bound on the number of items to come: the bytes that are to be given, and the end of the body. -/
def weight (r : OutputReader) : Nat :=
  r.decoder.buffer.length + (r.frames.flatMap BodyFrame.bytes).length + (!r.ended).toNat

/-- Every item takes bytes from the decoder or is the last one that the end of the body gives. -/
theorem weight_next_lt {r r' : OutputReader} {item : Except BuildError Bytes}
    (h : r.next = some (item, r')) : r'.weight < r.weight := by
  fun_induction next r with
  | case1 r piece d hd =>
    obtain ⟨-, rfl⟩ := Prod.mk.inj (Option.some.inj h)
    have hlt : d.buffer.length < r.decoder.buffer.length := by
      simpa [hd] using FrameDecoder.length_next_lt (d := r.decoder) (p := piece)
    simp only [weight]
    omega
  | case2 => simp at h
  | case3 r d hd he b frames hf ih =>
    have hb : d.buffer = r.decoder.buffer := by
      simpa [hd] using FrameDecoder.buffer_next_of_none (d := r.decoder)
    have hlt := ih h
    simp only [weight, FrameDecoder.buffer_push, hf, List.flatMap_cons, BodyFrame.bytes,
      List.length_append] at hlt ⊢
    rw [hb] at hlt
    omega
  | case4 r d hd he frames hf ih =>
    have hb : d.buffer = r.decoder.buffer := by
      simpa [hd] using FrameDecoder.buffer_next_of_none (d := r.decoder)
    have hlt := ih h
    simp only [weight, hf, List.flatMap_cons, BodyFrame.bytes, List.nil_append] at hlt ⊢
    rwa [hb] at hlt
  | case5 r d hd he hf e hb =>
    obtain ⟨-, rfl⟩ := Prod.mk.inj (Option.some.inj h)
    have hb : d.buffer = r.decoder.buffer := by
      simpa [hd] using FrameDecoder.buffer_next_of_none (d := r.decoder)
    simp [weight, he, hb]
  | case6 r d hd he hf hb rest d' hfin =>
    obtain ⟨-, rfl⟩ := Prod.mk.inj (Option.some.inj h)
    have hempty : d'.buffer = [] := by simpa [hfin] using FrameDecoder.buffer_finish d
    simp only [weight, he, hempty, List.length_nil, Bool.not_true, Bool.not_false, Bool.toNat_true,
      Bool.toNat_false]
    omega
  | case7 r d hd he hf hb d' hfin ih =>
    have hempty : d'.buffer = [] := by simpa [hfin] using FrameDecoder.buffer_finish d
    have hlt := ih h
    simp only [weight, he, hempty, List.length_nil, Bool.not_true, Bool.not_false, Bool.toNat_true,
      Bool.toNat_false] at hlt ⊢
    omega

def items (r : OutputReader) : List (Except BuildError Bytes) :=
  match _h : r.next with
  | some (item, r') => item :: r'.items
  | none => []
termination_by r.weight
decreasing_by exact weight_next_lt _h

end OutputReader

namespace ExecOutput

def ofItems : List (Except BuildError Bytes) → ExecOutput
  | [] => .empty
  | .ok b :: items => { ofItems items with chunks := b :: (ofItems items).chunks }
  | .error e :: items => { ofItems items with failure := some e }

/-- The output in a body that comes in chunks and may break off. -/
def ofBody (chunks : List Bytes) (broken : Option BuildError) : ExecOutput :=
  ofItems (OutputReader.start (chunks.map .data) broken).items

end ExecOutput
end ContainerBuild
