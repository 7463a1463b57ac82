import ContainerBuild.Output.Decoder

/-!
# Frames at the front of bytes

`FrameDecoder.framesOf` takes whole frames from the front of bytes as long as there are any. Taking
them from more bytes starts with the same frames, so the bytes may come in any pieces. From a prefix of
the encoding of frames it takes those that lie wholly in the prefix, and what it leaves is the part of
the next frame that the prefix has.
-/

namespace ContainerBuild

theorem Bytes.bigEndian_lengthBytes {n : Nat} (h : n < UInt32.size) :
    Bytes.bigEndian (Frame.lengthBytes n) = n := by
  simp only [UInt32.size] at h
  simp only [Bytes.bigEndian, Frame.lengthBytes, List.foldl, UInt8.toNat_ofNat',
    Nat.shiftRight_eq_div_pow]
  omega

namespace Frame

def header (f : Frame) : Bytes :=
  [f.stream.number, 0, 0, 0] ++ lengthBytes f.payload.length

theorem encode_eq (f : Frame) : f.encode = f.header ++ f.payload := rfl

@[simp] theorem length_header (f : Frame) : f.header.length = headerLength := rfl

@[simp] theorem drop_header (f : Frame) (b : Bytes) :
    (f.header ++ b).drop headerLength = b := by
  rw [← f.length_header, List.drop_left]

theorem take_encode {f : Frame} {k : Nat} (h : headerLength ≤ k) :
    f.encode.take k = f.header ++ f.payload.take (k - headerLength) := by
  rw [encode_eq, List.take_append, f.length_header, List.take_of_length_le h]

/-- The frames that lie wholly in the first `n` bytes of an encoding. -/
def within : Nat → List Frame → List Frame
  | _, [] => []
  | n, f :: fs =>
    if f.encode.length ≤ n then f :: within (n - f.encode.length) fs else []

/-- The frame that is the next one after the first `n` bytes of an encoding or is cut by their end, and
how many of its bytes are among them. -/
def severed? : Nat → List Frame → Option (Frame × Nat)
  | _, [] => none
  | n, f :: fs =>
    if f.encode.length ≤ n then severed? (n - f.encode.length) fs else some (f, n)

/-- The bytes of a severed frame that are there. -/
def severedBytes (n : Nat) (fs : List Frame) : Bytes :=
  match severed? n fs with
  | some (f, k) => f.encode.take k
  | none => []

theorem severed?_lt {n k : Nat} {fs : List Frame} {f : Frame} (h : severed? n fs = some (f, k)) :
    k < f.encode.length := by
  induction fs generalizing n with
  | nil => simp [severed?] at h
  | cons g gs ih =>
    rw [severed?] at h
    split at h
    · exact ih h
    · obtain ⟨rfl, rfl⟩ : g = f ∧ n = k := by simpa using h
      omega

end Frame

namespace FrameDecoder

open ContainerBuild.Frame

theorem payloadLength_append {b : Bytes} (h : headerLength ≤ b.length) (c : Bytes) :
    payloadLength (b ++ c) = payloadLength b := by
  have h4 : 4 ≤ b.length := by simp only [headerLength] at h; omega
  simp only [payloadLength]
  rw [List.drop_append_of_le_length h4, List.take_append_of_le_length]
  simp only [headerLength] at h
  simp only [List.length_drop]
  omega

theorem payloadLength_header {f : Frame} (h : f.payload.length < UInt32.size) (b : Bytes) :
    payloadLength (f.header ++ b) = f.payload.length := by
  have : ((f.header ++ b).drop 4).take 4 = lengthBytes f.payload.length := rfl
  rw [payloadLength, this, Bytes.bigEndian_lengthBytes h]

theorem takeFrame?_eq_none_iff (b : Bytes) :
    takeFrame? b = none ↔
      b.length < headerLength ∨ (b.drop headerLength).length < payloadLength b := by
  simp only [takeFrame?]
  split <;> simp_all

/-- A frame that is all there stays the first one when more bytes come. -/
theorem takeFrame?_append {b rest : Bytes} {f : Frame} (h : takeFrame? b = some (f, rest))
    (c : Bytes) : takeFrame? (b ++ c) = some (f, rest ++ c) := by
  simp only [takeFrame?] at h ⊢
  split at h
  · simp at h
  · rename_i hl
    obtain ⟨hb, hr⟩ : headerLength ≤ b.length ∧
        payloadLength b ≤ (b.drop headerLength).length := by omega
    have hne : b ≠ [] := by rintro rfl; simp [headerLength] at hb
    have hc : ¬((b ++ c).length < headerLength ∨
        (b.drop headerLength ++ c).length < payloadLength b) := by
      rw [List.length_append, List.length_append]
      omega
    rw [payloadLength_append hb, List.drop_append_of_le_length hb, if_neg hc,
      List.take_append_of_le_length hr, List.drop_append_of_le_length hr]
    obtain ⟨rfl, rfl⟩ := Prod.mk.inj (Option.some.inj h)
    cases b with
    | nil => exact absurd rfl hne
    | cons x b => rfl

theorem takeFrame?_encode {f : Frame} (h : f.payload.length < UInt32.size) (b : Bytes) :
    takeFrame? (f.encode ++ b) = some (f, b) := by
  rw [encode_eq, List.append_assoc]
  simp only [takeFrame?]
  rw [payloadLength_header h, drop_header, if_neg (by simp), List.take_left, List.drop_left]
  have : (f.header ++ (f.payload ++ b)).headD 0 = f.stream.number := rfl
  rw [this, OutputStream.ofByte_number]

theorem takeFrame?_take {f : Frame} (h : f.payload.length < UInt32.size) {k : Nat}
    (hk : k < f.encode.length) : takeFrame? (f.encode.take k) = none := by
  rw [takeFrame?_eq_none_iff]
  rw [length_encode] at hk
  by_cases h8 : k < headerLength
  · left
    simp only [List.length_take]
    omega
  · right
    rw [take_encode (by omega), payloadLength_header h, drop_header, List.length_take]
    omega

/-- The whole frames at the front of bytes, and the bytes after them. -/
def framesOf (b : Bytes) : List Frame × Bytes :=
  match _h : takeFrame? b with
  | some (f, rest) => (f :: (framesOf rest).1, (framesOf rest).2)
  | none => ([], b)
termination_by b.length
decreasing_by all_goals exact length_takeFrame?_lt _h

theorem framesOf_of_some {b rest : Bytes} {f : Frame} (h : takeFrame? b = some (f, rest)) :
    framesOf b = (f :: (framesOf rest).1, (framesOf rest).2) := by
  rw [framesOf]
  split
  · rename_i g r hg
    obtain ⟨rfl, rfl⟩ := Prod.mk.inj (Option.some.inj (hg.symm.trans h))
    rfl
  · rename_i hn
    simp [h] at hn

theorem framesOf_of_none {b : Bytes} (h : takeFrame? b = none) : framesOf b = ([], b) := by
  rw [framesOf]
  split
  · rename_i hs
    simp [h] at hs
  · rfl

@[simp] theorem framesOf_nil : framesOf [] = ([], []) :=
  framesOf_of_none rfl

/-- What is left has no whole frame at its front. -/
theorem takeFrame?_framesOf (b : Bytes) : takeFrame? (framesOf b).2 = none := by
  fun_induction framesOf b with
  | case1 b f rest h ih => exact ih
  | case2 b h => exact h

theorem framesOf_append (b c : Bytes) :
    framesOf (b ++ c) =
      ((framesOf b).1 ++ (framesOf ((framesOf b).2 ++ c)).1, (framesOf ((framesOf b).2 ++ c)).2) := by
  fun_induction framesOf b with
  | case1 b f rest h ih =>
    rw [framesOf_of_some (takeFrame?_append h c), ih]
    rfl
  | case2 b h => simp

/-- From a prefix of the encoding of frames, those that lie wholly in it are taken. -/
theorem framesOf_encodeAll {fs : List Frame} (short : ∀ f ∈ fs, f.payload.length < UInt32.size) {p : Bytes}
    (hp : p <+: encodeAll fs) :
    framesOf p = (within p.length fs, severedBytes p.length fs) := by
  induction fs generalizing p with
  | nil =>
    obtain rfl : p = [] := by simpa using hp
    simp [within, severedBytes, severed?]
  | cons f fs ih =>
    have hf := short f (by simp)
    rw [encodeAll_cons] at hp
    by_cases hl : f.encode.length ≤ p.length
    · obtain ⟨q, rfl⟩ := List.prefix_of_prefix_length_le (List.prefix_append _ _) hp hl
      have hq := ih (fun g hg => short g (by simp [hg])) ((List.prefix_append_right_inj _).1 hp)
      rw [framesOf_of_some (takeFrame?_encode hf q), hq]
      simp [within, severedBytes, severed?]
    · have hs : p = f.encode.take p.length := by
        have := List.prefix_of_prefix_length_le hp (List.prefix_append f.encode _) (by omega)
        exact List.prefix_iff_eq_take.1 this
      have hn : takeFrame? p = none := by
        rw [hs]
        exact takeFrame?_take hf (by omega)
      rw [framesOf_of_none hn]
      simpa [within, severedBytes, severed?, hl] using hs

end FrameDecoder
end ContainerBuild
