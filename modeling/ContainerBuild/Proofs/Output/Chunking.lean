import ContainerBuild.Proofs.Output.Interleaving

/-!
# Output that comes in chunks

A decoder that is asked until it has nothing more after each chunk takes its output for framed or not
by the first chunk alone. Framed output is the frames at the front of all its bytes, and unframed output
is all its bytes, so two ways of cutting the same bytes give the same output exactly when their first
chunks decide alike. Bytes of which every cut gives the same output agree with a header as far as they
go, or differ from one in their first byte.
-/

namespace ContainerBuild

/-- A way of cutting bytes into chunks, none of them empty. -/
structure Cut (s : Bytes) where
  chunks : List Bytes
  flatten_chunks : chunks.flatten = s
  ne_nil : ∀ c ∈ chunks, c ≠ []

namespace Cut

/-- The bytes that the form of the output is decided by. -/
def first {s : Bytes} (c : Cut s) : Bytes :=
  c.chunks.headD []

def whole {s : Bytes} (h : s ≠ []) : Cut s :=
  ⟨[s], by simp, by simpa using h⟩

def afterFirst (x : UInt8) {s : Bytes} (h : s ≠ []) : Cut (x :: s) :=
  ⟨[[x], s], by simp, by simpa using h⟩

@[simp] theorem first_whole {s : Bytes} (h : s ≠ []) : (whole h).first = s := rfl

@[simp] theorem first_afterFirst (x : UInt8) {s : Bytes} (h : s ≠ []) :
    (afterFirst x h).first = [x] :=
  rfl

theorem first_isPrefix {s : Bytes} (c : Cut s) : c.first <+: s := by
  have h := c.flatten_chunks
  unfold first
  cases hc : c.chunks with
  | nil => exact List.nil_prefix
  | cons b cs =>
    rw [hc, List.flatten_cons] at h
    exact h ▸ List.prefix_append _ _

theorem first_ne_nil {s : Bytes} (c : Cut s) (h : s ≠ []) : c.first ≠ [] := by
  cases hc : c.chunks with
  | nil => exact absurd (c.flatten_chunks.symm.trans (by simp [hc])) h
  | cons b cs => simpa [first, hc] using c.ne_nil b (by simp [hc])

end Cut

namespace FrameDecoder

theorem drain_framed (b : Bytes) :
    drain ⟨b, .framed⟩ = ((framesOf b).1.map .frame, ⟨(framesOf b).2, .framed⟩) := by
  fun_induction framesOf b with
  | case1 b f rest h ih =>
    have hb : b ≠ [] := by rintro rfl; simp [takeFrame?, Frame.headerLength] at h
    rw [drain]
    simp only [List.isEmpty_iff, hb, if_false, FrameDecoder.decide]
    split
    · rename_i g r hg
      obtain ⟨rfl, rfl⟩ := Prod.mk.inj (Option.some.inj (hg.symm.trans h))
      rw [ih]
      rfl
    · rename_i hn
      simp [h] at hn
  | case2 b h =>
    rw [drain]
    by_cases hb : b = []
    · simp [hb]
    · simp only [List.isEmpty_iff, hb, if_false, FrameDecoder.decide]
      split
      · rename_i hs
        simp [h] at hs
      · rfl

theorem drain_raw {d : FrameDecoder} (hb : d.buffer ≠ []) (h : d.decide = .raw) :
    d.drain = ([.raw d.buffer], ⟨[], .raw⟩) := by
  rw [drain]
  simp only [List.isEmpty_iff, hb, if_false, h]

/-- Bytes that agree with a header are taken for framed. -/
theorem drain_new_push {b : Bytes} (h : agreesWithHeader b = true) (hb : b ≠ []) :
    (new.push b).drain = drain ⟨b, .framed⟩ := by
  rw [drain, drain]
  simp [new, FrameDecoder.push, FrameDecoder.decide, h, hb]

end FrameDecoder

namespace ExecOutput

open FrameDecoder

/-- What a decoder gives that is asked for all it has after each of some chunks. -/
def decodeChunks (d : FrameDecoder) : List Bytes → List OutputPiece × FrameDecoder
  | [] => ([], d)
  | chunk :: chunks =>
    let (pieces, d) := (d.push chunk).drain
    let (more, d) := decodeChunks d chunks
    (pieces ++ more, d)

@[simp] theorem decodeChunks_nil (d : FrameDecoder) : decodeChunks d [] = ([], d) := rfl

theorem decodeChunks_framed {b : Bytes} (hb : takeFrame? b = none) (cs : List Bytes) :
    decodeChunks ⟨b, .framed⟩ cs =
      ((framesOf (b ++ cs.flatten)).1.map .frame, ⟨(framesOf (b ++ cs.flatten)).2, .framed⟩) := by
  induction cs generalizing b with
  | nil => simp [framesOf_of_none hb]
  | cons c cs ih =>
    have hd : (FrameDecoder.push ⟨b, .framed⟩ c).drain =
        ((framesOf (b ++ c)).1.map .frame, ⟨(framesOf (b ++ c)).2, .framed⟩) :=
      drain_framed (b ++ c)
    rw [decodeChunks, hd, List.flatten_cons, ← List.append_assoc, framesOf_append (b ++ c)]
    simp [ih (takeFrame?_framesOf (b ++ c))]

theorem decodeChunks_raw {cs : List Bytes} (h : ∀ c ∈ cs, c ≠ []) :
    decodeChunks ⟨[], .raw⟩ cs = (cs.map .raw, ⟨[], .raw⟩) := by
  induction cs with
  | nil => rfl
  | cons c cs ih =>
    have hd : (FrameDecoder.push ⟨[], .raw⟩ c).drain = ([.raw c], ⟨[], .raw⟩) :=
      drain_raw (d := ⟨c, .raw⟩) (h c (by simp)) rfl
    rw [decodeChunks, hd]
    simp [ih fun c hc => h c (by simp [hc])]

/-- What a decoder gives from its start to the end of the output: the pieces, and what it had left. -/
def decodeAll (chunks : List Bytes) : List OutputPiece × Option Bytes :=
  ((decodeChunks new chunks).1, (decodeChunks new chunks).2.finish.1)

/-- The output that has framed bytes: the frames at their front, and the payload of one cut short. -/
def framedOutput (s : Bytes) : List OutputPiece × Option Bytes :=
  ((framesOf s).1.map .frame, (FrameDecoder.finish ⟨(framesOf s).2, .framed⟩).1)

/-- The first chunk alone decides what is made of the bytes, and how they are cut after it changes
nothing but the lengths of unframed pieces. -/
theorem decodeAll_cut {s : Bytes} (c : Cut s) :
    decodeAll c.chunks =
      if agreesWithHeader c.first then framedOutput s else (c.chunks.map .raw, none) := by
  have hs := c.flatten_chunks
  have hne := c.ne_nil
  unfold Cut.first
  cases hc : c.chunks with
  | nil =>
    rw [hc] at hs
    subst hs
    simp [decodeAll, framedOutput, agreesWithHeader, FrameDecoder.finish, FrameDecoder.new]
  | cons b cs =>
    rw [hc] at hs hne
    have hb := hne b (by simp)
    simp only [decodeAll, decodeChunks, List.headD_cons]
    by_cases ha : agreesWithHeader b = true
    · rw [drain_new_push ha hb, drain_framed]
      have hf := framesOf_append b cs.flatten
      rw [← List.flatten_cons, hs] at hf
      simp [decodeChunks_framed (takeFrame?_framesOf b), ha, framedOutput, hf]
    · have hd : (new.push b).drain = ([.raw b], ⟨[], .raw⟩) := by
        apply drain_raw (d := new.push b)
        · simpa [new] using hb
        · simp [FrameDecoder.decide, new, FrameDecoder.push, ha]
      have hcs : ∀ c ∈ cs, c ≠ [] := fun c hc => hne c (by simp [hc])
      rw [hd]
      simp [decodeChunks_raw hcs, ha, FrameDecoder.finish]

/-- The payload bytes of the pieces on a stream, or of the unframed ones, in order. -/
def bytesOn (stream : Option OutputStream) (pieces : List OutputPiece) : Bytes :=
  (pieces.filter fun p => p.stream? = stream).flatMap OutputPiece.payload

/-- Two outputs with the same bytes on each stream and the same rest. -/
def Same (a b : List OutputPiece × Option Bytes) : Prop :=
  (∀ stream, bytesOn stream a.1 = bytesOn stream b.1) ∧ a.2 = b.2

/-- An output that is some bytes as they are, unframed. -/
def PassesThrough (s : Bytes) (a : List OutputPiece × Option Bytes) : Prop :=
  bytesOn none a.1 = s ∧ (∀ stream, bytesOn (some stream) a.1 = []) ∧ a.2 = none

theorem bytesOn_none_frames (fs : List Frame) : bytesOn none (fs.map .frame) = [] := by
  simp [bytesOn, OutputPiece.stream?]

theorem bytesOn_none_raw (cs : List Bytes) : bytesOn none (cs.map .raw) = cs.flatten := by
  induction cs with
  | nil => rfl
  | cons c cs ih => simpa [bytesOn, OutputPiece.stream?, OutputPiece.payload] using ih

theorem bytesOn_some_raw (stream : OutputStream) (cs : List Bytes) :
    bytesOn (some stream) (cs.map .raw) = [] := by
  simp [bytesOn, OutputPiece.stream?]

/-- Two cuts give the same output exactly when their first chunks decide alike. -/
theorem same_iff {s : Bytes} (c c' : Cut s) :
    Same (decodeAll c.chunks) (decodeAll c'.chunks) ↔
      agreesWithHeader c.first = agreesWithHeader c'.first := by
  have hraw : ∀ d : Cut s, bytesOn none (d.chunks.map .raw) = s := fun d =>
    (bytesOn_none_raw d.chunks).trans d.flatten_chunks
  have hs : ∀ d : Cut s, agreesWithHeader d.first = false → s ≠ [] := by
    rintro d hd rfl
    rw [List.prefix_nil.1 d.first_isPrefix] at hd
    simp [agreesWithHeader] at hd
  have hmixed : ∀ d : Cut s, agreesWithHeader d.first = false →
      bytesOn none (framedOutput s).1 ≠ bytesOn none (d.chunks.map .raw) := by
    intro d hd
    rw [framedOutput, bytesOn_none_frames, hraw]
    exact (hs d hd).symm
  rw [decodeAll_cut, decodeAll_cut]
  cases h : agreesWithHeader c.first <;> cases h' : agreesWithHeader c'.first
  · refine iff_of_true ⟨fun stream => ?_, rfl⟩ rfl
    cases stream with
    | none => exact (hraw c).trans (hraw c').symm
    | some k => exact (bytesOn_some_raw k _).trans (bytesOn_some_raw k _).symm
  · exact iff_of_false (fun hsame => hmixed c h (hsame.1 none).symm) (by simp)
  · exact iff_of_false (fun hsame => hmixed c' h' (hsame.1 none)) (by simp)
  · exact iff_of_true ⟨fun _ => rfl, rfl⟩ rfl

theorem passesThrough_iff {s : Bytes} (c : Cut s) :
    PassesThrough s (decodeAll c.chunks) ↔ s = [] ∨ agreesWithHeader c.first = false := by
  rw [decodeAll_cut]
  cases h : agreesWithHeader c.first with
  | false =>
    refine iff_of_true ⟨?_, fun stream => bytesOn_some_raw stream _, rfl⟩ (.inr rfl)
    exact (bytesOn_none_raw c.chunks).trans c.flatten_chunks
  | true =>
    constructor
    · intro hp
      have hn : bytesOn none (framedOutput s).1 = s := hp.1
      rw [framedOutput, bytesOn_none_frames] at hn
      exact .inl hn.symm
    · rintro (rfl | hf)
      · simp [PassesThrough, framedOutput, bytesOn, FrameDecoder.finish]
      · simp at hf

theorem agreesWithHeader_single (x : UInt8) : agreesWithHeader [x] = true ↔ x ≤ 2 := by
  simp [agreesWithHeader]

theorem not_agreesWithHeader_of_first {s : Bytes} (h : 2 < s.headD 0) (c : Cut s) :
    agreesWithHeader c.first = false := by
  have hs : s ≠ [] := by rintro rfl; simp at h
  obtain ⟨t, ht⟩ := c.first_isPrefix
  cases hc : c.first with
  | nil => exact absurd hc (c.first_ne_nil hs)
  | cons x b =>
    rw [hc, List.cons_append] at ht
    rw [← ht] at h
    simp only [List.headD_cons] at h
    simp [agreesWithHeader, UInt8.not_le.2 h]

/-- Every cut of some bytes gives the same output exactly when they agree with a header as far as they
go or their first byte is that of no header. -/
theorem same_of_cuts_iff (s : Bytes) :
    (∀ c c' : Cut s, Same (decodeAll c.chunks) (decodeAll c'.chunks)) ↔
      agreesWithHeader s = true ∨ 2 < s.headD 0 := by
  constructor
  · intro h
    cases s with
    | nil => exact .inl rfl
    | cons x t =>
      by_cases ht : t = []
      · rw [ht, agreesWithHeader_single, List.headD_cons]
        exact (UInt8.le_or_lt x 2)
      · have := (same_iff _ _).1 (h (.whole (by simp)) (.afterFirst x ht))
        by_cases hx : x ≤ 2
        · left
          rw [show agreesWithHeader (x :: t) = agreesWithHeader [x] from this]
          exact (agreesWithHeader_single x).2 hx
        · exact .inr (UInt8.not_le.1 hx)
  · rintro (h | h) c c'
    · refine (same_iff c c').2 ?_
      rw [agreesWithHeader_of_longer c.first_isPrefix h, agreesWithHeader_of_longer c'.first_isPrefix h]
    · refine (same_iff c c').2 ?_
      rw [not_agreesWithHeader_of_first h c, not_agreesWithHeader_of_first h c']

theorem passesThrough_of_cuts_iff (s : Bytes) :
    (∀ c : Cut s, PassesThrough s (decodeAll c.chunks)) ↔ s = [] ∨ 2 < s.headD 0 := by
  constructor
  · intro h
    cases s with
    | nil => exact .inl rfl
    | cons x t =>
      right
      have hx : agreesWithHeader [x] = false := by
        by_cases ht : t = []
        · subst ht
          simpa using (passesThrough_iff _).1 (h (.whole (by simp)))
        · simpa using (passesThrough_iff _).1 (h (.afterFirst x ht))
      rw [← Bool.not_eq_true, agreesWithHeader_single] at hx
      exact UInt8.not_le.1 hx
  · rintro (rfl | h) c
    · exact (passesThrough_iff c).2 (.inl rfl)
    · exact (passesThrough_iff c).2 (.inr (not_agreesWithHeader_of_first h c))

/-- What the output of some bytes owes to the way they are cut. Two cuts give the same bytes on each
stream exactly when their first chunks decide alike, and a cut gives its bytes unframed exactly when its
first chunk is no start of a header. So the bytes alone settle their output exactly when they agree with
a header as far as they go or cannot start one, and settle that they pass through exactly when they are
none or cannot start one. -/
theorem output_of_cuts (s : Bytes) :
    (∀ c c' : Cut s, Same (decodeAll c.chunks) (decodeAll c'.chunks) ↔
      agreesWithHeader c.first = agreesWithHeader c'.first) ∧
    (∀ c : Cut s, PassesThrough s (decodeAll c.chunks) ↔
      s = [] ∨ agreesWithHeader c.first = false) ∧
    ((∀ c c' : Cut s, Same (decodeAll c.chunks) (decodeAll c'.chunks)) ↔
      agreesWithHeader s = true ∨ 2 < s.headD 0) ∧
    ((∀ c : Cut s, PassesThrough s (decodeAll c.chunks)) ↔ s = [] ∨ 2 < s.headD 0) :=
  ⟨same_iff, passesThrough_iff, same_of_cuts_iff s, passesThrough_of_cuts_iff s⟩

/-- Bytes that begin with a stream number and three zero bytes. -/
def BeginsWithHeader (s : Bytes) : Prop :=
  4 ≤ s.length ∧ agreesWithHeader s = true

/-- Two bytes that begin with no header are lost when the first comes alone. -/
theorem output_lost_by_cut :
    ∃ s : Bytes, ¬ BeginsWithHeader s ∧ ∃ c c' : Cut s,
      ¬ Same (decodeAll c.chunks) (decodeAll c'.chunks) ∧
        PassesThrough s (decodeAll c'.chunks) ∧ decodeAll c.chunks = ([], none) := by
  refine ⟨[1, 65], by simp [BeginsWithHeader], .afterFirst 1 (List.cons_ne_nil 65 []),
    .whole (by simp), ?_, ?_, ?_⟩
  · rw [same_iff]
    decide
  · rw [passesThrough_iff]
    decide
  · rw [decodeAll_cut, Cut.first_afterFirst, framedOutput, framesOf_of_none (by decide)]
    rfl

end ExecOutput
end ContainerBuild
