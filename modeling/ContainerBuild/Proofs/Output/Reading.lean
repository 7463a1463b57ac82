import ContainerBuild.Output.Reading
import ContainerBuild.Proofs.Output.Chunking

/-!
# What a reader gives

A reader asks its decoder until it has no whole piece and only then goes on with the body, so before it
reads a frame of the body its decoder is drained. From there the items are the pieces that the decoder
gives for the bytes that came, followed by what the end of the body gives: an error, or the payload of a
frame that was cut short. Reading ends because every item takes bytes or is the last one.
-/

namespace ContainerBuild

namespace FrameDecoder

/-- A decoder that has no whole piece, also after it has looked at its bytes. -/
def Drained (d : FrameDecoder) : Prop :=
  d.next = (none, d)

theorem drained_new : Drained new := rfl

theorem drain_eq (d : FrameDecoder) :
    d.drain = match d.next with
      | (some p, d') => (p :: d'.drain.1, d'.drain.2)
      | (none, d') => ([], d') := by
  rw [drain]
  by_cases hb : d.buffer = []
  · simp [next_of_empty, hb]
  simp only [FrameDecoder.next, List.isEmpty_iff, hb, if_false]
  cases hd : d.decide with
  | raw => simp [drain]
  | unknown | framed =>
    simp only
    split <;> rename_i ht <;> simp [ht]

theorem decide_ne_unknown (d : FrameDecoder) : d.decide ≠ .unknown := by
  unfold FrameDecoder.decide
  split
  · split <;> simp
  · assumption

theorem drained_of_next_none {d d' : FrameDecoder} (h : d.next = (none, d')) : d'.Drained := by
  by_cases hb : d.buffer = []
  · obtain ⟨-, rfl⟩ := Prod.mk.inj ((next_of_empty hb).symm.trans h)
    exact next_of_empty hb
  simp only [FrameDecoder.next, List.isEmpty_iff, hb, if_false] at h
  cases hd : d.decide with
  | raw => simp [hd] at h
  | unknown => exact absurd hd d.decide_ne_unknown
  | framed =>
    cases ht : takeFrame? d.buffer with
    | some taken => simp [hd, ht] at h
    | none =>
      obtain rfl : (⟨d.buffer, .framed⟩ : FrameDecoder) = d' := by simpa [hd, ht] using h
      simp [Drained, FrameDecoder.next, FrameDecoder.decide, hb, ht]

theorem drained_drain (d : FrameDecoder) : d.drain.2.Drained := by
  rw [drain_eq]
  cases h : d.next with
  | mk piece d' =>
    cases piece with
    | none => exact drained_of_next_none h
    | some p => exact drained_drain d'
termination_by d.buffer.length
decreasing_by
  simpa [h] using length_next_lt (d := d) (p := p)

/-- What is there of the payload of a frame that was cut short, once its header is there. -/
def partialPayload? (b : Bytes) : Option Bytes :=
  if b.length < Frame.headerLength then none else some (b.drop Frame.headerLength)

theorem finish_framed (b : Bytes) : (finish ⟨b, .framed⟩).1 = partialPayload? b := by
  by_cases hb : b = []
  · simp [finish, partialPayload?, hb, Frame.headerLength]
  · simp only [finish, partialPayload?, List.isEmpty_iff, hb, if_false, if_true]
    split <;> rfl

/-- Bytes at whose front no frame is whole. -/
def NoWhole (s : Bytes) : Prop :=
  s.length < Frame.headerLength ∨ s.length < Frame.headerLength + Bytes.bigEndian ((s.drop 4).take 4)

/-- Bytes made of whole frames with some payloads, and of what is left, which has no whole frame at its
front. The header of a frame ends with the length of its payload in four bytes. -/
inductive Framed : Bytes → List Bytes → Bytes → Prop
  | left {s : Bytes} (h : NoWhole s) : Framed s [] s
  | frame {header payload rest left : Bytes} {payloads : List Bytes}
      (hh : header.length = Frame.headerLength)
      (hp : Bytes.bigEndian (header.drop 4) = payload.length)
      (h : Framed rest payloads left) :
      Framed (header ++ payload ++ rest) (payload :: payloads) left

theorem takeFrame?_eq_none_iff_noWhole (s : Bytes) : takeFrame? s = none ↔ NoWhole s := by
  rw [takeFrame?_eq_none_iff, NoWhole, payloadLength, List.length_drop]
  constructor
  · rintro (h | h)
    · exact .inl h
    · right
      omega
  · rintro (h | h)
    · exact .inl h
    · by_cases hs : s.length < Frame.headerLength
      · exact .inl hs
      · right
        omega

theorem parts_of_takeFrame? {s rest : Bytes} {f : Frame} (h : takeFrame? s = some (f, rest)) :
    (s.take Frame.headerLength).length = Frame.headerLength ∧
      Bytes.bigEndian ((s.take Frame.headerLength).drop 4) = f.payload.length ∧
      s = s.take Frame.headerLength ++ f.payload ++ rest := by
  simp only [takeFrame?] at h
  split at h
  · simp at h
  · rename_i hl
    obtain ⟨hs, hr⟩ : Frame.headerLength ≤ s.length ∧
        payloadLength s ≤ (s.drop Frame.headerLength).length := by omega
    obtain ⟨rfl, rfl⟩ := Prod.mk.inj (Option.some.inj h)
    refine ⟨List.length_take_of_le hs, ?_, ?_⟩
    · simp only [List.length_take_of_le hr, List.drop_take]
      rfl
    · rw [List.append_assoc, List.take_append_drop, List.take_append_drop]

theorem framed_framesOf (s : Bytes) :
    Framed s ((framesOf s).1.map Frame.payload) (framesOf s).2 := by
  fun_induction framesOf s with
  | case1 s f rest h ih =>
    obtain ⟨hh, hp, hs⟩ := parts_of_takeFrame? h
    have hf := Framed.frame hh hp ih
    rwa [← hs] at hf
  | case2 s h => exact .left ((takeFrame?_eq_none_iff_noWhole s).1 h)

end FrameDecoder

namespace OutputReader

open FrameDecoder ExecOutput

/-- The items that a reader gives when it is asked until it has no more. -/
inductive Drains : OutputReader → List (Except BuildError Bytes) → Prop
  | stop {r : OutputReader} (h : r.next = none) : Drains r []
  | item {r r' : OutputReader} {x : Except BuildError Bytes} {xs : List (Except BuildError Bytes)}
      (h : r.next = some (x, r')) (hr : Drains r' xs) : Drains r (x :: xs)

theorem drains_items (r : OutputReader) : Drains r r.items := by
  rw [items]
  split
  · rename_i h
    exact .item h (drains_items _)
  · rename_i h
    exact .stop h
termination_by r.weight
decreasing_by exact weight_next_lt ‹_›

theorem items_of_next {r r' : OutputReader} {x : Except BuildError Bytes}
    (h : r.next = some (x, r')) : r.items = x :: r'.items := by
  rw [items]
  split <;> simp_all

theorem items_of_stop {r : OutputReader} (h : r.next = none) : r.items = [] := by
  rw [items]
  split <;> simp_all

theorem items_congr {r r' : OutputReader} (h : r.next = r'.next) : r.items = r'.items := by
  cases hn : r'.next with
  | none => rw [items_of_stop hn, items_of_stop (h.trans hn)]
  | some it => rw [items_of_next hn, items_of_next (h.trans hn)]

/-- A reader can be drained, and in one way only. -/
theorem drains_iff {r : OutputReader} {xs : List (Except BuildError Bytes)} :
    Drains r xs ↔ xs = r.items := by
  constructor
  · intro h
    induction h with
    | stop h => exact (items_of_stop h).symm
    | item h _ ih => rw [items_of_next h, ih]
  · rintro rfl
    exact drains_items r

variable (frames : List BodyFrame) (broken : Option BuildError)

/-- Before a reader goes on with the body it gives all that its decoder has. -/
theorem items_reading (d : FrameDecoder) :
    items ⟨frames, broken, d, false⟩ =
      d.drain.1.map (fun p => .ok p.payload) ++ items ⟨frames, broken, d.drain.2, false⟩ := by
  rw [drain_eq]
  cases h : d.next with
  | mk piece d' =>
    cases piece with
    | some p =>
      have hn : next ⟨frames, broken, d, false⟩ =
          some (.ok p.payload, ⟨frames, broken, d', false⟩) := by
        rw [next]
        simp only [h]
      rw [items_of_next hn, items_reading d']
      rfl
    | none =>
      have hd : d'.next = (none, d') := drained_of_next_none h
      apply items_congr
      rw [next, next]
      simp only [h, hd]
termination_by d.buffer.length
decreasing_by simpa [h] using length_next_lt (d := d) (p := p)

variable {frames broken} {d : FrameDecoder}

/-- What is not data counts as data without bytes. -/
theorem items_frame (f : BodyFrame) (hd : d.Drained) :
    items ⟨f :: frames, broken, d, false⟩ = items ⟨frames, broken, d.push f.bytes, false⟩ := by
  have hd : d.next = (none, d) := hd
  apply items_congr
  rw [next]
  cases f with
  | data b => simp [hd, BodyFrame.bytes]
  | other => simp [hd, BodyFrame.bytes, FrameDecoder.push]

theorem items_broken (e : BuildError) (hd : d.Drained) :
    items ⟨[], some e, d, false⟩ = [.error e] := by
  have hd : d.next = (none, d) := hd
  have hn : next ⟨[], some e, d, false⟩ = some (.error e, ⟨[], some e, d, true⟩) := by
    rw [next]
    simp [hd]
  have hstop : next ⟨[], some e, d, true⟩ = none := by
    rw [next]
    simp [hd]
  rw [items_of_next hn, items_of_stop hstop]

theorem items_end (hd : d.Drained) :
    items ⟨[], none, d, false⟩ = d.finish.1.toList.map .ok := by
  have hd : d.next = (none, d) := hd
  have hstop : next ⟨[], none, d.finish.2, true⟩ = none := by
    rw [next]
    simp [next_of_empty]
  cases hf : d.finish with
  | mk rest d' =>
    rw [hf] at hstop
    cases rest with
    | some b =>
      have hn : next ⟨[], none, d, false⟩ = some (.ok b, ⟨[], none, d', true⟩) := by
        rw [next]
        simp [hd, hf]
      rw [items_of_next hn, items_of_stop hstop]
      rfl
    | none =>
      have hn : next ⟨[], none, d, false⟩ = none := by
        rw [next]
        simpa [hd, hf] using hstop
      rw [items_of_stop hn]
      rfl

def received (frames : List BodyFrame) : List Bytes :=
  (frames.map BodyFrame.bytes).filter fun b => !b.isEmpty

/-- What the end of a body adds to the pieces of a decoder that has something left. -/
def ending (rest : Option Bytes) : Option BuildError → List (Except BuildError Bytes)
  | some e => [.error e]
  | none => rest.toList.map .ok

/-- The items are what the decoder gives for the chunks, and then the end of the body. -/
theorem items_eq (hd : d.Drained) :
    items ⟨frames, broken, d, false⟩ =
      (decodeChunks d (received frames)).1.map (fun p => .ok p.payload) ++
        ending (decodeChunks d (received frames)).2.finish.1 broken := by
  induction frames generalizing d with
  | nil =>
    cases broken with
    | some e => simpa [received, ending] using items_broken e hd
    | none => simpa [received, ending] using items_end hd
  | cons f frames ih =>
    rw [items_frame f hd]
    by_cases hb : f.bytes = []
    · have hr : received (f :: frames) = received frames := by simp [received, hb]
      have hp : d.push f.bytes = d := by simp [FrameDecoder.push, hb]
      rw [hr, hp, ih hd]
    · have hr : received (f :: frames) = f.bytes :: received frames := by simp [received, hb]
      rw [hr, items_reading, ih (drained_drain _), decodeChunks]
      simp

theorem items_start (frames : List BodyFrame) (broken : Option BuildError) :
    (start frames broken).items =
      (decodeAll (received frames)).1.map (fun p => .ok p.payload) ++
        ending (decodeAll (received frames)).2 broken :=
  items_eq drained_new

def receivedCut (frames : List BodyFrame) : Cut (received frames).flatten where
  chunks := received frames
  flatten_chunks := rfl
  ne_nil := fun c hc => by simpa using (List.mem_filter.1 hc).2

/-- The items for a body. Of bytes taken for framed they are the payloads of the whole frames, in order,
and at a normal end what is there of the payload of the frame that was cut short; other bytes come as
they came. A body that breaks off gives its error as the last item. -/
theorem drains_start (frames : List BodyFrame) (broken : Option BuildError) :
    (agreesWithHeader ((received frames).headD []) = true →
      ∃ payloads left, Framed (received frames).flatten payloads left ∧
        ∀ xs, Drains (start frames broken) xs ↔
          xs = payloads.map .ok ++ ending (partialPayload? left) broken) ∧
    (agreesWithHeader ((received frames).headD []) = false →
      ∀ xs, Drains (start frames broken) xs ↔
        xs = (received frames).map .ok ++ ending none broken) := by
  have hall := decodeAll_cut (receivedCut frames)
  simp only [drains_iff, items_start]
  constructor
  · intro hfirst
    have hframed : decodeAll (received frames) = framedOutput (received frames).flatten :=
      hall.trans (if_pos hfirst)
    rw [hframed, framedOutput, finish_framed]
    refine ⟨_, _, framed_framesOf _, fun xs => ?_⟩
    simp [OutputPiece.payload, Function.comp_def]
  · intro hfirst xs
    have hraw : decodeAll (received frames) = ((received frames).map .raw, none) := by
      have hcut : agreesWithHeader (receivedCut frames).first = false := hfirst
      exact hall.trans (if_neg (by simp [hcut]))
    rw [hraw]
    simp [OutputPiece.payload, Function.comp_def]

/-- The only error among the items is that of a body that breaks off, and it is the last one. -/
theorem exists_items (frames : List BodyFrame) (broken : Option BuildError) :
    ∃ pieces : List Bytes,
      (start frames broken).items = pieces.map .ok ++ broken.toList.map .error := by
  rw [items_start]
  cases broken with
  | some e => exact ⟨(decodeAll (received frames)).1.map OutputPiece.payload, by simp [ending]⟩
  | none =>
    exact ⟨(decodeAll (received frames)).1.map OutputPiece.payload ++
      (decodeAll (received frames)).2.toList, by simp [ending]⟩

theorem ofItems_append (pieces : List Bytes) (broken : Option BuildError) :
    ofItems (pieces.map .ok ++ broken.toList.map .error) = ⟨pieces, broken⟩ := by
  induction pieces with
  | nil => cases broken <;> rfl
  | cons p pieces ih =>
    rw [List.map_cons, List.cons_append, ofItems, ih]

theorem drains_ofBody (chunks : List Bytes) (broken : Option BuildError) :
    Drains (start (chunks.map .data) broken)
      ((ofBody chunks broken).chunks.map .ok ++
        (ofBody chunks broken).failure.toList.map .error) := by
  obtain ⟨pieces, hp⟩ := exists_items (chunks.map .data) broken
  rw [ofBody, hp, ofItems_append, ← hp]
  exact drains_items _

end OutputReader
end ContainerBuild
