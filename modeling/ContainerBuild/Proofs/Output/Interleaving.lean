import ContainerBuild.Proofs.Output.Framing

/-!
# Pushing and asking in any order

The bytes of a framed output reach a decoder in chunks, and between chunks it is asked for pieces any
number of times. As long as the bytes agree with a header the decoder takes frames from the front of
what was pushed, so the pieces it has given and what is in its buffer together are what `framesOf`
makes of all the bytes. When it has no further piece, it has given the frames that are all there, and
what it gives at the end is the payload of the severed one as far as it goes.
-/

namespace ContainerBuild

namespace Frame

/-- The bytes of an encoding, each with whether it belongs to a payload. -/
def marked (f : Frame) : List (UInt8 × Bool) :=
  f.header.map (·, false) ++ f.payload.map (·, true)

/-- The bytes among the first `n` of an encoding that belong to payloads, in their order. -/
def payloadBytes (n : Nat) (fs : List Frame) : Bytes :=
  (((fs.flatMap marked).take n).filter Prod.snd).map Prod.fst

theorem map_fst_marked (f : Frame) : f.marked.map Prod.fst = f.encode := by
  simp [marked, encode_eq, Function.comp_def]

@[simp] theorem length_marked (f : Frame) : f.marked.length = f.encode.length := by
  rw [← map_fst_marked, List.length_map]

theorem payload_of_marked (f : Frame) (k : Nat) :
    ((f.marked.take k).filter Prod.snd).map Prod.fst = f.payload.take (k - headerLength) := by
  have hh : ((f.header.take k).map (·, false)).filter Prod.snd = [] := by
    simp [List.filter_eq_nil_iff, -List.map_take]
  have hp : ((f.payload.take (k - headerLength)).map (·, true)).filter Prod.snd =
      (f.payload.take (k - headerLength)).map (·, true) := by
    simp [List.filter_eq_self, -List.map_take]
  rw [marked, List.take_append, List.length_map, length_header, ← List.map_take, ← List.map_take,
    List.filter_append, hh, hp]
  simp [Function.comp_def]

/-- What is there of the payload of a severed frame, once its header is there. -/
def severedPayload? (n : Nat) (fs : List Frame) : Option Bytes :=
  match severed? n fs with
  | some (f, k) => if k < headerLength then none else some (f.payload.take (k - headerLength))
  | none => none

/-- No byte of a payload is lost between the whole frames and the severed one, and none is added. -/
theorem payloadBytes_eq (n : Nat) (fs : List Frame) :
    (within n fs).flatMap payload ++ (severedPayload? n fs).getD [] = payloadBytes n fs := by
  induction fs generalizing n with
  | nil => simp [within, severedPayload?, severed?, payloadBytes]
  | cons f fs ih =>
    have hm : payloadBytes n (f :: fs) =
        f.payload.take (n - headerLength) ++ payloadBytes (n - f.encode.length) fs := by
      rw [payloadBytes, List.flatMap_cons, List.take_append, List.filter_append, List.map_append,
        payload_of_marked, length_marked]
      rfl
    rw [hm]
    by_cases hl : f.encode.length ≤ n
    · have hp : f.payload.take (n - headerLength) = f.payload := by
        rw [length_encode] at hl
        exact List.take_of_length_le (by omega)
      simpa [within, severedPayload?, severed?, hl, hp] using ih (n - f.encode.length)
    · have h0 : n - f.encode.length = 0 := by omega
      have hs : ∀ k, (if k < headerLength then none
          else some (f.payload.take (k - headerLength))).getD [] =
          f.payload.take (k - headerLength) := by
        intro k
        split
        · simp [Nat.sub_eq_zero_of_le (Nat.le_of_lt ‹_›)]
        · rfl
      simp [within, severedPayload?, severed?, hl, h0, hs, payloadBytes]

end Frame

namespace FrameDecoder

open ContainerBuild.Frame

inductive Call
  | push (b : Bytes)
  | next
  deriving DecidableEq, Repr

/-- The bytes that calls push, in order. -/
def pushed : List Call → Bytes
  | [] => []
  | .push b :: calls => b ++ pushed calls
  | .next :: calls => pushed calls

/-- The pieces that calls give one after another, and the decoder after them. -/
def answer (d : FrameDecoder) : List Call → List OutputPiece × FrameDecoder
  | [] => ([], d)
  | .push b :: calls => answer (d.push b) calls
  | .next :: calls =>
    (d.next.1.toList ++ (answer d.next.2 calls).1, (answer d.next.2 calls).2)

theorem agreesWithHeader_of_longer {a b : Bytes} (h : a <+: b) (hb : agreesWithHeader b = true) :
    agreesWithHeader a = true := by
  obtain ⟨c, rfl⟩ := h
  cases a with
  | nil => rfl
  | cons x a =>
    simp only [agreesWithHeader, List.cons_append, List.take_append, List.all_append,
      Bool.and_eq_true] at hb ⊢
    exact ⟨hb.1, hb.2.1⟩

theorem agreesWithHeader_encodeAll (fs : List Frame) : agreesWithHeader (encodeAll fs) = true := by
  cases fs with
  | nil => rfl
  | cons f fs => cases hs : f.stream <;> simp [encode, agreesWithHeader, OutputStream.number, hs]

/-- A decoder that has taken its output for framed, or will do so when `more` has come. -/
def TakesFrames (d : FrameDecoder) (more : Bytes) : Prop :=
  d.form = .framed ∨ d.form = .unknown ∧ agreesWithHeader (d.buffer ++ more) = true

theorem TakesFrames.push {d : FrameDecoder} {b more : Bytes} (h : d.TakesFrames (b ++ more)) :
    (d.push b).TakesFrames more := by
  unfold TakesFrames at h ⊢
  simpa [FrameDecoder.push] using h

theorem TakesFrames.decide_eq {d : FrameDecoder} {more : Bytes} (h : d.TakesFrames more) :
    d.decide = .framed := by
  rcases h with h | ⟨h, ha⟩
  · simp [FrameDecoder.decide, h]
  · have := agreesWithHeader_of_longer (List.prefix_append _ _) ha
    simp [FrameDecoder.decide, h, this]

theorem TakesFrames.next_eq {d : FrameDecoder} {more : Bytes} (h : d.TakesFrames more)
    (hb : d.buffer ≠ []) :
    d.next = match takeFrame? d.buffer with
      | some (f, rest) => (some (.frame f), ⟨rest, .framed⟩)
      | none => (none, ⟨d.buffer, .framed⟩) := by
  have hd := h.decide_eq
  cases ht : takeFrame? d.buffer <;> simp [FrameDecoder.next, hb, hd, ht]

/-- The pieces given so far and the buffer together are what was in the buffer and was pushed. -/
theorem TakesFrames.answer {d : FrameDecoder} {calls : List Call} (h : d.TakesFrames (pushed calls)) :
    (d.answer calls).2.TakesFrames [] ∧
      ∃ gs : List Frame, (d.answer calls).1 = gs.map .frame ∧
        framesOf (d.buffer ++ pushed calls) =
          (gs ++ (framesOf (d.answer calls).2.buffer).1, (framesOf (d.answer calls).2.buffer).2) := by
  induction calls generalizing d with
  | nil => exact ⟨h, [], rfl, by simp [pushed, FrameDecoder.answer]⟩
  | cons call calls ih =>
    cases call with
    | push b =>
      obtain ⟨ht, gs, hp, hf⟩ := ih (d := d.push b) (TakesFrames.push h)
      refine ⟨ht, gs, hp, ?_⟩
      rw [buffer_push, List.append_assoc] at hf
      exact hf
    | next =>
      simp only [FrameDecoder.answer, pushed] at h ⊢
      by_cases hb : d.buffer = []
      · rw [next_of_empty hb]
        exact ih h
      · rw [h.next_eq hb]
        cases ht : takeFrame? d.buffer with
        | none => exact ih (d := ⟨d.buffer, .framed⟩) (.inl rfl)
        | some taken =>
          obtain ⟨f, rest⟩ := taken
          obtain ⟨hr, gs, hp, hf⟩ := ih (d := ⟨rest, .framed⟩) (.inl rfl)
          refine ⟨hr, f :: gs, by simp [hp], ?_⟩
          rw [framesOf_of_some (takeFrame?_append ht _), hf]
          rfl

theorem TakesFrames.finish_eq {d : FrameDecoder} (h : d.TakesFrames []) (hn : d.next.1 = none) :
    framesOf d.buffer = ([], d.buffer) ∧
      d.next.2.finish.1 =
        if d.buffer.length < headerLength then none else some (d.buffer.drop headerLength) := by
  by_cases hb : d.buffer = []
  · rw [next_of_empty hb, hb]
    exact ⟨framesOf_nil, by simp [FrameDecoder.finish, hb, headerLength]⟩
  · rw [h.next_eq hb] at hn ⊢
    cases ht : takeFrame? d.buffer with
    | some taken => simp [ht] at hn
    | none =>
      refine ⟨framesOf_of_none ht, ?_⟩
      simp only [FrameDecoder.finish, List.isEmpty_iff, hb, if_false, if_true]
      split <;> rfl

theorem severedPayload?_eq (n : Nat) (fs : List Frame) :
    severedPayload? n fs =
      if (severedBytes n fs).length < headerLength then none
      else some ((severedBytes n fs).drop headerLength) := by
  unfold severedPayload? severedBytes
  cases h : severed? n fs with
  | none => simp [headerLength]
  | some cut =>
    obtain ⟨f, k⟩ := cut
    have hk := severed?_lt h
    have hl : (f.encode.take k).length = k := by
      rw [List.length_take]
      omega
    simp only [hl]
    split
    · rfl
    · rw [take_encode (by omega), drop_header]

/-- A decoder that is asked often enough has no further piece. -/
theorem exists_drained (d : FrameDecoder) :
    ∃ k, (d.answer (List.replicate k .next)).2.next.1 = none := by
  cases h : d.next.1 with
  | none => exact ⟨0, h⟩
  | some p =>
    obtain ⟨k, hk⟩ := exists_drained d.next.2
    exact ⟨k + 1, hk⟩
termination_by d.buffer.length
decreasing_by exact length_next_lt h

theorem answer_append (d : FrameDecoder) (calls more : List Call) :
    d.answer (calls ++ more) =
      ((d.answer calls).1 ++ ((d.answer calls).2.answer more).1,
        ((d.answer calls).2.answer more).2) := by
  induction calls generalizing d with
  | nil => rfl
  | cons call calls ih => cases call <;> simp [FrameDecoder.answer, ih]

/-- However the bytes of framed output are cut and whenever a decoder is asked, it comes to have no
further piece if it is asked on. It has then given the frames that are all there, in order, and ends
with the payload of the severed one as far as it goes. These are the payload bytes that were pushed,
each once. -/
theorem answer_encodeAll {fs : List Frame} (short : ∀ f ∈ fs, f.payload.length < UInt32.size)
    {calls : List Call} (hp : pushed calls <+: encodeAll fs) :
    (∃ k, (new.answer (calls ++ List.replicate k .next)).2.next.1 = none) ∧
      ((new.answer calls).2.next.1 = none →
        (new.answer calls).1 = (within (pushed calls).length fs).map .frame ∧
          (new.answer calls).2.next.2.finish.1 = severedPayload? (pushed calls).length fs ∧
          (new.answer calls).1.flatMap OutputPiece.payload ++
              (new.answer calls).2.next.2.finish.1.getD [] =
            payloadBytes (pushed calls).length fs) := by
  refine ⟨?_, fun drained => ?_⟩
  · obtain ⟨k, hk⟩ := exists_drained (new.answer calls).2
    exact ⟨k, by rwa [answer_append]⟩
  have hnew : new.TakesFrames (pushed calls) :=
    .inr ⟨rfl, agreesWithHeader_of_longer hp (agreesWithHeader_encodeAll fs)⟩
  obtain ⟨ht, gs, hg, hf⟩ := hnew.answer
  obtain ⟨hr, hfin⟩ := ht.finish_eq drained
  have hfs : framesOf (pushed calls) = (gs, (new.answer calls).2.buffer) := by
    have hb : new.buffer ++ pushed calls = pushed calls := rfl
    rw [hb, hr, List.append_nil] at hf
    exact hf
  obtain ⟨rfl, hbuf⟩ := Prod.mk.inj ((framesOf_encodeAll short hp).symm.trans hfs)
  rw [← hbuf, ← severedPayload?_eq] at hfin
  refine ⟨hg, hfin, ?_⟩
  rw [hg, hfin, ← payloadBytes_eq]
  simp [List.flatMap_map, OutputPiece.payload]

/-- Two frames whose headers and payloads are cut, the second also by the end. -/
theorem answer_two_frames :
    let fs : List Frame := [⟨.stdout, [104, 105]⟩, ⟨.stderr, [1, 2, 3]⟩]
    let calls : List Call := [.push [1], .next, .push [0, 0, 0], .push [], .push [0, 0, 0, 2, 104],
      .next, .push [105, 2, 0, 0, 0, 0, 0, 0, 3, 1], .next]
    (∀ f ∈ fs, f.payload.length < UInt32.size) ∧ pushed calls <+: encodeAll fs ∧
      (new.answer calls).1 = [.frame ⟨.stdout, [104, 105]⟩] ∧
      (new.answer calls).2.next.2.finish.1 = some [1] := by
  intro fs calls
  have short : ∀ f ∈ fs, f.payload.length < UInt32.size := by decide
  have hp : pushed calls <+: encodeAll fs := by decide
  have h := (answer_encodeAll short hp).2 (by decide)
  exact ⟨short, hp, h.1, h.2.1⟩

end FrameDecoder
end ContainerBuild
