import Mathlib.Data.List.TakeWhile
import ContainerBuild.Proofs.Json.Grammar
import ContainerBuild.Proofs.Traversal

/-!
# Strings and numbers are recognized

The reader of strings goes from part to part and keeps the first half of a pair in mind; what it comes to
is what the parts stand for. The reader of numbers takes all digits that it finds, so a number is found
in front of a text that does not go on with it. Whatever either of them reads is spelled as the grammar
says.
-/

namespace ContainerBuild
namespace Json

variable {x e : UInt8} {b rest : Bytes} {n m : Nat} {half : Option Nat} {part : Part}
  {parts : List Part} {c : Content}

/-! ### Strings -/

theorem content_high_byte (h : IsHigh n) : content (.unit n :: .byte x :: parts) = none := by
  simp [content, h]

theorem content_high_unit (h : IsHigh n) (hm : ¬IsLow m) :
    content (.unit n :: .unit m :: parts) = none := by
  simp [content, h, hm]

theorem content_pair (h : IsHigh n) (hm : IsLow m) : content (.unit n :: .unit m :: parts) =
    (content parts).map (charBytes (pairNumber n m) ++ ·) := by
  simp [content, h, hm]

theorem IsLow.not_isHigh (h : IsLow n) : ¬IsHigh n := by
  unfold IsLow at h
  unfold IsHigh
  omega

theorem content_low (h : IsLow n) : content (.unit n :: parts) = none := by
  rcases parts with _ | ⟨_ | _, parts⟩ <;> simp [content, h, h.not_isHigh]

theorem content_unit (hn : ¬IsHigh n) (hl : ¬IsLow n) :
    content (.unit n :: parts) = (content parts).map (charBytes n ++ ·) := by
  rcases parts with _ | ⟨_ | _, parts⟩ <;> simp [content, hn, hl]

theorem readContent_letter (h : unescapeLetter? e = some x) :
    readContent half (0x5C :: e :: rest) =
      (readContent none rest).map fun more => Content.settle half (Content.push [x] more) := by
  have he : e ≠ 0x75 := by
    rintro rfl
    cases h
  rw [readContent, h]
  rintro a b c d rest' hu -
  exact he hu

theorem readContent_plain (hq : x ≠ 0x22) (hb : x ≠ 0x5C) (hc : ¬x < 0x20) :
    readContent half (x :: rest) =
      (readContent none rest).map fun more => Content.settle half (Content.push [x] more) := by
  rw [readContent, if_neg hb, if_neg hc]
  · exact hq
  · rintro a b c d rest' h -
    exact hb h
  · rintro e rest' h -
    exact hb h

theorem readContent_unit (h : SpellsPart b (.unit n)) (rest : Bytes) :
    readContent half (b ++ rest) =
      if IsHigh n then (readContent (some n) rest).map (Content.settle half)
      else if IsLow n then
        match half with
        | some first =>
          (readContent none rest).map (Content.push (charBytes (pairNumber first n)))
        | none => (readContent none rest).map fun more => (none, more.2)
      else (readContent none rest).map fun more =>
        Content.settle half (Content.push (charBytes n) more) := by
  cases h with
  | unit h =>
    simp only [List.cons_append, List.nil_append]
    rw [readContent, h]
    rfl

theorem readContent_byte (h : SpellsPart b (.byte x)) (rest : Bytes) :
    readContent half (b ++ rest) =
      (readContent none rest).map fun more => Content.settle half (Content.push [x] more) := by
  cases h with
  | plain hq hb hc => exact readContent_plain hq hb hc
  | letter he => exact readContent_letter he

/-- What is read of a string is what its parts stand for, after the first half of a pair if one was
read before them. -/
theorem readContent_parts (h : SpellsParts b parts) (rest : Bytes) :
    readContent none (b ++ 0x22 :: rest) = .ok (content parts, rest) ∧
      ∀ n, IsHigh n →
        readContent (some n) (b ++ 0x22 :: rest) = .ok (content (.unit n :: parts), rest) := by
  -- Each part is read without a half and with one, since it may complete a pair or leave a half alone.
  induction h with
  | nil =>
    refine ⟨rfl, fun n hn => ?_⟩
    have hcontent : content [.unit n] = none := by
      simp [content, hn]
    rw [hcontent]
    rfl
  | @cons b b' part parts h _ ih =>
    rw [List.append_assoc]
    cases part with
    | byte x =>
      refine ⟨?_, fun n hn => ?_⟩
      · rw [readContent_byte h, ih.1]
        rfl
      · rw [readContent_byte h, ih.1, content_high_byte hn]
        rfl
    | unit m =>
      rw [readContent_unit h]
      by_cases high : IsHigh m
      · rw [if_pos high, ih.2 m high]
        refine ⟨rfl, fun n hn => ?_⟩
        rw [readContent_unit h, if_pos high, ih.2 m high,
          content_high_unit hn fun low => low.not_isHigh high]
        rfl
      rw [if_neg high]
      by_cases low : IsLow m
      · rw [if_pos low, content_low low, ih.1]
        refine ⟨rfl, fun n hn => ?_⟩
        rw [readContent_unit h, if_neg high, if_pos low, content_pair hn low, ih.1]
        rfl
      · rw [if_neg low, content_unit high low, ih.1]
        refine ⟨rfl, fun n hn => ?_⟩
        rw [readContent_unit h, if_neg high, if_neg low, content_high_unit hn low, ih.1]
        rfl

@[simp] theorem settle_snd (half : Option Nat) (more : Content × Bytes) :
    (Content.settle half more).2 = more.2 := by
  unfold Content.settle
  split <;> rfl

@[simp] theorem push_snd (bytes : Bytes) (more : Content × Bytes) :
    (Content.push bytes more).2 = more.2 :=
  rfl

/-- What is read after a part stands in what is read from the part on. -/
theorem exists_parts_cons {x : Except Break (Content × Bytes)}
    {f : Content × Bytes → Content × Bytes} {p : Bytes} (hp : SpellsPart p part)
    (hf : ∀ more, (f more).2 = more.2)
    (ih : ∀ {c}, x = .ok (c, rest) → ∃ t parts, b = t ++ 0x22 :: rest ∧ SpellsParts t parts)
    (h : x.map f = .ok (c, rest)) :
    ∃ t parts, p ++ b = t ++ 0x22 :: rest ∧ SpellsParts t parts := by
  cases x with
  | error e => cases h
  | ok more =>
    have hrest : more.2 = rest := (hf more).symm.trans (congrArg Prod.snd (Except.ok.inj h))
    obtain ⟨t, parts, rfl, ht⟩ := ih (c := more.1) (by rw [← hrest])
    exact ⟨p ++ t, part :: parts, (List.append_assoc ..).symm, .cons hp ht⟩

/-- A string that is read is spelled by parts, up to its closing quote. -/
theorem exists_parts (h : readContent half b = .ok (c, rest)) :
    ∃ t parts, b = t ++ 0x22 :: rest ∧ SpellsParts t parts := by
  fun_induction readContent half b generalizing c with
  | case1 | case3 | case8 | case10 | case11 => cases h
  | case2 half after =>
    have hrest : after = rest :=
      (settle_snd half (some [], after)).symm.trans (congrArg Prod.snd (Except.ok.inj h))
    exact ⟨[], [], by rw [hrest]; rfl, .nil⟩
  | case4 half a b c d after n hu high ih => exact exists_parts_cons (.unit hu) (by simp) ih h
  | case5 a b c d after n hu high low first char =>
    rename_i ih
    exact exists_parts_cons (.unit hu) (by simp) ih h
  | case6 a b c d after n hu high low ih => exact exists_parts_cons (.unit hu) (by simp) ih h
  | case7 half a b c d after n hu high low ih => exact exists_parts_cons (.unit hu) (by simp) ih h
  | case9 half e after _ x he ih => exact exists_parts_cons (.letter he) (by simp) ih h
  | case12 half x after hq _ _ hb hc ih =>
    exact exists_parts_cons (.plain hq hb hc) (by simp) ih h

theorem readText_string {s? : Option String} (h : SpellsString b s?) (rest : Bytes) :
    ∃ t, b = 0x22 :: t ∧ readText (t ++ rest) = .ok (s?, rest) := by
  obtain ⟨h⟩ := h
  refine ⟨_, rfl, ?_⟩
  rw [readText, List.append_assoc, List.singleton_append, (readContent_parts h rest).1]
  rfl

theorem string_of_readText {s? : Option String} (h : readText b = .ok (s?, rest)) :
    ∃ t, 0x22 :: b = t ++ rest ∧ SpellsString t s? := by
  cases hc : readContent none b with
  | error e =>
    rw [readText, hc] at h
    cases h
  | ok more =>
    obtain ⟨c, after⟩ := more
    rw [readText, hc] at h
    obtain ⟨hs, rfl⟩ := Prod.mk.inj (Except.ok.inj h)
    obtain ⟨t, parts, rfl, ht⟩ := exists_parts hc
    have hcontent : c = content parts := by
      have hread := hc.symm.trans (readContent_parts ht after).1
      exact (Prod.mk.inj (Except.ok.inj hread)).1
    refine ⟨0x22 :: (t ++ [0x22]), by simp, ?_⟩
    rw [← hs, hcontent]
    exact .intro ht

/-! ### Numbers -/

def StartsNumber (x : UInt8) : Prop :=
  x = 0x2D ∨ isDigit x = true

theorem StartsNumber.ne (hx : StartsNumber x) (he : (e == 0x2D || isDigit e) = false) : x ≠ e := by
  rintro rfl
  rw [Bool.or_eq_false_iff, beq_eq_false_iff_ne] at he
  obtain h | h := hx
  · exact he.1 h
  · exact Bool.false_ne_true (he.2.symm.trans h)

theorem StartsNumber.isSpace (hx : StartsNumber x) : isSpace x = false := by
  simp only [Json.isSpace, Bool.or_eq_false_iff, beq_eq_false_iff_ne]
  exact ⟨⟨⟨hx.ne rfl, hx.ne rfl⟩, hx.ne rfl⟩, hx.ne rfl⟩

/-- No byte here goes on with a number. -/
def EndsNumber (rest : Bytes) : Prop :=
  ∀ x ∈ rest.head?, isDigit x = false ∧ x ≠ 0x2E ∧ x ≠ 0x65 ∧ x ≠ 0x45

/-- What stands after a value in a list or an object goes on with no number. -/
theorem endsNumber_cons (h : x = 0x2C ∨ x = 0x5D ∨ x = 0x7D) : EndsNumber (x :: rest) := by
  intro y hy
  cases hy
  obtain rfl | rfl | rfl := h <;> decide

def EndsDigits (rest : Bytes) : Prop :=
  ∀ x ∈ rest.head?, isDigit x = false

theorem EndsNumber.endsDigits (h : EndsNumber rest) : EndsDigits rest :=
  fun x hx => (h x hx).1

theorem EndsDigits.takeWhile (h : EndsDigits rest) (hb : ∀ x ∈ b, isDigit x = true) :
    (b ++ rest).takeWhile isDigit = b := by
  rw [List.takeWhile_append_of_pos hb]
  cases rest with
  | nil => simp
  | cons x rest =>
    have hx := h x rfl
    simp [hx]

theorem EndsDigits.dropWhile (h : EndsDigits rest) (hb : ∀ x ∈ b, isDigit x = true) :
    (b ++ rest).dropWhile isDigit = rest := by
  rw [List.dropWhile_append_of_pos hb]
  cases rest with
  | nil => rfl
  | cons x rest =>
    have hx := h x rfl
    simp [hx]

theorem EndsNumber.skipExponent (h : EndsNumber rest) : skipExponent rest = .ok (false, rest) := by
  cases rest with
  | nil => rfl
  | cons x rest =>
    obtain ⟨-, -, h1, h2⟩ := h x rfl
    rw [Json.skipExponent.eq_def]
    exact if_neg (not_or.2 ⟨h1, h2⟩)

section Numbers

variable {t : Bytes} {negative f e : Bool} {r : Reading}

theorem Digits.exists_cons (h : Digits b) : ∃ d ds, b = d :: ds ∧ isDigit d = true := by
  obtain ⟨hne, hd⟩ := h
  obtain ⟨d, ds, rfl⟩ := List.exists_cons_of_ne_nil hne
  exact ⟨d, ds, rfl, hd d List.mem_cons_self⟩

theorem exists_digits
    (h : (match b with
      | d :: _ => if isDigit d then .ok (true, b.dropWhile isDigit) else .error ⟨b⟩
      | [] => .error ⟨[]⟩) = (.ok (f, rest) : Except Break (Bool × Bytes))) :
    f = true ∧ ∃ t, b = t ++ rest ∧ Digits t := by
  split at h
  · rename_i d ds
    split at h
    · rename_i hd
      cases h
      refine ⟨rfl, (d :: ds).takeWhile isDigit, List.takeWhile_append_dropWhile.symm, ?_, ?_⟩
      · rw [List.takeWhile_cons, if_pos hd]
        exact List.cons_ne_nil _ _
      · exact fun x hx => List.mem_takeWhile_imp hx
    · cases h
  · cases h

theorem SpellsFraction.skip (h : SpellsFraction t f) (hr : EndsDigits rest)
    (hdot : f = false → ∀ x ∈ rest.head?, x ≠ 0x2E) :
    skipFraction (t ++ rest) = .ok (f, rest) := by
  cases h with
  | absent =>
    cases rest with
    | nil => rfl
    | cons x rest =>
      rw [List.nil_append, skipFraction]
      rintro rest' heq
      exact hdot rfl x rfl (List.cons.inj heq).1
  | present h =>
    have hdrop := hr.dropWhile h.2
    obtain ⟨d, ds, rfl, hd⟩ := h.exists_cons
    rw [List.cons_append] at hdrop
    simp only [List.cons_append, skipFraction, hd, if_true, hdrop]

theorem exists_fraction (h : skipFraction b = .ok (f, rest)) :
    ∃ t, b = t ++ rest ∧ SpellsFraction t f := by
  unfold skipFraction at h
  split at h
  · obtain ⟨rfl, t, rfl, digits⟩ := exists_digits h
    exact ⟨0x2E :: t, rfl, .present digits⟩
  · cases h
    exact ⟨[], rfl, .absent⟩

theorem SpellsExponent.skip (h : SpellsExponent t e) (hr : EndsNumber rest) :
    skipExponent (t ++ rest) = .ok (e, rest) := by
  cases h with
  | absent => exact hr.skipExponent
  | @present x sign b hx hs h =>
    have hdrop := hr.endsDigits.dropWhile h.2
    obtain ⟨d, ds, rfl, hd⟩ := h.exists_cons
    have hsign : ¬(d = 0x2B ∨ d = 0x2D) := by
      rintro (rfl | rfl) <;> cases hd
    rw [List.cons_append] at hdrop
    obtain rfl | rfl | rfl := hs <;>
      simp [skipExponent, hx, hsign, hd, hdrop]

theorem exists_exponent (h : skipExponent b = .ok (e, rest)) :
    ∃ t, b = t ++ rest ∧ SpellsExponent t e := by
  unfold skipExponent at h
  split at h
  · rename_i x after
    split at h
    · rename_i hx
      obtain ⟨rfl, t, ht, digits⟩ := exists_digits h
      rcases after with _ | ⟨s, more⟩
      · rw [(List.append_eq_nil_iff.1 ht.symm).1] at digits
        exact absurd rfl digits.1
      by_cases hs : s = 0x2B ∨ s = 0x2D
      · obtain rfl : more = t ++ rest := (if_pos hs).symm.trans ht
        have hsign : [s] = [] ∨ [s] = [0x2B] ∨ [s] = [0x2D] := by simpa using hs
        exact ⟨x :: ([s] ++ t), rfl, .present hx hsign digits⟩
      · have ht : s :: more = t ++ rest := (if_neg hs).symm.trans ht
        rw [ht]
        exact ⟨x :: ([] ++ t), rfl, .present hx (.inl rfl) digits⟩
    · cases h
      exact ⟨[], rfl, .absent⟩
  · cases h
    exact ⟨[], rfl, .absent⟩

theorem IsWhole.cases (h : IsWhole b) : (∃ d, b = [d]) ∨ ∃ d second more,
    b = d :: second :: more ∧ d ≠ 0x30 := by
  obtain ⟨⟨hne, -⟩, hz⟩ := h
  rcases b with _ | ⟨d, _ | ⟨second, more⟩⟩
  · exact absurd rfl hne
  · exact .inl ⟨d, rfl⟩
  · refine .inr ⟨d, second, more, rfl, ?_⟩
    rintro rfl
    cases hz rfl

theorem readUnsigned_of_whole (h : IsWhole (b.takeWhile isDigit)) :
    readUnsigned negative b = (do
      let (f, rest) ← skipFraction (b.dropWhile isDigit)
      let (e, rest) ← skipExponent rest
      return (numberReading negative f e (digitsValue (b.takeWhile isDigit)), rest)) := by
  unfold readUnsigned
  generalize b.takeWhile isDigit = whole at *
  dsimp only
  split
  · exact absurd rfl h.1.1
  · obtain ⟨d, hd⟩ | ⟨d, second, more, hd, hz⟩ := h.cases
    · cases hd
    · exact absurd (List.cons.inj hd).1.symm hz
  · cases skipFraction (b.dropWhile isDigit) with
    | error e => rfl
    | ok p =>
      obtain ⟨f, rest⟩ := p
      change (skipExponent rest >>= _) = (skipExponent rest >>= _)
      cases skipExponent rest with
      | error e => rfl
      | ok p =>
        obtain ⟨e, rest⟩ := p
        unfold numberReading
        change (if _ then _ else _) = Except.ok (if _ then _ else _, _)
        split <;> rfl

theorem isWhole_of_readUnsigned (h : readUnsigned negative b = .ok (r, rest)) :
    IsWhole (b.takeWhile isDigit) := by
  have hdigits : ∀ x ∈ b.takeWhile isDigit, isDigit x = true := fun x hx => List.mem_takeWhile_imp hx
  unfold readUnsigned at h
  generalize b.takeWhile isDigit = whole at *
  rcases whole with _ | ⟨d, _ | ⟨second, more⟩⟩
  · cases h
  · exact ⟨⟨List.cons_ne_nil _ _, hdigits⟩, fun hd => by simpa using hd⟩
  · refine ⟨⟨List.cons_ne_nil _ _, hdigits⟩, fun hd => ?_⟩
    obtain rfl : d = 0x30 := by simpa using hd
    cases h

theorem SpellsExponent.endsDigits (h : SpellsExponent t e) (hr : EndsNumber rest) :
    EndsDigits (t ++ rest) ∧ ∀ x ∈ (t ++ rest).head?, x ≠ 0x2E := by
  cases h with
  | absent => exact ⟨hr.endsDigits, fun x hx => (hr x hx).2.1⟩
  | present hx =>
    obtain rfl | rfl := hx <;> constructor <;> rintro y ⟨⟩ <;> decide

theorem SpellsFraction.endsDigits (h : SpellsFraction t f) (hr : EndsDigits rest) :
    EndsDigits (t ++ rest) := by
  cases h with
  | absent => exact hr
  | present =>
    rintro y ⟨⟩
    decide

theorem SpellsUnsigned.read (h : SpellsUnsigned negative b r) (hr : EndsNumber rest) :
    readUnsigned negative (b ++ rest) = .ok (r, rest) := by
  obtain ⟨hw, hf, he⟩ := h
  rename_i whole fraction exponent f e
  obtain ⟨hdigits, hdot⟩ := he.endsDigits hr
  have hafter := hf.endsDigits hdigits
  have htake := hafter.takeWhile hw.1.2
  have hdrop := hafter.dropWhile hw.1.2
  rw [List.append_assoc, List.append_assoc, readUnsigned_of_whole (by rwa [htake]), htake, hdrop,
    hf.skip hdigits fun _ => hdot]
  change (skipExponent (exponent ++ rest) >>= _) = _
  rw [he.skip hr]
  rfl

theorem exists_unsigned (h : readUnsigned negative b = .ok (r, rest)) :
    ∃ t, b = t ++ rest ∧ SpellsUnsigned negative t r := by
  have hw := isWhole_of_readUnsigned h
  rw [readUnsigned_of_whole hw] at h
  obtain ⟨⟨f, _⟩, hfraction, h⟩ := bind_eq_ok_iff.1 h
  obtain ⟨⟨e, _⟩, hexponent, h⟩ := bind_eq_ok_iff.1 h
  obtain ⟨rfl, rfl⟩ := Prod.mk.inj (Except.ok.inj h)
  obtain ⟨fraction, hrest, hf⟩ := exists_fraction hfraction
  obtain ⟨exponent, rfl, he⟩ := exists_exponent hexponent
  refine ⟨_, ?_, .intro hw hf he⟩
  rw [List.append_assoc, List.append_assoc, ← hrest, List.takeWhile_append_dropWhile]

theorem SpellsUnsigned.exists_cons (h : SpellsUnsigned negative b r) :
    ∃ d ds, b = d :: ds ∧ isDigit d = true := by
  obtain ⟨hw, -, -⟩ := h
  obtain ⟨d, ds, rfl, hd⟩ := hw.1.exists_cons
  exact ⟨d, _, rfl, hd⟩

/-- A number begins with a minus or a digit. -/
theorem SpellsNumber.exists_cons (h : SpellsNumber b r) : ∃ x t, b = x :: t ∧ StartsNumber x := by
  cases h with
  | negative h => exact ⟨_, _, rfl, .inl rfl⟩
  | plain h =>
    obtain ⟨d, ds, rfl, hd⟩ := h.exists_cons
    exact ⟨d, ds, rfl, .inr hd⟩

theorem readNumber_of_ne_minus {d : UInt8} (h : d ≠ 0x2D) (b : Bytes) :
    readNumber (d :: b) = readUnsigned false (d :: b) := by
  rw [readNumber]
  rintro rest heq
  exact h (List.cons.inj heq).1

/-- A number is read up to what cannot go on with it. -/
theorem SpellsNumber.read (h : SpellsNumber b r) (hr : EndsNumber rest) :
    readNumber (b ++ rest) = .ok (r, rest) := by
  cases h with
  | negative h => exact h.read hr
  | plain h =>
    have hread := h.read hr
    obtain ⟨d, ds, rfl, hd⟩ := h.exists_cons
    have hminus : d ≠ 0x2D := by
      rintro rfl
      cases hd
    rw [List.cons_append] at hread ⊢
    rw [readNumber_of_ne_minus hminus, hread]

theorem number_of_readNumber (h : readNumber b = .ok (r, rest)) :
    ∃ t, b = t ++ rest ∧ SpellsNumber t r := by
  unfold readNumber at h
  split at h
  · obtain ⟨t, rfl, ht⟩ := exists_unsigned h
    exact ⟨0x2D :: t, rfl, .negative ht⟩
  · obtain ⟨t, rfl, ht⟩ := exists_unsigned h
    exact ⟨t, rfl, .plain ht⟩

end Numbers

end Json
end ContainerBuild
