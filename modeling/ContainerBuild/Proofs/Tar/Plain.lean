import ContainerBuild.Gzip
import ContainerBuild.Proofs.Tar.Reading

/-!
# Archives that are not compressed

An archive begins with a name that is text, and no text begins with the two bytes that mark a compressed
file: the second of them only goes on with a character, and the first begins none that goes on. So what
was written is never taken for a compressed archive.
-/

namespace ContainerBuild

theorem Gzip.hasSignature_iff {b : Bytes} :
    Gzip.hasSignature b = true ↔ ∃ rest, b = 0x1F :: 0x8B :: rest := by
  rw [Gzip.hasSignature, List.isPrefixOf_iff_prefix]
  exact ⟨fun ⟨rest, h⟩ => ⟨rest, h.symm⟩, fun ⟨rest, h⟩ => ⟨rest, h.symm⟩⟩

theorem Utf8.not_starts_with_signature {s : String} {rest : Bytes} :
    Utf8.encode s ≠ 0x1F :: 0x8B :: rest := by
  intro h
  obtain ⟨cs, rfl⟩ : ∃ cs, s = String.ofList cs := ⟨s.toList, by simp⟩
  rw [Utf8.encode_ofList] at h
  cases cs with
  | nil => cases h
  | cons c cs =>
    obtain ⟨lead, more, hc⟩ := List.exists_cons_of_ne_nil (String.utf8EncodeChar_ne_nil (c := c))
    rw [List.flatMap_cons, hc, List.cons_append] at h
    obtain ⟨rfl, htail⟩ := List.cons.inj h
    have alone : more = [] := by
      have found := Utf8.nextChar_of_encode hc []
      rw [Utf8.nextChar, if_pos (by decide), List.append_nil] at found
      exact (Prod.mk.inj found).2
    rw [alone, List.nil_append] at htail
    cases cs with
    | nil => cases htail
    | cons c cs =>
      obtain ⟨lead, more, hc⟩ := List.exists_cons_of_ne_nil (String.utf8EncodeChar_ne_nil (c := c))
      rw [List.flatMap_cons, hc, List.cons_append] at htail
      obtain ⟨rfl, -⟩ := List.cons.inj htail
      have found := Utf8.nextChar_of_encode hc []
      rw [Utf8.nextChar, if_neg (by decide)] at found
      cases found

namespace Tar

open FilePath

theorem hasSignature_render {h : Header} {s : String} (name : h.name = Utf8.encode s)
    (nonempty : h.name ≠ []) (rest : Bytes) : Gzip.hasSignature (h.render ++ rest) = false := by
  refine Bool.eq_false_iff.2 fun hs => ?_
  obtain ⟨more, hm⟩ := Gzip.hasSignature_iff.1 hs
  obtain ⟨x, t, ht⟩ := List.exists_cons_of_ne_nil nonempty
  simp only [Header.render, Header.fieldsBefore, field, List.append_assoc, ht, List.cons_append] at hm
  obtain ⟨rfl, hm⟩ := List.cons.inj hm
  cases t with
  | nil =>
    -- After a name of one byte its field goes on with zeros.
    simp only [nameWidth, List.length_cons, List.length_nil, List.nil_append] at hm
    cases hm
  | cons y t =>
    obtain ⟨rfl, -⟩ := List.cons.inj hm
    exact Utf8.not_starts_with_signature (name.symm.trans ht)

theorem hasSignature_longText (kind : UInt8) (text rest : Bytes) :
    Gzip.hasSignature (longText kind text ++ rest) = false := by
  have nonempty : Utf8.encode "././@LongLink" ≠ [] := by decide
  rw [longText, List.append_assoc]
  exact hasSignature_render rfl nonempty _

theorem hasSignature_member {m : Member} (legible : m.Legible) {bytes : Bytes}
    (h : m.render = .ok bytes) (rest : Bytes) : Gzip.hasSignature (bytes ++ rest) = false := by
  obtain ⟨p, hne, hp, hm⟩ := legible.name
  obtain ⟨s, hs⟩ := legible.text
  have start := legible.writable.start
  rw [hm] at start
  rcases nameParts_cases hp hne start with ⟨hn, -⟩ | ⟨field, hn, -⟩
  · rw [← hm] at hn
    have nonempty : m.name ≠ [] :=
      hm ▸ intercalate_ne_nil (fun n hn => (hp n hn).1.toIsPiece) hne
    rw [Member.render_eq hn] at h
    obtain rfl := Except.ok.inj h
    rw [List.nil_append, List.append_assoc, List.append_assoc]
    have link : m.linkParts.1 = [] ∨ ∃ target, m.linkParts.1 = longText Kind.longLink target := by
      unfold Member.linkParts
      split
      · rename_i target _
        rw [Tar.linkParts]
        rcases linkField target with ⟨field, _ | _⟩
        · exact .inr ⟨_, rfl⟩
        · exact .inl rfl
      · exact .inl rfl
    rcases link with link | ⟨target, link⟩
    · rw [link, List.nil_append]
      exact hasSignature_render hs nonempty _
    · rw [link]
      exact hasSignature_longText _ _ _
  · rw [← hm] at hn
    rw [Member.render_eq hn] at h
    obtain rfl := Except.ok.inj h
    simp only [List.append_assoc]
    exact hasSignature_longText _ _ _

theorem hasSignature_write {ms : List Member} (legible : ∀ m ∈ ms, m.Legible) {archive : Bytes}
    (h : write ms = .ok archive) : Gzip.hasSignature archive = false := by
  cases ms with
  | nil =>
    cases h
    rfl
  | cons m ms =>
    obtain ⟨first, hfirst, -⟩ := exists_render (legible m List.mem_cons_self).writable
    rw [write, renderAll, hfirst] at h
    cases hrest : renderAll ms with
    | error flaw =>
      rw [hrest] at h
      cases h
    | ok rest =>
      rw [hrest] at h
      obtain rfl := Except.ok.inj h
      rw [List.append_assoc]
      exact hasSignature_member (legible m List.mem_cons_self) hfirst _

theorem source_of_plain {archive : Bytes} (plain : Gzip.hasSignature archive = false) :
    Gzip.source archive = .ofBytes archive := by
  rw [Gzip.source, if_neg (by simp [plain])]

theorem source_write {ms : List Member} (legible : ∀ m ∈ ms, m.Legible) {archive : Bytes}
    (h : write ms = .ok archive) : Gzip.source archive = .ofBytes archive :=
  source_of_plain (hasSignature_write legible h)

end Tar
end ContainerBuild
