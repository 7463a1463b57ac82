import ContainerBuild.CommandLine
import ContainerBuild.Proofs.Platform.Parts
import ContainerBuild.Proofs.Platform.Spelling
import ContainerBuild.Proofs.Text.Trimming
import ContainerBuild.Proofs.Traversal

/-!
# Platforms read back from their text

A platform that is read from a text is written with its names in their one spelling, and is read back from
that as it is. Nothing of its text is trimmed, and folding its names brings no slash and no comma into
them: so a list of platforms is read back from its text too, unless one of them has a comma itself.
-/

namespace ContainerBuild
namespace PlatformSpec

open Text (StartsPlain EndsPlain)

variable {p : PlatformSpec} {s : String} {pieces : List String}

/-- The platform that some pieces name. -/
inductive Named : List String → PlatformSpec → Prop
  | pair (os architecture : String) : Named [os, architecture] (of os architecture)
  | triple (os architecture variant : String) :
    Named [os, architecture, variant] ((of os architecture).withVariant variant)

/-- A text is read as the platform that the pieces between its slashes name, if none of them is empty. -/
theorem parse_eq_ok_iff : parse s = .ok p ↔
    (∀ piece ∈ Text.split '/' (Text.trim s), piece ≠ "") ∧ Named (Text.split '/' (Text.trim s)) p := by
  rw [parse, mapError_eq_ok_iff]
  generalize Text.split '/' (Text.trim s) = pieces
  have empty : pieces.any String.isEmpty = true ↔ ¬∀ piece ∈ pieces, piece ≠ "" := by
    simp [String.isEmpty_iff]
  unfold ofSegments
  by_cases full : ∀ piece ∈ pieces, piece ≠ ""
  · rw [if_neg (by rwa [empty, not_not])]
    constructor
    · intro h
      refine ⟨full, ?_⟩
      split at h
      · obtain rfl := Except.ok.inj h
        exact .pair _ _
      · obtain rfl := Except.ok.inj h
        exact .triple _ _ _
      · cases h
    · rintro ⟨-, named⟩
      cases named <;> rfl
  · rw [if_pos (empty.2 full)]
    exact iff_of_false nofun fun h => full h.1

/-! ### Names in their one spelling -/

theorem lowerAscii_ne_empty {name : String} (h : name ≠ "") : Text.lowerAscii name ≠ "" := by
  rw [Ne, ← String.toList_eq_nil_iff] at h ⊢
  rw [Text.lowerAscii, String.toList_ofList]
  simpa using h

theorem canonicalName_ne_empty {name : String} (h : name ≠ "") : Arch.canonicalName name ≠ "" := by
  by_cases hn : Arch.ofName name = .unknown
  · rw [Arch.canonicalName_of_unknown hn]
    exact lowerAscii_ne_empty h
  · rw [Arch.canonicalName_of_known hn]
    cases Arch.ofName name <;> decide

theorem endsPlain_canonicalName {name : String} (h : EndsPlain name.toList) :
    EndsPlain (Arch.canonicalName name).toList := by
  by_cases hn : Arch.ofName name = .unknown
  · rw [Arch.canonicalName_of_unknown hn, Text.lowerAscii, String.toList_ofList]
    exact h.map_toLower
  · rw [Arch.canonicalName_of_known hn]
    cases Arch.ofName name <;> exact ⟨_, _, rfl, by decide⟩

theorem comma_notMem_canonicalName {name : String} (h : ',' ∉ name.toList) :
    ',' ∉ (Arch.canonicalName name).toList := by
  by_cases hn : Arch.ofName name = .unknown
  · rw [Arch.canonicalName_of_unknown hn]
    exact Text.notMem_lowerAscii (by decide) h
  · rw [Arch.canonicalName_of_known hn]
    cases Arch.ofName name <;> decide

theorem Named.canonical (h : Named pieces p) : p.Canonical := by
  cases h with
  | pair os architecture => exact canonical_of os architecture
  | triple os architecture variant => exact (canonical_of os architecture).withVariant variant

theorem Named.parts_ne_empty (h : Named pieces p) (full : ∀ piece ∈ pieces, piece ≠ "") :
    ∀ part ∈ p.parts, part ≠ "" := by
  cases h with
  | pair os architecture =>
    simp only [List.forall_mem_cons] at full
    obtain ⟨hos, harch, -⟩ := full
    simpa [parts, of] using And.intro (lowerAscii_ne_empty hos) (canonicalName_ne_empty harch)
  | triple os architecture variant =>
    simp only [List.forall_mem_cons] at full
    obtain ⟨hos, harch, hv, -⟩ := full
    simpa [parts, of, withVariant] using
      And.intro (lowerAscii_ne_empty hos) (And.intro (canonicalName_ne_empty harch) hv)

theorem Named.comma_notMem (h : Named pieces p) (free : ∀ piece ∈ pieces, ',' ∉ piece.toList) :
    ∀ part ∈ p.parts, ',' ∉ part.toList := by
  cases h with
  | pair os architecture =>
    simp only [List.forall_mem_cons] at free
    obtain ⟨hos, harch, -⟩ := free
    simpa [parts, of] using
      And.intro (Text.notMem_lowerAscii (by decide) hos) (comma_notMem_canonicalName harch)
  | triple os architecture variant =>
    simp only [List.forall_mem_cons] at free
    obtain ⟨hos, harch, hv, -⟩ := free
    simpa [parts, of, withVariant] using And.intro (Text.notMem_lowerAscii (by decide) hos)
      (And.intro (comma_notMem_canonicalName harch) hv)

theorem Canonical.named (h : p.Canonical) : Named p.parts p := by
  have plain := h.of_eq
  obtain ⟨os, architecture, _ | variant⟩ := p
  · have named := Named.pair os architecture
    rwa [plain] at named
  · have named := Named.triple os architecture variant
    rwa [plain] at named

/-! ### The text -/

/-- The text of a platform that is read from trimmed pieces has blanks at neither end. -/
theorem Named.plain (h : Named pieces p) (full : ∀ piece ∈ pieces, piece ≠ "")
    (starts : StartsPlain (Text.join "/" pieces).toList)
    (ends : EndsPlain (Text.join "/" pieces).toList) :
    StartsPlain p.text.toList ∧ EndsPlain p.text.toList := by
  have nonempty {piece : String} (hp : piece ∈ pieces) : piece.toList ≠ [] := by
    rw [Ne, String.toList_eq_nil_iff]
    exact full piece hp
  cases h with
  | pair os architecture =>
    rw [Text.join_cons_cons, Text.join_singleton, String.toList_append, String.toList_append]
      at starts ends
    rw [List.append_assoc] at starts
    have hos := starts.of_append (nonempty (by simp))
    have harch := ends.of_append (nonempty (by simp))
    constructor
    · rw [text_eq_join]
      simp only [parts, of, Option.toList_none, List.append_nil, Text.join_cons_cons,
        String.toList_append, Text.lowerAscii, String.toList_ofList, List.append_assoc]
      exact hos.map_toLower.append _
    · rw [text_eq_join]
      simp only [parts, of, Option.toList_none, List.append_nil, Text.join_cons_cons,
        Text.join_singleton, String.toList_append]
      exact (endsPlain_canonicalName harch).append _
  | triple os architecture variant =>
    rw [Text.join_cons_cons, Text.join_cons_cons, Text.join_singleton] at starts ends
    simp only [String.toList_append] at starts ends
    rw [List.append_assoc] at starts
    rw [← List.append_assoc] at ends
    have hos := starts.of_append (nonempty (by simp))
    have hv := ends.of_append (nonempty (by simp))
    constructor
    · rw [text_eq]
      simp only [of, withVariant, String.toList_append, Text.lowerAscii, String.toList_ofList,
        List.append_assoc]
      exact hos.map_toLower.append _
    · rw [text_eq]
      simp only [withVariant, variantText, String.toList_append]
      rw [← List.append_assoc]
      exact hv.append _

theorem trim_text (h : parse s = .ok p) : Text.trim p.text = p.text := by
  obtain ⟨full, named⟩ := parse_eq_ok_iff.1 h
  have whole : Text.join "/" (Text.split '/' (Text.trim s)) = Text.trim s :=
    Text.join_split rfl (Text.trim s)
  have nonempty : Text.trimChars s.toList ≠ [] := by
    intro empty
    rw [Text.trim, empty] at full
    exact full "" (by decide) rfl
  have plain := named.plain full (by rw [whole, Text.toList_trim]; exact Text.startsPlain_trimChars nonempty)
    (by rw [whole, Text.toList_trim]; exact Text.endsPlain_trimChars nonempty)
  rw [Text.trim, Text.trimChars_of_plain plain.1 plain.2, String.ofList_toList]

theorem parse_text (h : parse s = .ok p) : parse p.text = .ok p := by
  obtain ⟨full, named⟩ := parse_eq_ok_iff.1 h
  rw [parse_eq_ok_iff, trim_text h, split_text_iff.2 (unslashed_of_parse h)]
  exact ⟨named.parts_ne_empty full, named.canonical.named⟩

theorem comma_notMem_text (h : parse s = .ok p) (free : ',' ∉ s.toList) : ',' ∉ p.text.toList := by
  obtain ⟨-, named⟩ := parse_eq_ok_iff.1 h
  rw [text_eq_join]
  refine Text.notMem_join (by decide) (named.comma_notMem fun piece hp comma => free ?_)
  have mem := Text.mem_of_mem_split hp comma
  rw [Text.toList_trim] at mem
  exact Text.mem_of_mem_trimChars mem

/-! ### Lists -/

/-- Platforms are read from the list of their texts if each is read from its text as it is. -/
theorem readPlatforms_listText {specs : List PlatformSpec} (nonempty : specs ≠ [])
    (read : ∀ p ∈ specs, parse (Text.trim p.text) = .ok p) (free : ∀ p ∈ specs, ',' ∉ p.text.toList) :
    CommandLine.readPlatforms (listText specs) = .ok specs := by
  have cut : Text.split ',' (listText specs) = specs.map text :=
    Text.split_join rfl (by simpa using free) (by simpa using nonempty)
  rw [CommandLine.readPlatforms, cut]
  exact mapM_map_of_inverse read

/-- A platform that is read from a text is written with its system in small letters, its architecture in
its one spelling and its variant as it stands in the trimmed text, and is read back from that. A list of
platforms that are read from texts without commas is read back from the text of the list. -/
theorem printed_platforms_read_back :
    (∀ s p, parse s = .ok p → parse p.text = .ok p ∧
      ((∃ os architecture, Text.split '/' (Text.trim s) = [os, architecture] ∧
          p.text = Text.lowerAscii os ++ "/" ++ Arch.canonicalName architecture) ∨
        ∃ os architecture variant, Text.split '/' (Text.trim s) = [os, architecture, variant] ∧
          p.text = Text.lowerAscii os ++ "/" ++ Arch.canonicalName architecture ++ "/" ++ variant)) ∧
      ∀ specs, specs ≠ [] → (∀ p ∈ specs, ∃ s, ',' ∉ s.toList ∧ parse s = .ok p) →
        CommandLine.readPlatforms (listText specs) = .ok specs := by
  refine ⟨fun s p h => ⟨parse_text h, ?_⟩, fun specs nonempty read => ?_⟩
  · obtain ⟨-, named⟩ := parse_eq_ok_iff.1 h
    generalize Text.split '/' (Text.trim s) = pieces at named ⊢
    cases named with
    | pair os architecture => exact .inl ⟨os, architecture, rfl, rfl⟩
    | triple os architecture variant => exact .inr ⟨os, architecture, variant, rfl, rfl⟩
  · refine readPlatforms_listText nonempty (fun p hp => ?_) fun p hp => ?_
    · obtain ⟨s, -, h⟩ := read p hp
      rw [trim_text h, parse_text h]
    · obtain ⟨s, free, h⟩ := read p hp
      exact comma_notMem_text h free

end PlatformSpec
end ContainerBuild
