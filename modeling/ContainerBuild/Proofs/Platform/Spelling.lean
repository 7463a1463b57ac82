import ContainerBuild.Container.Codec
import ContainerBuild.Proofs.Json.ReadingBack
import ContainerBuild.Proofs.Json.Records
import ContainerBuild.Proofs.Text.Folding

/-!
# The spelling of platforms

A platform that is made from names, or read from its own text, has each name in one spelling, so two of
them with the same target are the same and are written alike. A platform that is read as a record keeps
the names as they are spelled there, whatever the spelling.
-/

namespace ContainerBuild

namespace Arch

variable {name : String}

theorem ofName_lowerAscii (name : String) : ofName (Text.lowerAscii name) = ofName name := by
  unfold ofName
  rw [Text.lowerAscii_lowerAscii]

theorem canonicalName_of_unknown (h : ofName name = unknown) :
    canonicalName name = Text.lowerAscii name := by
  unfold canonicalName
  rw [h]

theorem canonicalName_of_known (h : ofName name ≠ unknown) :
    canonicalName name = (ofName name).name := by
  unfold canonicalName
  cases hn : ofName name with
  | unknown => exact absurd hn h
  | _ => rfl

theorem ofName_name (arch : Arch) : ofName arch.name = arch := by
  cases arch <;> decide

theorem canonicalName_canonicalName (name : String) :
    canonicalName (canonicalName name) = canonicalName name := by
  by_cases h : ofName name = unknown
  · rw [canonicalName_of_unknown h, canonicalName_of_unknown (by rw [ofName_lowerAscii, h]),
      Text.lowerAscii_lowerAscii]
  · rw [canonicalName_of_known h, canonicalName_of_known (by rwa [ofName_name]), ofName_name]

end Arch

namespace PlatformSpec

variable {p a b : PlatformSpec}

/-- A platform whose names are in their one spelling. -/
structure Canonical (p : PlatformSpec) : Prop where
  os : ∀ c ∈ p.os.toList, c.isUpper = false
  architecture : Arch.canonicalName p.architecture = p.architecture

/-- The platforms that come from names or from texts of their own. -/
inductive Built : PlatformSpec → Prop
  | of (os architecture : String) : Built (of os architecture)
  | linux (arch : Arch) : Built (linux arch)
  | host (os : Os) (arch : Arch) : Built (of os.name arch.name)
  | withVariant {p : PlatformSpec} (built : Built p) (variant : String) : Built (p.withVariant variant)
  | parsed {s : String} {p : PlatformSpec} (read : parse s = .ok p) : Built p

/-- Platforms with the same target, however their names are spelled. -/
def SameTarget (a b : PlatformSpec) : Prop :=
  Text.lowerAscii a.os = Text.lowerAscii b.os ∧
    Arch.canonicalName a.architecture = Arch.canonicalName b.architecture
  deriving Decidable

def variantText (p : PlatformSpec) : String :=
  match p.variant with
  | some variant => "/" ++ variant
  | none => ""

theorem text_eq (p : PlatformSpec) : p.text = p.os ++ "/" ++ p.architecture ++ p.variantText := by
  unfold text variantText
  cases p.variant with
  | none => rw [String.append_empty]
  | some variant => simp only [String.append_assoc]

theorem canonical_of (os architecture : String) : (of os architecture).Canonical := by
  constructor
  · exact Text.isUpper_of_mem_lowerAscii
  · exact Arch.canonicalName_canonicalName architecture

theorem Canonical.withVariant (h : p.Canonical) (variant : String) :
    (p.withVariant variant).Canonical := by
  constructor
  · exact h.os
  · exact h.architecture

theorem Canonical.of_eq (h : p.Canonical) : of p.os p.architecture = { p with variant := none } := by
  unfold of
  rw [Text.lowerAscii_of_no_capital h.os, h.architecture]

theorem exists_segments {s : String} (h : parse s = .ok p) :
    (∃ os architecture, p = of os architecture) ∨
      ∃ os architecture variant, p = (of os architecture).withVariant variant := by
  unfold parse at h
  cases hs : ofSegments (Text.split '/' (Text.trim s)) with
  | error flaw =>
    rw [hs] at h
    cases h
  | ok q =>
    rw [hs] at h
    obtain rfl : q = p := Except.ok.inj h
    unfold ofSegments at hs
    split at hs
    · cases hs
    · split at hs
      · exact .inl ⟨_, _, (Except.ok.inj hs).symm⟩
      · exact .inr ⟨_, _, _, (Except.ok.inj hs).symm⟩
      · cases hs

theorem Built.canonical (h : Built p) : p.Canonical := by
  induction h with
  | of os architecture => exact canonical_of os architecture
  | linux arch => exact canonical_of _ _
  | host os arch => exact canonical_of _ _
  | withVariant built variant ih => exact ih.withVariant variant
  | parsed read =>
    rcases exists_segments read with ⟨os, architecture, rfl⟩ | ⟨os, architecture, variant, rfl⟩
    · exact canonical_of os architecture
    · exact (canonical_of os architecture).withVariant variant

theorem Canonical.built (h : p.Canonical) : Built p := by
  have plain : Built { p with variant := none } := h.of_eq ▸ Built.of p.os p.architecture
  obtain ⟨os, architecture, _ | variant⟩ := p
  · exact plain
  · exact plain.withVariant variant

theorem Canonical.names_eq (ha : a.Canonical) (hb : b.Canonical) (same : SameTarget a b) :
    a.os = b.os ∧ a.architecture = b.architecture := by
  obtain ⟨os, architecture⟩ := same
  constructor
  · rwa [Text.lowerAscii_of_no_capital ha.os, Text.lowerAscii_of_no_capital hb.os] at os
  · rwa [ha.architecture, hb.architecture] at architecture

/-! ### Platforms read as records -/

theorem decoder_toJson (p : PlatformSpec) : decoder (.ofJson p.toJson) = .ok p := by
  obtain ⟨os, architecture, _ | variant⟩ := p <;> rfl

/-- The names in a record are those that its platform gets. -/
def Spelled (p : PlatformSpec) (r : Json.Reading) : Prop :=
  r.HasField 0 ["os"] (.text p.os) ∧ r.HasField 1 ["architecture"] (.text p.architecture)

theorem spelled_of_decoder {r : Json.Reading} (h : decoder r = .ok p) : p.Spelled r := by
  obtain ⟨slots, built, found⟩ := Json.Fields.exists_slots h
  obtain ⟨⟨os, architecture, variant⟩, parts, rfl⟩ := Json.Fields.build_map built
  obtain ⟨first, rest⟩ := Json.Fields.build_and parts
  obtain ⟨second, -⟩ := Json.Fields.build_and rest
  obtain ⟨r₀, h₀, d₀⟩ := Json.Fields.build_required first
  obtain ⟨r₁, h₁, d₁⟩ := Json.Fields.build_required second
  obtain rfl := Json.Decode.eq_of_text d₀
  obtain rfl := Json.Decode.eq_of_text d₁
  constructor
  · apply found 0 _ _ rfl
    have place : (slots.take 1)[0]? = some (some (.text os)) := by
      rw [show slots.take 1 = _ from h₀]
      rfl
    rwa [List.getElem?_take_of_lt Nat.zero_lt_one] at place
  · apply found 1 _ _ rfl
    have place : ((slots.drop 1).take 1)[0]? = some (some (.text architecture)) := by
      rw [show (slots.drop 1).take 1 = _ from h₁]
      rfl
    rwa [List.getElem?_take_of_lt Nat.zero_lt_one, List.getElem?_drop] at place

/-- Platforms from names and texts are exactly the canonical ones. Two of them with the same target are
the same but for their variants, and written so. Every platform is read from a record of its own, and one
that is read has the names that stand in the record: it is canonical only if they are. -/
theorem spelling_of_built_and_read (p a b : PlatformSpec) (text : Bytes) :
    (Built p ↔ p.Canonical) ∧
      (Built a → Built b → SameTarget a b → a.sameAs b = true ∧
        ∃ target, a.text = target ++ a.variantText ∧ b.text = target ++ b.variantText) ∧
      Json.read decoder p.toJson.render = .ok p ∧
      (Json.read decoder text = .ok p → p.Spelled (Json.scan text).1) := by
  refine ⟨⟨Built.canonical, Canonical.built⟩, ?_, ?_, ?_⟩
  · intro ha hb same
    obtain ⟨os, architecture⟩ := ha.canonical.names_eq hb.canonical same
    constructor
    · simp [sameAs, os, architecture]
    · refine ⟨a.os ++ "/" ++ a.architecture, text_eq a, ?_⟩
      rw [text_eq, os, architecture]
  · rw [Json.read_render, decoder_toJson]
  · intro h
    exact spelled_of_decoder (Json.eq_of_read h)

/-- A record with other spellings gives a platform that is neither canonical nor the same as the one it
names. -/
theorem capitals_kept_by_reading :
    ∃ p, Json.read decoder (Utf8.encode "\x7b\"os\":\"Linux\",\"architecture\":\"x86_64\"\x7d") = .ok p ∧
      ¬p.Canonical ∧ SameTarget p (linux .amd64) ∧ p.sameAs (linux .amd64) = false ∧
      p.text = "Linux/x86_64" ∧ (linux .amd64).text = "linux/amd64" := by
  refine ⟨⟨"Linux", "x86_64", none⟩, ?_, ?_, by decide, by decide, by decide, by decide⟩
  · decide +kernel
  · intro canonical
    have kept : 'L'.isUpper = false := canonical.os 'L' (by decide)
    cases kept

end PlatformSpec
end ContainerBuild
