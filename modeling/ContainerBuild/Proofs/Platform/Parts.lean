import ContainerBuild.Platform
import ContainerBuild.Proofs.Text.Folding
import ContainerBuild.Proofs.Text.Splitting

/-!
# The parts of platforms

The text of a platform is its parts with slashes between them, so it gives the parts back when it is cut
at its slashes, unless one of them has a slash itself. A platform that is read from a text has none in its
parts; a platform that is made of names can have.
-/

namespace ContainerBuild
namespace PlatformSpec

variable {p : PlatformSpec}

def parts (p : PlatformSpec) : List String :=
  [p.os, p.architecture] ++ p.variant.toList

def Unslashed (p : PlatformSpec) : Prop :=
  ∀ part ∈ p.parts, '/' ∉ part.toList

theorem text_eq_join (p : PlatformSpec) : p.text = Text.join "/" p.parts := by
  obtain ⟨os, architecture, _ | variant⟩ := p
  · rw [parts, Option.toList_none, List.append_nil, Text.join_cons_cons, Text.join_singleton]
    rfl
  · change _ = Text.join "/" [os, architecture, variant]
    simp only [Text.join_cons_cons, Text.join_singleton, text, String.append_assoc]

theorem split_text_iff : Text.split '/' p.text = p.parts ↔ p.Unslashed := by
  constructor
  · intro h part hpart
    rw [← h] at hpart
    exact Text.notMem_of_mem_split hpart
  · intro h
    rw [text_eq_join]
    exact Text.split_join (by decide) h (List.cons_ne_nil _ _)

theorem notMem_canonicalName {name : String} (h : '/' ∉ name.toList) :
    '/' ∉ (Arch.canonicalName name).toList := by
  unfold Arch.canonicalName
  cases Arch.ofName name with
  | unknown => exact Text.notMem_lowerAscii (by decide) h
  | amd64 | arm64 | arm =>
    dsimp only
    decide

theorem unslashed_of {os architecture : String} (ho : '/' ∉ os.toList)
    (ha : '/' ∉ architecture.toList) : (of os architecture).Unslashed := by
  intro part hpart
  rcases List.mem_cons.1 hpart with rfl | hpart
  · exact Text.notMem_lowerAscii (by decide) ho
  · obtain rfl := List.mem_singleton.1 hpart
    exact notMem_canonicalName ha

theorem Unslashed.withVariant {variant : String} (h : p.Unslashed) (hv : '/' ∉ variant.toList) :
    (p.withVariant variant).Unslashed := by
  intro part hpart
  rw [parts, List.mem_append] at hpart
  rcases hpart with hpart | hpart
  · exact h part (List.mem_append_left _ hpart)
  · obtain rfl : part = variant := by simpa [PlatformSpec.withVariant] using hpart
    exact hv

/-- A platform that is read from a text is made of the pieces between its slashes. -/
theorem unslashed_of_parse {s : String} (h : parse s = .ok p) : p.Unslashed := by
  unfold parse at h
  have hpieces : ∀ piece ∈ Text.split '/' (Text.trim s), '/' ∉ piece.toList :=
    fun piece hp => Text.notMem_of_mem_split hp
  generalize Text.split '/' (Text.trim s) = pieces at h hpieces
  unfold ofSegments at h
  split at h
  · cases h
  split at h
  · cases h
    exact unslashed_of (hpieces _ (by simp)) (hpieces _ (by simp))
  · cases h
    exact (unslashed_of (hpieces _ (by simp)) (hpieces _ (by simp))).withVariant
      (hpieces _ (by simp))
  · cases h

end PlatformSpec
end ContainerBuild
