import ContainerBuild.Proofs.MultiArch.ManifestCalls

/-!
# Temporary names

The image of each platform is built and added under the name of the request with the suffix of the
platform, so two builds have different names exactly when the suffixes differ. The suffix is made of
architecture and variant. It tells platforms apart by these two as long as no architecture has a dash;
it never tells them apart by their systems.
-/

namespace ContainerBuild

namespace ImageReference

theorem append_cancel {a b c d : String} : a ++ b ++ d = a ++ c ++ d ↔ b = c := by
  constructor
  · intro h
    have hl : a.toList ++ b.toList ++ d.toList = a.toList ++ c.toList ++ d.toList := by
      simpa using congrArg String.toList h
    exact String.toList_inj.1 (List.append_cancel_left (List.append_cancel_right hl))
  · rintro rfl
    rfl

/-- Two temporary names of one image are equal exactly when the suffixes of the platforms are. -/
theorem text_forPlatform_inj (r : ImageReference) (p q : PlatformSpec) :
    (r.forPlatform p).text = (r.forPlatform q).text ↔ platformSuffix p = platformSuffix q := by
  have key (x : PlatformSpec) : (r.forPlatform x).text =
      r.name ++ "-" ++ platformSuffix x ++ (":" ++ r.tagOrLatest ++ "") := by
    cases hr : r.registry <;> simp [text, name, forPlatform, hr, String.append_assoc]
  rw [key p, key q, append_cancel]

/-- Words before a first dash are told apart from what comes after it. -/
theorem append_dash_inj {a b v w : List Char} (ha : '-' ∉ a) (hb : '-' ∉ b)
    (h : a ++ '-' :: v = b ++ '-' :: w) : a = b ∧ v = w := by
  induction a generalizing b with
  | nil =>
    cases b with
    | nil => simpa using h
    | cons y b =>
      obtain ⟨rfl, -⟩ := List.cons.inj h
      simp at hb
  | cons x a ih =>
    cases b with
    | nil =>
      obtain ⟨rfl, -⟩ := List.cons.inj h
      simp at ha
    | cons y b =>
      obtain ⟨rfl, htail⟩ := List.cons.inj h
      obtain ⟨rfl, rfl⟩ := ih (fun m => ha (List.mem_cons_of_mem _ m))
        (fun m => hb (List.mem_cons_of_mem _ m)) htail
      exact ⟨rfl, rfl⟩

theorem toList_platformSuffix (p : PlatformSpec) :
    (platformSuffix p).toList = match p.variant with
      | some variant => p.architecture.toList ++ '-' :: variant.toList
      | none => p.architecture.toList := by
  unfold platformSuffix
  cases p.variant <;> simp

/-- Without a dash in an architecture, equal suffixes come from equal architectures and variants. -/
theorem platformSuffix_inj {p q : PlatformSpec} (hp : '-' ∉ p.architecture.toList)
    (hq : '-' ∉ q.architecture.toList) :
    platformSuffix p = platformSuffix q ↔ p.architecture = q.architecture ∧ p.variant = q.variant := by
  constructor
  · intro h
    have hl := congrArg String.toList h
    rw [toList_platformSuffix, toList_platformSuffix] at hl
    cases hv : p.variant with
    | none =>
      cases hw : q.variant with
      | none =>
        rw [hv, hw] at hl
        exact ⟨String.toList_inj.1 hl, rfl⟩
      | some w =>
        rw [hv, hw] at hl
        simp only at hl
        rw [hl] at hp
        simp at hp
    | some v =>
      cases hw : q.variant with
      | none =>
        rw [hv, hw] at hl
        simp only at hl
        rw [← hl] at hq
        simp at hq
      | some w =>
        rw [hv, hw] at hl
        obtain ⟨ha, hvw⟩ := append_dash_inj hp hq hl
        exact ⟨String.toList_inj.1 ha, congrArg some (String.toList_inj.1 hvw)⟩
  · rintro ⟨ha, hv⟩
    simp only [platformSuffix, ha, hv]

end ImageReference

namespace ManifestCall

/-- The name that a call builds an image under. -/
def builtName? : ManifestCall → Option String
  | .build b => some b.tag
  | _ => none

def addedImage? : ManifestCall → Option String
  | .add _ image => some image
  | _ => none

end ManifestCall

namespace MultiArchRequest

open ManifestCall ImageReference

variable (r : MultiArchRequest) (reference : ImageReference) (context : Option BuildContext)

/-- What a question finds in the planned calls, if it passes over the list itself and its push. -/
theorem filterMap_plannedCalls {α : Type} {f : ManifestCall → Option α}
    (hc : f (.create r.imageName) = none)
    (hp : f (.push r.imageName r.imageName r.registryAuth) = none) :
    (r.plannedCalls reference context).filterMap f =
      (r.platforms.filterMap fun p => f (r.plannedBuild reference context p)) ++
        r.platforms.filterMap fun p => f (.add r.imageName (reference.forPlatform p).text) := by
  simp only [plannedCalls, List.filterMap_append, List.filterMap_cons, List.filterMap_map,
    List.filterMap_nil, hc, hp, List.append_nil]
  rfl

theorem builtNames_plannedCalls :
    (r.plannedCalls reference context).filterMap builtName? = r.temporaryTags reference := by
  rw [r.filterMap_plannedCalls reference context rfl rfl]
  simp [plannedBuild, temporaryTags, builtName?]

theorem addedImages_plannedCalls :
    (r.plannedCalls reference context).filterMap addedImage? = r.temporaryTags reference := by
  rw [r.filterMap_plannedCalls reference context rfl rfl]
  simp [plannedBuild, temporaryTags, addedImage?]

theorem nodup_temporaryTags_iff :
    (r.temporaryTags reference).Nodup ↔
      r.platforms.Pairwise fun p q => platformSuffix p ≠ platformSuffix q := by
  rw [temporaryTags, List.Nodup, List.pairwise_map]
  simp only [ne_eq, text_forPlatform_inj]

/-- The builds of a request have names of their own, and its list has no image twice, exactly when the
suffixes of its platforms are different. If no architecture has a dash, that is when no two platforms
have the same architecture and variant. -/
theorem distinct_names_iff :
    (((r.plannedCalls reference context).filterMap builtName?).Nodup ↔
        r.platforms.Pairwise fun p q => platformSuffix p ≠ platformSuffix q) ∧
      (((r.plannedCalls reference context).filterMap addedImage?).Nodup ↔
        r.platforms.Pairwise fun p q => platformSuffix p ≠ platformSuffix q) ∧
      ((∀ p ∈ r.platforms, '-' ∉ p.architecture.toList) →
        ((r.platforms.Pairwise fun p q => platformSuffix p ≠ platformSuffix q) ↔
          r.platforms.Pairwise fun p q =>
            ¬(p.architecture = q.architecture ∧ p.variant = q.variant))) := by
  refine ⟨?_, ?_, fun dashless => ?_⟩
  · rw [builtNames_plannedCalls]
    exact r.nodup_temporaryTags_iff reference
  · rw [addedImages_plannedCalls]
    exact r.nodup_temporaryTags_iff reference
  · constructor
    · intro h
      refine h.imp_of_mem fun hp hq hne heq => hne ?_
      exact (platformSuffix_inj (dashless _ hp) (dashless _ hq)).2 heq
    · intro h
      refine h.imp_of_mem fun hp hq hne heq => hne ?_
      exact (platformSuffix_inj (dashless _ hp) (dashless _ hq)).1 heq

/-- Platforms that differ only in their systems, or in where a dash stands, share a name. -/
theorem names_shared_by_different_platforms :
    let named (platforms : List PlatformSpec) : MultiArchRequest := ⟨[], "app:1", platforms, none, ""⟩
    let systems := named [.of "linux" "amd64", .of "windows" "amd64"]
    let dashes := named [(PlatformSpec.of "linux" "arm").withVariant "v9", .of "linux" "arm-v9"]
    let reference : ImageReference := ⟨none, "app", some "1", none⟩
    ImageReference.parse "app:1" = .ok reference ∧ systems.platforms.Nodup ∧
      systems.temporaryTags reference = ["app-amd64:1", "app-amd64:1"] ∧ dashes.platforms.Nodup ∧
      dashes.temporaryTags reference = ["app-arm-v9:1", "app-arm-v9:1"] :=
  ⟨rfl, by decide, by decide, by decide, by decide⟩

end MultiArchRequest
end ContainerBuild
