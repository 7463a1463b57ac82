import ContainerBuild.Proofs.ImageReference.Grammar

/-!
# References that read back

A reference is sound if its parts stand in its text where reading looks for them. Exactly the sound
references read back as they are, and every reference that is read is one of them. The temporary name of
a platform adds to the end of the repository only, so it stays sound as long as nothing in the suffix is
a blank or a separator.
-/

namespace ContainerBuild
namespace ImageReference

/-- A reference whose parts are found again in its text. -/
structure Sound (r : ImageReference) : Prop where
  solid : ∀ c ∈ r.text.toList, Text.isBlank c = false
  host : ∀ host ∈ r.registry, NamesHost host.toList ∧ '/' ∉ host.toList ∧ '@' ∉ host.toList
  repository : '@' ∉ r.repository.toList
  segments : [] ∉ r.repository.toList.splitOn '/'
  /-- No part of the repository passes for a registry. -/
  unhosted : r.registry = none → hostOf r.repository.toList = none
  /-- No part of the repository passes for a tag. -/
  untagged : r.tag = none → ':' ∉ lastSegment r.repository.toList
  tag : ∀ tag ∈ r.tag, tag ≠ "" ∧ '/' ∉ tag.toList ∧ ':' ∉ tag.toList ∧ '@' ∉ tag.toList
  digest : ∀ digest ∈ r.digest, digest ≠ ""

/-- Characters that can stand in the suffix of a platform: no blanks and no separators. -/
def Plain (cs : List Char) : Prop :=
  ∀ c ∈ cs, Text.isBlank c = false ∧ c ≠ '@' ∧ c ≠ ':' ∧ c ≠ '/'

instance (cs : List Char) : Decidable (Plain cs) :=
  List.decidableBAll _ cs

variable {t rest name tag host digest : List Char} {r : ImageReference} {p : PlatformSpec}

/-! ### Parts of texts that are put together -/

theorem beforeDigest_of_notMem (h : '@' ∉ t) : beforeDigest t = t ∧ digestOf t = none :=
  ⟨Text.takeWhile_of_notMem h, if_neg h⟩

theorem beforeDigest_append_cons (h : '@' ∉ rest) (digest : List Char) :
    beforeDigest (rest ++ '@' :: digest) = rest ∧ digestOf (rest ++ '@' :: digest) = some digest := by
  have hb := Text.bne_of_notMem h
  constructor
  · rw [beforeDigest, List.takeWhile_append_of_pos hb]
    simp
  · rw [digestOf, if_pos (by simp), List.dropWhile_append_of_pos hb]
    simp

theorem lastSegment_host (host name : List Char) :
    lastSegment (host ++ '/' :: name) = lastSegment name :=
  Text.lastPiece_append_cons '/' host name

theorem beforeTag_of_notMem (h : ':' ∉ lastSegment name) :
    beforeTag name = name ∧ tagOf name = none := by
  have ht : tagOf name = none := if_neg h
  exact ⟨beforeTag_of_none ht, ht⟩

theorem beforeTag_append_cons (hs : '/' ∉ tag) (hc : ':' ∉ tag) (name : List Char) :
    beforeTag (name ++ ':' :: tag) = name ∧ tagOf (name ++ ':' :: tag) = some tag := by
  have hlast : lastSegment (name ++ ':' :: tag) = lastSegment name ++ ':' :: tag :=
    Text.lastPiece_append_of_notMem (by simp [hs])
  have ht : tagOf (name ++ ':' :: tag) = some tag := by
    rw [tagOf, hlast, if_pos (by simp), Text.lastPiece_append hc]
  exact ⟨List.append_cancel_right (tagOf_eq_some ht), ht⟩

theorem hostOf_append_cons (hn : NamesHost host) (hs : '/' ∉ host) (name : List Char) :
    hostOf (host ++ '/' :: name) = some host ∧ afterHost (host ++ '/' :: name) = name := by
  have hfirst : firstSegment (host ++ '/' :: name) = host := by
    rw [firstSegment, List.takeWhile_append_of_pos (Text.bne_of_notMem hs)]
    simp
  have hh : hostOf (host ++ '/' :: name) = some host := by
    rw [hostOf, hfirst, if_pos ⟨by simp, hn⟩]
  refine ⟨hh, ?_⟩
  have hcut := hostOf_eq_some hh
  exact (List.cons.inj (List.append_cancel_left hcut)).2

/-- What comes after the last segment began has no say in the host. -/
theorem hostOf_append_eq_none (h : hostOf name = none) (hs : '/' ∉ rest) :
    hostOf (name ++ rest) = none := by
  rw [hostOf, if_neg]
  rintro ⟨hm, hn⟩
  have hname : '/' ∈ name := by
    rcases List.mem_append.1 hm with hm | hm
    · exact hm
    · exact absurd hm hs
  have hfirst : firstSegment (name ++ rest) = firstSegment name := by
    obtain ⟨before, after, rfl, hb⟩ := List.eq_append_cons_of_mem hname
    have hb := Text.bne_of_notMem hb
    rw [List.append_assoc, List.cons_append, firstSegment, firstSegment,
      List.takeWhile_append_of_pos hb, List.takeWhile_append_of_pos hb]
    simp
  rw [hfirst] at hn
  rw [hostOf, if_pos ⟨hname, hn⟩] at h
  cases h

/-! ### Sound references -/

def tagged (r : ImageReference) : List Char :=
  r.name.toList ++ r.tag.elim [] fun tag => ':' :: tag.toList

theorem toList_name (r : ImageReference) :
    r.name.toList = r.registry.elim [] (fun host => host.toList ++ ['/']) ++ r.repository.toList := by
  obtain ⟨_ | host, repository, tag, digest⟩ := r <;> simp [ImageReference.name]

namespace Sound

theorem at_notMem_tagged (h : Sound r) : '@' ∉ tagged r := by
  simp only [tagged, toList_name, List.mem_append, not_or]
  refine ⟨⟨?_, h.repository⟩, ?_⟩
  · cases hr : r.registry with
    | none => exact List.not_mem_nil
    | some host => simp [(h.host host hr).2.2]
  · cases ht : r.tag with
    | none => exact List.not_mem_nil
    | some tag => simp [(h.tag tag ht).2.2.2]

theorem digest_text (h : Sound r) :
    beforeDigest r.text.toList = tagged r ∧ digestOf r.text.toList = r.digest.map String.toList := by
  rw [toList_text, ← tagged]
  cases r.digest with
  | none =>
    rw [Option.elim_none, List.append_nil]
    exact beforeDigest_of_notMem h.at_notMem_tagged
  | some digest => exact beforeDigest_append_cons h.at_notMem_tagged digest.toList

theorem tag_tagged (h : Sound r) :
    beforeTag (tagged r) = r.name.toList ∧ tagOf (tagged r) = r.tag.map String.toList := by
  rw [tagged]
  cases ht : r.tag with
  | none =>
    rw [Option.elim_none, List.append_nil]
    apply beforeTag_of_notMem
    have hlast : lastSegment r.name.toList = lastSegment r.repository.toList := by
      rw [toList_name]
      cases r.registry with
      | none => rfl
      | some host => simpa using lastSegment_host host.toList r.repository.toList
    rw [hlast]
    exact h.untagged ht
  | some tag =>
    obtain ⟨-, hs, hc, -⟩ := h.tag tag ht
    exact beforeTag_append_cons hs hc _

theorem host_name (h : Sound r) :
    hostOf r.name.toList = r.registry.map String.toList ∧
      afterHost r.name.toList = r.repository.toList := by
  rw [toList_name]
  cases hr : r.registry with
  | none =>
    have hn := h.unhosted hr
    exact ⟨hn, afterHost_of_none hn⟩
  | some host =>
    obtain ⟨hn, hs, -⟩ := h.host host hr
    simpa using hostOf_append_cons hn hs r.repository.toList

theorem ofParts_text (h : Sound r) : ofParts r.text.toList = r := by
  obtain ⟨hrest, hdigest⟩ := h.digest_text
  obtain ⟨hname, htag⟩ := h.tag_tagged
  obtain ⟨hhost, hafter⟩ := h.host_name
  obtain ⟨registry, repository, tag, digest⟩ := r
  simp only [ofParts, nameOf, hrest, hdigest, hname, htag, hhost, hafter, Option.map_map,
    Function.comp_def, String.ofList_toList, Option.map_id']

theorem acceptable (h : Sound r) : Acceptable r.text.toList := by
  obtain ⟨hrest, hdigest⟩ := h.digest_text
  obtain ⟨hname, htag⟩ := h.tag_tagged
  obtain ⟨-, hafter⟩ := h.host_name
  have hrepository : r.repository.toList ≠ [] := by
    intro hnil
    have hsegments := h.segments
    rw [hnil] at hsegments
    simp at hsegments
  refine ⟨?_, h.solid, ?_, ?_, ?_, ?_⟩
  · rw [toList_text, toList_name]
    simp [hrepository]
  · rw [hdigest]
    intro hd
    obtain ⟨digest, hr, hnil⟩ := Option.map_eq_some_iff.1 hd
    exact h.digest digest hr (String.toList_eq_nil_iff.1 hnil)
  · rw [hrest, htag]
    intro ht
    obtain ⟨tag, hr, hnil⟩ := Option.map_eq_some_iff.1 ht
    exact (h.tag tag hr).1 (String.toList_eq_nil_iff.1 hnil)
  · rwa [nameOf, hrest, hname, hafter]
  · rw [nameOf, hrest, hname, hafter]
    exact h.segments

theorem parse_text (h : Sound r) : parse r.text = .ok r := by
  have htrim := Text.trimChars_of_no_blank h.solid
  rw [parse, htrim, ofChars_of_acceptable h.acceptable, h.ofParts_text]
  rfl

end Sound

theorem mem_name_of_mem_afterHost {c : Char} (h : c ∈ afterHost name) : c ∈ name := by
  cases hh : hostOf name with
  | none => rwa [afterHost_of_none hh] at h
  | some host =>
    rw [← hostOf_eq_some hh]
    simp [h]

theorem at_notMem_nameOf (t : List Char) : '@' ∉ nameOf t := by
  intro hm
  apply at_notMem_beforeDigest t
  rw [← beforeTag_append (beforeDigest t)]
  exact List.mem_append_left _ hm

theorem of_hostOf (h : hostOf name = some host) : NamesHost host ∧ '/' ∉ host := by
  rw [hostOf] at h
  split at h
  · rename_i hm
    obtain rfl := Option.some.inj h
    exact ⟨hm.2, Text.notMem_takeWhile '/' name⟩
  · cases h

theorem lastSegment_afterHost (name : List Char) : lastSegment (afterHost name) = lastSegment name := by
  cases h : hostOf name with
  | none => rw [afterHost_of_none h]
  | some host => rw [← lastSegment_host host, hostOf_eq_some h]

/-- The parts of a text that names an image stand where reading looks for them. -/
theorem Acceptable.sound (h : Acceptable t) : Sound (ofParts t) where
  solid := by
    rw [text_ofParts, String.toList_ofList]
    exact h.solid
  host := by
    intro host hh
    obtain ⟨cs, hcs, rfl⟩ := Option.map_eq_some_iff.1 hh
    rw [String.toList_ofList]
    obtain ⟨hn, hs⟩ := of_hostOf hcs
    refine ⟨hn, hs, fun ha => at_notMem_nameOf t ?_⟩
    rw [← hostOf_eq_some hcs]
    exact List.mem_append_left _ ha
  repository := by
    rw [ofParts, String.toList_ofList]
    exact fun hm => at_notMem_nameOf t (mem_name_of_mem_afterHost hm)
  segments := by
    rw [ofParts, String.toList_ofList]
    exact h.segments
  unhosted := by
    intro hn
    have hh := Option.map_eq_none_iff.1 hn
    rwa [ofParts, String.toList_ofList, afterHost_of_none hh]
  untagged := by
    intro hn
    have ht := Option.map_eq_none_iff.1 hn
    rw [ofParts, String.toList_ofList, lastSegment_afterHost, nameOf, beforeTag_of_none ht]
    intro hm
    rw [tagOf, if_pos hm] at ht
    cases ht
  tag _ ht := tag_ofParts h ht
  digest := by
    rintro _ hd rfl
    obtain ⟨cs, hcs, hnil⟩ := Option.map_eq_some_iff.1 hd
    rw [String.ofList_eq_empty_iff.1 hnil] at hcs
    exact h.digest hcs

theorem sound_of_parse {s : String} (h : parse s = .ok r) : Sound r := by
  have hparts := parse_by_parts s
  rw [h] at hparts
  obtain ⟨acceptable, rfl, -⟩ := hparts
  exact acceptable.sound

/-! ### Temporary names -/

theorem Plain.notMem {cs : List Char} (h : Plain cs) : '@' ∉ cs ∧ ':' ∉ cs ∧ '/' ∉ cs :=
  ⟨fun hm => (h _ hm).2.1 rfl, fun hm => (h _ hm).2.2.1 rfl, fun hm => (h _ hm).2.2.2 rfl⟩

theorem plain_platformSuffix (ha : Plain p.architecture.toList)
    (hv : ∀ variant ∈ p.variant, Plain variant.toList) : Plain ('-' :: (platformSuffix p).toList) := by
  intro c hc
  have hdash : Text.isBlank '-' = false ∧ '-' ≠ '@' ∧ '-' ≠ ':' ∧ '-' ≠ '/' := by decide
  rw [platformSuffix] at hc
  rcases List.mem_cons.1 hc with rfl | hc
  · exact hdash
  cases hp : p.variant with
  | none =>
    rw [hp] at hc
    exact ha c hc
  | some variant =>
    rw [hp] at hc
    simp only [String.toList_append, List.mem_append] at hc
    rcases hc with (hc | hc) | hc
    · exact ha c hc
    · obtain rfl : c = '-' := by simpa using hc
      exact hdash
    · exact hv variant hp c hc

theorem Sound.tagOrLatest (h : Sound r) :
    r.tagOrLatest ≠ "" ∧ '/' ∉ r.tagOrLatest.toList ∧ ':' ∉ r.tagOrLatest.toList ∧
      '@' ∉ r.tagOrLatest.toList := by
  rw [ImageReference.tagOrLatest]
  cases ht : r.tag with
  | none => decide
  | some tag => exact h.tag tag ht

theorem toList_repository_forPlatform (r : ImageReference) (p : PlatformSpec) :
    (r.forPlatform p).repository.toList = r.repository.toList ++ '-' :: (platformSuffix p).toList := by
  simp [forPlatform]

theorem toList_text_forPlatform (r : ImageReference) (p : PlatformSpec) :
    (r.forPlatform p).text.toList =
      r.name.toList ++ '-' :: (platformSuffix p).toList ++ ':' :: r.tagOrLatest.toList := by
  rw [toList_text, toList_name, toList_repository_forPlatform, toList_name r]
  simp [ImageReference.forPlatform]

theorem Sound.isBlank_tagOrLatest (h : Sound r) : ∀ c ∈ r.tagOrLatest.toList, Text.isBlank c = false := by
  intro c hc
  rw [ImageReference.tagOrLatest] at hc
  cases ht : r.tag with
  | none =>
    have hlatest : Plain defaultTag.toList := by decide
    rw [ht] at hc
    exact (hlatest c hc).1
  | some tag =>
    rw [ht, Option.getD_some] at hc
    apply h.solid c
    rw [toList_text, ht]
    simp [hc]

/-- What is put at the end of the repository leaves every part where it is. -/
theorem Sound.forPlatform (h : Sound r) (hp : Plain ('-' :: (platformSuffix p).toList)) :
    Sound (r.forPlatform p) where
  solid := by
    intro c hc
    simp only [toList_text_forPlatform, List.mem_append] at hc
    rcases hc with (hc | hc) | hc
    · apply h.solid c
      rw [toList_text]
      simp [hc]
    · exact (hp c hc).1
    · rcases List.mem_cons.1 hc with rfl | hc
      · rfl
      · exact h.isBlank_tagOrLatest c hc
  host := h.host
  repository := by
    rw [toList_repository_forPlatform, List.mem_append, not_or]
    exact ⟨h.repository, hp.notMem.1⟩
  segments := by
    rw [toList_repository_forPlatform]
    exact Text.nil_notMem_splitOn_append h.segments hp.notMem.2.2
  unhosted hr := by
    rw [toList_repository_forPlatform]
    exact hostOf_append_eq_none (h.unhosted hr) hp.notMem.2.2
  untagged := nofun
  tag := by
    rintro _ ⟨⟩
    exact h.tagOrLatest
  digest := nofun

/-- The temporary name of a platform without blanks and separators reads back as the reference that it
is printed from. This has the registry of the image, the architecture and the variant at the end of its
repository, its tag or else the default one, and no digest. -/
theorem temporary_name_reads_back (s : String) (r : ImageReference) (p : PlatformSpec)
    (hr : parse s = .ok r) (ha : Plain p.architecture.toList)
    (hv : ∀ variant ∈ p.variant, Plain variant.toList) :
    parse (r.forPlatform p).text = .ok (r.forPlatform p) ∧
      r.forPlatform p =
        { registry := r.registry
          repository := match p.variant with
            | some variant => r.repository ++ "-" ++ p.architecture ++ "-" ++ variant
            | none => r.repository ++ "-" ++ p.architecture
          tag := some (r.tag.getD "latest")
          digest := none } := by
  have sound := (sound_of_parse hr).forPlatform (plain_platformSuffix ha hv)
  refine ⟨sound.parse_text, ?_⟩
  rw [forPlatform, platformSuffix]
  cases p.variant with
  | none => rfl
  | some variant => simp only [String.append_assoc, tagOrLatest, defaultTag]

theorem temporary_name_at_port :
    let r : ImageReference := ⟨some "localhost:5000", "team/app", some "1.2", some "sha256:0f"⟩
    let p : PlatformSpec := ⟨"linux", "arm", some "v7"⟩
    parse "localhost:5000/team/app:1.2@sha256:0f" = .ok r ∧ Plain p.architecture.toList ∧
      (∀ variant ∈ p.variant, Plain variant.toList) ∧
      (r.forPlatform p).text = "localhost:5000/team/app-arm-v7:1.2" ∧
      parse (r.forPlatform p).text =
        .ok ⟨some "localhost:5000", "team/app-arm-v7", some "1.2", none⟩ := by
  intro r p
  have hs : parse "localhost:5000/team/app:1.2@sha256:0f" = .ok r := by rfl
  have ha : Plain p.architecture.toList := by decide
  have hv : ∀ variant ∈ p.variant, Plain variant.toList := by
    rintro _ ⟨⟩
    decide
  exact ⟨hs, ha, hv, by decide, (temporary_name_reads_back _ r p hs ha hv).1⟩

end ImageReference
end ContainerBuild
