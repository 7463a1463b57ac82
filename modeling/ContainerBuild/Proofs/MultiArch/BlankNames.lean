import ContainerBuild.Proofs.MultiArch.ManifestCalls
import ContainerBuild.Proofs.MultiArch.NativeCalls
import ContainerBuild.Proofs.Sessions.Questions

/-!
# Blanks around the name of a request

Blanks around a name do not count when it is read, so the temporary names of the platforms do not depend
on them. A request hands its own name on as it is written: to a single build, to the list and its push,
to a native build and its pulls. Two requests that differ in blanks only are so told apart by the first
call with their name, and make the same calls exactly if that call is never made.
-/

namespace ContainerBuild

open Dialogue (Exchange Follows asked)

theorem ImageReference.parse_of_trim {s s' : String} (h : Text.trim s' = Text.trim s)
    {r : ImageReference} (hr : parse s = .ok r) : parse s' = .ok r := by
  have hchars : Text.trimChars s'.toList = Text.trimChars s.toList := by
    rw [← Text.toList_trim, h, Text.toList_trim]
  rw [parse, hchars]
  cases hc : ofChars (Text.trimChars s.toList) with
  | ok r' =>
    rw [parse, hc] at hr
    exact hr
  | error flaw =>
    rw [parse, hc] at hr
    cases hr

namespace ManifestCall

def isBuild : ManifestCall → Bool
  | .build _ => true
  | _ => false

def FailedBuild (x : Exchange ManifestCall Answer) : Prop :=
  ∃ b e, x = ⟨.build b, .error e⟩

theorem failedBuild_iff {x : Exchange ManifestCall Answer} :
    FailedBuild x ↔ isBuild x.question = true ∧ trouble x ≠ none := by
  constructor
  · rintro ⟨b, e, rfl⟩
    exact ⟨rfl, nofun⟩
  · obtain ⟨q, a⟩ := x
    rintro ⟨hq, bad⟩
    cases q with
    | build b =>
      cases a with
      | ok o => exact absurd rfl bad
      | error e => exact ⟨b, e, rfl⟩
    | create name | add list image | push list destination registryAuth => cases hq

end ManifestCall

namespace MultiArchRequest

def named (r : MultiArchRequest) (name : String) : MultiArchRequest :=
  { r with imageName := name }

/-- A request whose name and context can be read. -/
def Readable (r : MultiArchRequest) : Prop :=
  (∃ reference, ImageReference.parse r.imageName = .ok reference) ∧
    ∃ context, BuildContext.prepare r.context = .ok context

variable (r : MultiArchRequest) (reference : ImageReference) (context : Option BuildContext)
  {name : String} {σ : Type}

theorem readable_named_iff (h : Text.trim name = Text.trim r.imageName) :
    (r.named name).Readable ↔ r.Readable := by
  constructor
  · rintro ⟨⟨reference, hr⟩, hx⟩
    exact ⟨⟨reference, ImageReference.parse_of_trim h.symm hr⟩, hx⟩
  · rintro ⟨⟨reference, hr⟩, hx⟩
    exact ⟨⟨reference, ImageReference.parse_of_trim h hr⟩, hx⟩

/-! ### Manifest lists -/

section Manifest

open ManifestCall

variable (answer : (q : ManifestCall) → σ → Answer q × σ) (s : σ)

theorem transcript_assemble_of_not_readable (h : ¬r.Readable) :
    r.assemble.run.transcript answer s = [] := by
  unfold assemble
  split
  · rfl
  · rename_i reference hr
    split
    · rfl
    · rename_i context hx
      exact absurd ⟨⟨reference, hr⟩, context, hx⟩ h

theorem asked_assembleWith_of_few (few : r.platforms.length ≤ 1) :
    asked answer (r.assembleWith reference context) s = [.build (r.singleBuild context)] := by
  have single : r.assembleWith reference context = callBuild (r.singleBuild context) >>= fun o =>
      pure (MultiArchOutput.ofSingle o) := by
    rw [assembleWith, if_pos few]
  rw [single]
  exact congrArg (List.map Exchange.question) (Dialogue.question_map (A := Answer)
    (q := .build (r.singleBuild context)) (fun built : Outcome BuildOutput => built)
    MultiArchOutput.ofSingle answer s).1

theorem buildEach_named (ps : List PlatformSpec) :
    (r.named name).buildEach reference context ps = r.buildEach reference context ps := by
  induction ps with
  | nil => rfl
  | cons p ps ih =>
    rw [buildEach, buildEach, ih]
    rfl

/-- The exchanges of the builds. -/
def buildExchanges : List (Exchange ManifestCall Answer) :=
  (r.buildEach reference context r.platforms).run.transcript answer s

theorem isBuild_of_mem {x : Exchange ManifestCall Answer}
    (h : x ∈ r.buildExchanges reference context answer s) : isBuild x.question = true := by
  obtain ⟨asked, -, -⟩ :=
    (r.follows_buildEach reference context r.platforms).outcome answer s
  obtain ⟨p, -, hp⟩ := List.mem_map.1 (asked.subset (List.mem_map_of_mem h))
  rw [← hp]
  rfl

def pushList (outputs : List BuildOutput) : Calls MultiArchOutput := do
  let _ ← callCreate r.imageName
  addEach r.imageName (r.temporaryTags reference)
  let pushLog ← callPush r.imageName r.imageName r.registryAuth
  return MultiArchOutput.ofBuilds outputs pushLog

/-- A run for several platforms is cut after its builds. If none failed, the list is made next, under
the name of the request. -/
theorem exists_after_builds : ∃ after,
    (r.assembleList reference context).run.transcript answer s =
      r.buildExchanges reference context answer s ++ after ∧
    (∀ x ∈ after, isBuild x.question = false) ∧
    ((∃ x ∈ r.buildExchanges reference context answer s, FailedBuild x) → after = []) ∧
    ((¬∃ x ∈ r.buildExchanges reference context answer s, FailedBuild x) →
      ∃ more, after.map Exchange.question = .create r.imageName :: more) := by
  have htrouble (x : Exchange ManifestCall Answer)
      (hx : x ∈ r.buildExchanges reference context answer s) : FailedBuild x ↔ trouble x ≠ none := by
    rw [failedBuild_iff]
    exact and_iff_right (r.isBuild_of_mem reference context answer s hx)
  have hcut : r.assembleList reference context =
      r.buildEach reference context r.platforms >>= r.pushList reference := rfl
  obtain ⟨-, good, bad⟩ := (r.follows_buildEach reference context r.platforms).outcome answer s
  obtain ⟨planned, -, -⟩ := (r.follows_assembleList reference context).outcome answer s
  rw [hcut, Dialogue.transcript_bind_of_fallible, ← buildExchanges] at planned ⊢
  by_cases failed : ∃ x ∈ r.buildExchanges reference context answer s, FailedBuild x
  · obtain ⟨x, hx, hf⟩ := failed
    obtain ⟨e, he⟩ := Option.ne_none_iff_exists'.1 ((htrouble x hx).1 hf)
    rw [(bad x hx e he).2.2]
    exact ⟨[], rfl, by simp, fun _ => rfl, fun h => absurd ⟨x, hx, hf⟩ h⟩
  · have fine (x : Exchange ManifestCall Answer)
        (hx : x ∈ r.buildExchanges reference context answer s) : trouble x = none := by
      cases ht : trouble x with
      | none => rfl
      | some e => exact absurd ⟨x, hx, (htrouble x hx).2 (by simp [ht])⟩ failed
    obtain ⟨all, outputs, result, -⟩ := good fine
    rw [result] at planned ⊢
    rw [List.map_append, buildExchanges, all, plannedCalls, List.prefix_append_right_inj] at planned
    refine ⟨_, rfl, ?_, fun h => absurd h failed, fun _ => ⟨_, rfl⟩⟩
    intro x hx
    have hmem := planned.subset (List.mem_map_of_mem hx)
    simp only [List.mem_cons, List.mem_append, List.mem_map, List.not_mem_nil, or_false] at hmem
    rcases hmem with hq | ⟨p, -, hq⟩ | hq
    · rw [hq]
      rfl
    · rw [← hq]
      rfl
    · rw [hq]
      rfl

theorem buildExchanges_named : (r.named name).buildExchanges reference context answer s =
    r.buildExchanges reference context answer s := by
  rw [buildExchanges, buildEach_named]
  rfl

theorem filter_isBuild_assembleList :
    ((r.assembleList reference context).run.transcript answer s).filter (fun x => isBuild x.question) =
      r.buildExchanges reference context answer s := by
  obtain ⟨after, hcut, hafter, -⟩ := r.exists_after_builds reference context answer s
  rw [hcut, List.filter_append, List.filter_eq_self.2, List.filter_eq_nil_iff.2, List.append_nil]
  · intro x hx
    simp [hafter x hx]
  · intro x hx
    exact r.isBuild_of_mem reference context answer s hx

/-- The list is made under the name as it is written, so another name that is read alike leads to the
same calls only if no list is made. -/
theorem asked_assembleList_named_iff :
    asked answer ((r.named name).assembleList reference context) s =
        asked answer (r.assembleList reference context) s ↔
      name = r.imageName ∨
        ∃ x ∈ (r.assembleList reference context).run.transcript answer s, FailedBuild x := by
  obtain ⟨after, hcut, hafter, hfailed, hfine⟩ := r.exists_after_builds reference context answer s
  obtain ⟨after', hcut', -, hfailed', hfine'⟩ :=
    (r.named name).exists_after_builds reference context answer s
  rw [buildExchanges_named] at hcut' hfailed' hfine'
  have hmem : (∃ x ∈ (r.assembleList reference context).run.transcript answer s, FailedBuild x) ↔
      ∃ x ∈ r.buildExchanges reference context answer s, FailedBuild x := by
    rw [hcut]
    constructor
    · rintro ⟨x, hx, hf⟩
      rcases List.mem_append.1 hx with hx | hx
      · exact ⟨x, hx, hf⟩
      · exact absurd (failedBuild_iff.1 hf).1 (by simp [hafter x hx])
    · rintro ⟨x, hx, hf⟩
      exact ⟨x, List.mem_append_left _ hx, hf⟩
  rw [hmem, asked, asked, hcut, hcut', List.map_append, List.map_append, List.append_cancel_left_eq]
  constructor
  · intro same
    by_cases failed : ∃ x ∈ r.buildExchanges reference context answer s, FailedBuild x
    · exact .inr failed
    · obtain ⟨more, hmore⟩ := hfine failed
      obtain ⟨more', hmore'⟩ := hfine' failed
      rw [hmore, hmore'] at same
      have first := (List.cons.inj same).1
      injection first with hname
      exact .inl hname
  · rintro (rfl | failed)
    · have hsame : after' = after := List.append_cancel_left (hcut'.symm.trans hcut)
      rw [hsame]
    · rw [hfailed failed, hfailed' failed]

end Manifest

/-! ### Native builds -/

section Native

open NativeCall

variable (answer : (q : NativeCall) → σ → Answer q × σ) (s : σ)

theorem asked_assembleNative_of_not_readable (h : ¬r.Readable) :
    asked answer r.assembleNative s = [] := by
  unfold assembleNative
  split
  · rfl
  · rename_i reference hr
    split
    · rfl
    · rename_i context hx
      exact absurd ⟨⟨reference, hr⟩, context, hx⟩ h

/-- The first call, which has the name as it is written. -/
def firstNativeCall : NativeCall :=
  if r.platforms.length ≤ 1 then .build (r.singleBuild context)
  else .buildAndPush r.dockerfile context r.imageName r.platforms

theorem exists_asked_assembleNativeWith :
    ∃ more, asked answer (r.assembleNativeWith context) s = r.firstNativeCall context :: more := by
  rw [assembleNativeWith, firstNativeCall]
  split
  · exact ⟨[], congrArg (List.map Exchange.question) (Dialogue.question_map (A := Answer)
      (q := .build (r.singleBuild context)) (fun built : Outcome BuildOutput => built)
      MultiArchOutput.ofSingle answer s).1⟩
  · exact ⟨_, rfl⟩

theorem firstNativeCall_named_iff :
    (r.named name).firstNativeCall context = r.firstNativeCall context ↔ name = r.imageName := by
  constructor
  · intro h
    unfold firstNativeCall named at h
    split at h
    · injection h with h
      injection h
    · injection h
  · rintro rfl
    rfl

end Native

/-! ### Two requests -/

/-- The work on a request with another name that is read alike, if the request can be read. -/
theorem exists_assemble_named (h : Text.trim name = Text.trim r.imageName) (readable : r.Readable) :
    ∃ reference context, r.assemble = r.assembleWith reference context ∧
      (r.named name).assemble = (r.named name).assembleWith reference context ∧
      r.assembleNative = r.assembleNativeWith context ∧
      (r.named name).assembleNative = (r.named name).assembleNativeWith context := by
  obtain ⟨⟨reference, hr⟩, context, hx⟩ := readable
  have hr' : ImageReference.parse (r.named name).imageName = .ok reference :=
    ImageReference.parse_of_trim h hr
  have hx' : BuildContext.prepare (r.named name).context = .ok context := hx
  refine ⟨reference, context, ?_, ?_, ?_, ?_⟩
  · simp only [assemble, hr, hx]
  · simp only [assemble, hr', hx']
  · simp only [assembleNative, hr, hx]
  · simp only [assembleNative, hr', hx']

/-- Two requests that differ in blanks around the name only, and one daemon. Their builds for several
platforms are the same. All their calls are the same exactly if the names are, or if nothing is asked
under the name as it is written: because name or context cannot be read, or because a build for one of
several platforms fails before the list is made. -/
theorem calls_of_blank_names (r : MultiArchRequest) (name : String)
    (blanks : Text.trim name = Text.trim r.imageName) :
    (∀ (σ : Type) (answer : (q : ManifestCall) → σ → ManifestCall.Answer q × σ) (s : σ),
      let calls := r.assemble.run.transcript answer s
      let calls' := (r.named name).assemble.run.transcript answer s
      (2 ≤ r.platforms.length →
        calls'.filter (fun x => x.question.isBuild) = calls.filter fun x => x.question.isBuild) ∧
      (asked answer (r.named name).assemble s = asked answer r.assemble s ↔
        name = r.imageName ∨ ¬r.Readable ∨
          2 ≤ r.platforms.length ∧ ∃ x ∈ calls, ManifestCall.FailedBuild x)) ∧
    ∀ (σ : Type) (answer : (q : NativeCall) → σ → NativeCall.Answer q × σ) (s : σ),
      asked answer (r.named name).assembleNative s = asked answer r.assembleNative s ↔
        name = r.imageName ∨ ¬r.Readable := by
  by_cases readable : r.Readable
  · obtain ⟨reference, context, hr, hr', hn, hn'⟩ := r.exists_assemble_named blanks readable
    constructor
    · intro σ answer s
      rw [hr, hr']
      by_cases few : r.platforms.length ≤ 1
      · have several : ¬2 ≤ r.platforms.length := by omega
        rw [r.asked_assembleWith_of_few reference context answer s few,
          (r.named name).asked_assembleWith_of_few reference context answer s few]
        simp [several, readable, singleBuild, named]
      · have several : 2 ≤ r.platforms.length := by omega
        have hlist : r.assembleWith reference context = r.assembleList reference context := if_neg few
        have hlist' : (r.named name).assembleWith reference context =
            (r.named name).assembleList reference context := if_neg few
        rw [hlist, hlist']
        refine ⟨fun _ => ?_, ?_⟩
        · rw [filter_isBuild_assembleList, filter_isBuild_assembleList, buildExchanges_named]
        · simpa [readable, several] using r.asked_assembleList_named_iff reference context answer s
    · intro σ answer s
      obtain ⟨more, hmore⟩ := r.exists_asked_assembleNativeWith context answer s
      obtain ⟨more', hmore'⟩ := (r.named name).exists_asked_assembleNativeWith context answer s
      rw [hn, hn']
      constructor
      · intro same
        rw [hmore, hmore'] at same
        exact .inl ((r.firstNativeCall_named_iff context).1 (List.cons.inj same).1)
      · rintro (rfl | unreadable)
        · rfl
        · exact absurd readable unreadable
  · have readable' : ¬(r.named name).Readable := mt (r.readable_named_iff blanks).1 readable
    constructor
    · intro σ answer s
      have none_asked := r.transcript_assemble_of_not_readable answer s readable
      have none_asked' := (r.named name).transcript_assemble_of_not_readable answer s readable'
      simp [asked, none_asked, none_asked', readable]
    · intro σ answer s
      have none_asked := r.asked_assembleNative_of_not_readable answer s readable
      have none_asked' := (r.named name).asked_assembleNative_of_not_readable answer s readable'
      simp [none_asked, none_asked', readable]

def twoPlatforms (name : String) : MultiArchRequest :=
  ⟨[], name, [⟨"linux", "amd64", none⟩, ⟨"linux", "arm64", none⟩], none, ""⟩

/-- A daemon that builds nothing. -/
def refusing : (q : ManifestCall) → Unit → ManifestCall.Answer q × Unit
  | .build _, s => (.error (.internal "no space left"), s)
  | .create _, s => (.ok "", s)
  | .add _ _, s => (.ok (), s)
  | .push _ _ _, s => (.ok "", s)

/-- A build that fails keeps the blank from being seen. -/
theorem blank_unseen_by_refusing :
    Text.trim " app:1" = Text.trim "app:1" ∧
      asked refusing (twoPlatforms " app:1").assemble () =
        asked refusing (twoPlatforms "app:1").assemble () := by
  have blanks : Text.trim " app:1" = Text.trim "app:1" := by decide
  have failed : ∃ x ∈ (twoPlatforms "app:1").assemble.run.transcript refusing (),
      ManifestCall.FailedBuild x :=
    ⟨⟨.build ⟨[], none, _, some ⟨"linux", "amd64", none⟩⟩,
      (.error (.internal "no space left") : Outcome BuildOutput)⟩, List.mem_singleton_self _, _, _, rfl⟩
  have same := ((calls_of_blank_names (twoPlatforms "app:1") " app:1" blanks).1 Unit refusing ()).2
  exact ⟨blanks, same.2 (.inr (.inr ⟨by decide, failed⟩))⟩

/-- A daemon that does whatever it is asked. -/
def willing : (q : ManifestCall) → Unit → ManifestCall.Answer q × Unit
  | .build _, s => (.ok ⟨"", ""⟩, s)
  | .create _, s => (.ok "", s)
  | .add _ _, s => (.ok (), s)
  | .push _ _ _, s => (.ok "", s)

/-- A blank before a name is handed on to the list and its push, but not to the images in it. -/
theorem blank_handed_on :
    Text.trim " app:1" = Text.trim "app:1" ∧
      asked willing (twoPlatforms "app:1").assemble () =
        [.build ⟨[], none, "app-amd64:1", some ⟨"linux", "amd64", none⟩⟩,
          .build ⟨[], none, "app-arm64:1", some ⟨"linux", "arm64", none⟩⟩,
          .create "app:1", .add "app:1" "app-amd64:1", .add "app:1" "app-arm64:1",
          .push "app:1" "app:1" ""] ∧
      asked willing (twoPlatforms " app:1").assemble () =
        [.build ⟨[], none, "app-amd64:1", some ⟨"linux", "amd64", none⟩⟩,
          .build ⟨[], none, "app-arm64:1", some ⟨"linux", "arm64", none⟩⟩,
          .create " app:1", .add " app:1" "app-amd64:1", .add " app:1" "app-arm64:1",
          .push " app:1" " app:1" ""] ∧
      asked willing (twoPlatforms " app:1").assemble () ≠
        asked willing (twoPlatforms "app:1").assemble () := by
  have plain : asked willing (twoPlatforms "app:1").assemble () =
      [.build ⟨[], none, "app-amd64:1", some ⟨"linux", "amd64", none⟩⟩,
        .build ⟨[], none, "app-arm64:1", some ⟨"linux", "arm64", none⟩⟩,
        .create "app:1", .add "app:1" "app-amd64:1", .add "app:1" "app-arm64:1",
        .push "app:1" "app:1" ""] := by
    rfl
  have blank : asked willing (twoPlatforms " app:1").assemble () =
      [.build ⟨[], none, "app-amd64:1", some ⟨"linux", "amd64", none⟩⟩,
        .build ⟨[], none, "app-arm64:1", some ⟨"linux", "arm64", none⟩⟩,
        .create " app:1", .add " app:1" "app-amd64:1", .add " app:1" "app-arm64:1",
        .push " app:1" " app:1" ""] := by
    rfl
  refine ⟨by decide, plain, blank, ?_⟩
  rw [plain, blank]
  simp

end MultiArchRequest
end ContainerBuild
