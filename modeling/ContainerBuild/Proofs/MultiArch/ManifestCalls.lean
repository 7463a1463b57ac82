import ContainerBuild.MultiArch.Manifest
import ContainerBuild.Proofs.MultiArch.Context
import ContainerBuild.Proofs.Plan

/-!
# The calls of a manifest list

A request for several platforms is a plan of calls: the builds, the list, its images, the push. They are
made in this order up to the first that fails, whatever the daemon answers, and the result is read off
the answers. A request for at most one platform is a single build, and a request whose name or context
cannot be read makes no call.
-/

namespace ContainerBuild

open Dialogue (Exchange Course Follows)

namespace ManifestCall

/-- The error that a call was answered with. -/
def fault? : Exchange ManifestCall Answer → Option BuildError
  | ⟨.build _, .error e⟩ => some e
  | ⟨.create _, .error e⟩ => some e
  | ⟨.add _ _, .error e⟩ => some e
  | ⟨.push _ _ _, .error e⟩ => some e
  | _ => none

def built? : Exchange ManifestCall Answer → Option BuildOutput
  | ⟨.build _, .ok o⟩ => some o
  | _ => none

def pushLog? : Exchange ManifestCall Answer → Option String
  | ⟨.push _ _ _, .ok log⟩ => some log
  | _ => none

/-- How the failure of a call is reported: that of a build names its platform, any other is passed on. -/
def report : ManifestCall → BuildError → BuildError
  | .build ⟨_, _, _, some p⟩, e => .multiArchBuild p.text e.message
  | _, e => e

/-- The error that an exchange ends the work with. -/
def trouble (x : Exchange ManifestCall Answer) : Option BuildError :=
  (fault? x).map (report x.question)

theorem trouble_eq_none_iff {x : Exchange ManifestCall Answer} : trouble x = none ↔ fault? x = none := by
  simp [trouble]

/-- What the exchanges of a part of the work give: the outputs of builds and the logs of pushes. -/
def Gives (outputs : List BuildOutput) (logs : List String)
    (xs : List (Exchange ManifestCall Answer)) : Prop :=
  xs.filterMap built? = outputs ∧ xs.filterMap pushLog? = logs

theorem Gives.append {os os' : List BuildOutput} {ls ls' : List String}
    {xs ys : List (Exchange ManifestCall Answer)} (h : Gives os ls xs) (g : Gives os' ls' ys) :
    Gives (os ++ os') (ls ++ ls') (xs ++ ys) := by
  obtain ⟨rfl, rfl⟩ := h
  obtain ⟨rfl, rfl⟩ := g
  exact ⟨List.filterMap_append, List.filterMap_append⟩

theorem follows_callBuildFor (dockerfile : Bytes) (context : Option BuildContext) (tag : String)
    (p : PlatformSpec) :
    Follows trouble [.build ⟨dockerfile, context, tag, some p⟩] (fun xs o => Gives [o] [] xs)
      (callBuildFor ⟨dockerfile, context, tag, some p⟩ p) := by
  apply Follows.askReported (A := Answer) (q := .build _) (fun r : Outcome BuildOutput => r)
    (platformFailure p.text)
  · rintro a e rfl
    rfl
  · rintro a o rfl
    exact ⟨rfl, rfl, rfl⟩

theorem follows_callCreate (name : String) :
    Follows trouble [.create name] (fun xs _ => Gives [] [] xs) (callCreate name) := by
  refine Follows.ask (A := Answer) (q := .create _) (f := fun r : Outcome String => r) ?_ ?_
  · rintro a e rfl
    rfl
  · rintro a id rfl
    exact ⟨rfl, rfl, rfl⟩

theorem follows_callAdd (list image : String) :
    Follows trouble [.add list image] (fun xs _ => Gives [] [] xs) (callAdd list image) := by
  refine Follows.ask (A := Answer) (q := .add _ _) (f := fun r : Outcome Unit => r) ?_ ?_
  · rintro a e rfl
    rfl
  · rintro a u rfl
    exact ⟨rfl, rfl, rfl⟩

theorem follows_callPush (list destination registryAuth : String) :
    Follows trouble [.push list destination registryAuth] (fun xs log => Gives [] [log] xs)
      (callPush list destination registryAuth) := by
  refine Follows.ask (A := Answer) (q := .push _ _ _) (f := fun r : Outcome String => r) ?_ ?_
  · rintro a e rfl
    rfl
  · rintro a log rfl
    exact ⟨rfl, rfl, rfl⟩

end ManifestCall

namespace MultiArchRequest

open ManifestCall

variable (r : MultiArchRequest) (reference : ImageReference) (context : Option BuildContext)

/-- The build of one of several platforms, under its temporary name. -/
def plannedBuild (p : PlatformSpec) : ManifestCall :=
  .build ⟨r.dockerfile, context, (reference.forPlatform p).text, some p⟩

/-- All the calls for several platforms, in order. -/
def plannedCalls : List ManifestCall :=
  r.platforms.map (r.plannedBuild reference context) ++ .create r.imageName ::
    ((r.platforms.map fun p => .add r.imageName (reference.forPlatform p).text) ++
      [.push r.imageName r.imageName r.registryAuth])

theorem follows_buildEach (ps : List PlatformSpec) :
    Follows trouble (ps.map (r.plannedBuild reference context)) (fun xs os => Gives os [] xs)
      (r.buildEach reference context ps) := by
  induction ps with
  | nil => exact Follows.pure ⟨rfl, rfl⟩
  | cons p ps ih =>
    have others (first : BuildOutput) : Follows trouble (ps.map (r.plannedBuild reference context))
        (fun xs os => ∃ more, os = first :: more ∧ Gives more [] xs) _ :=
      ih.map fun xs more h => ⟨more, rfl, h⟩
    refine (follows_callBuildFor r.dockerfile context _ p).bind others ?_
    rintro xs ys first os hx ⟨more, rfl, hy⟩
    exact hx.append hy

theorem follows_addEach (list : String) (images : List String) :
    Follows trouble (images.map (.add list)) (fun xs _ => Gives [] [] xs) (addEach list images) := by
  induction images with
  | nil => exact Follows.pure ⟨rfl, rfl⟩
  | cons image images ih =>
    refine (follows_callAdd list image).bind (fun _ => ih) ?_
    rintro xs ys _ _ hx hy
    exact hx.append hy

theorem follows_assembleList :
    Follows trouble (r.plannedCalls reference context)
      (fun xs out => ∃ outputs pushLog, Gives outputs [pushLog] xs ∧
        out = MultiArchOutput.ofBuilds outputs pushLog)
      (r.assembleList reference context) := by
  let Pushed (outputs : List BuildOutput) (xs : List (Exchange ManifestCall Answer))
      (out : MultiArchOutput) : Prop :=
    ∃ pushLog, Gives [] [pushLog] xs ∧ out = MultiArchOutput.ofBuilds outputs pushLog
  have push (outputs : List BuildOutput) : Follows trouble _ (Pushed outputs) _ :=
    (follows_callPush r.imageName r.imageName r.registryAuth).map fun _ pushLog h =>
      ⟨pushLog, h, rfl⟩
  have join (outputs : List BuildOutput) (xs ys : List (Exchange ManifestCall Answer))
      (out : MultiArchOutput) (hx : Gives [] [] xs) : Pushed outputs ys out →
        Pushed outputs (xs ++ ys) out := by
    rintro ⟨pushLog, hy, rfl⟩
    exact ⟨pushLog, hx.append hy, rfl⟩
  have add (outputs : List BuildOutput) : Follows trouble _ (Pushed outputs) _ :=
    (follows_addEach r.imageName (r.temporaryTags reference)).bind (fun _ => push outputs)
      fun xs ys _ out hx => join outputs xs ys out hx
  have create (outputs : List BuildOutput) : Follows trouble _ (Pushed outputs) _ :=
    (follows_callCreate r.imageName).bind (fun _ => add outputs)
      fun xs ys _ out hx => join outputs xs ys out hx
  have all : Follows trouble _ (fun xs out => ∃ outputs pushLog, Gives outputs [pushLog] xs ∧
      out = MultiArchOutput.ofBuilds outputs pushLog) _ :=
    (r.follows_buildEach reference context r.platforms).bind create
      fun xs ys outputs out hx ⟨pushLog, hy, made⟩ =>
        ⟨outputs, pushLog, by simpa using hx.append hy, made⟩
  simpa [plannedCalls, temporaryTags, assembleList, Function.comp_def] using all

/-- What the calls for several platforms come to, read off a dialogue that follows their plan. -/
theorem outcome_of_follows {plan : List ManifestCall} {c : Calls MultiArchOutput}
    (h : Follows trouble plan (fun xs out => ∃ outputs pushLog, Gives outputs [pushLog] xs ∧
      out = MultiArchOutput.ofBuilds outputs pushLog) c)
    {σ : Type} (answer : (q : ManifestCall) → σ → Answer q × σ) (s : σ) :
    let calls := c.run.transcript answer s
    let result := (c.run.run answer s).1
    calls.map Exchange.question <+: plan ∧
      ((∀ x ∈ calls, fault? x = none) → calls.map Exchange.question = plan ∧
        ∃ outputs pushLog, Gives outputs [pushLog] calls ∧
          result = .ok (MultiArchOutput.ofBuilds outputs pushLog)) ∧
      ∀ x ∈ calls, ∀ e, fault? x = some e → calls.getLast? = some x ∧
        (∀ y ∈ calls.dropLast, fault? y = none) ∧ result = .error (report x.question e) := by
  intro calls result
  obtain ⟨hq, good, bad⟩ := h.outcome answer s
  refine ⟨hq, fun none_failed => ?_, fun x hx e he => ?_⟩
  · obtain ⟨all, out, hr, outputs, pushLog, gives, rfl⟩ :=
      good fun x hx => trouble_eq_none_iff.2 (none_failed x hx)
    exact ⟨all, outputs, pushLog, gives, hr⟩
  · obtain ⟨last, before, hr⟩ := bad x hx (report x.question e) (by rw [trouble, he, Option.map_some])
    exact ⟨last, fun y hy => trouble_eq_none_iff.1 (before y hy), hr⟩

/-- A request makes no call and fails if its name cannot be read, or if its bundle cannot be read or
unpacked. Otherwise its builds carry what was unpacked. One for at most one platform is a single build, whose
outcome it has. For several platforms the planned calls are made in order up to the first that fails: if none
does, the result has the images of the builds in the order of the request, and their logs with that of the
push; a build that fails is reported with its platform, and the error of any other call is passed on. -/
theorem assemble_calls {σ : Type} (answer : (q : ManifestCall) → σ → Answer q × σ) (s : σ) :
    let calls := r.assemble.run.transcript answer s
    let result := (r.assemble.run.run answer s).1
    ∃ prepared, BuildContext.Prepares r.context prepared ∧
    match ImageReference.parse r.imageName, prepared with
    | .error e, _ => calls = [] ∧ result = .error e
    | .ok _, .error e => calls = [] ∧ result = .error e
    | .ok reference, .ok context =>
      (r.platforms.length ≤ 1 → ∃ built : Outcome BuildOutput,
        calls = [⟨.build ⟨r.dockerfile, context, r.imageName, r.platforms.head?⟩, built⟩] ∧
          result = built.map fun o => ⟨o.log, [o.imageId]⟩) ∧
      (2 ≤ r.platforms.length →
        calls.map Exchange.question <+: r.plannedCalls reference context ∧
        ((∀ x ∈ calls, fault? x = none) →
          calls.map Exchange.question = r.plannedCalls reference context ∧
          ∃ outputs pushLog, calls.filterMap built? = outputs ∧ calls.filterMap pushLog? = [pushLog] ∧
            result = .ok ⟨String.join (outputs.map BuildOutput.log) ++ pushLog,
              outputs.map BuildOutput.imageId⟩) ∧
        ∀ x ∈ calls, ∀ e, fault? x = some e → calls.getLast? = some x ∧
          (∀ y ∈ calls.dropLast, fault? y = none) ∧ result = .error (report x.question e)) := by
  intro calls result
  refine ⟨_, BuildContext.prepares_prepare r.context, ?_⟩
  cases hp : ImageReference.parse r.imageName with
  | error e =>
    have h : r.assemble = throw e := by simp only [assemble, hp]
    simp only [calls, result, h]
    exact ⟨rfl, rfl⟩
  | ok reference =>
    cases hx : BuildContext.prepare r.context with
    | error e =>
      have h : r.assemble = throw e := by simp only [assemble, hp, hx]
      simp only [calls, result, h]
      exact ⟨rfl, rfl⟩
    | ok context =>
      have h : r.assemble = r.assembleWith reference context := by simp only [assemble, hp, hx]
      refine ⟨fun few => ?_, fun several => ?_⟩
      · have single : r.assemble = callBuild (r.singleBuild context) >>= fun o =>
            pure (MultiArchOutput.ofSingle o) := by
          rw [h, assembleWith, if_pos few]
        simp only [calls, result, single]
        exact ⟨_, Dialogue.question_map (A := Answer) (q := .build (r.singleBuild context))
          (fun built : Outcome BuildOutput => built) MultiArchOutput.ofSingle answer s⟩
      · have h2 : r.assemble = r.assembleList reference context := by
          rw [h, assembleWith, if_neg (by omega)]
        simp only [calls, result, h2]
        obtain ⟨hq, hok, hbad⟩ :=
          outcome_of_follows (r.follows_assembleList reference context) answer s
        refine ⟨hq, fun fine => ?_, hbad⟩
        obtain ⟨hall, outputs, pushLog, ⟨hb, hl⟩, hr⟩ := hok fine
        exact ⟨hall, outputs, pushLog, hb, hl, hr⟩

end MultiArchRequest
end ContainerBuild
