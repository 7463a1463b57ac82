import ContainerBuild.MultiArch.Native
import ContainerBuild.Proofs.MultiArch.Context
import ContainerBuild.Proofs.Plan

/-!
# The calls of a native build

A request for several platforms is a plan of calls: one build that makes and pushes them all, then a pull
of each. They are made in this order up to the first that fails, whatever the daemon answers, and the
result is read off the answers. A request for at most one platform is a single build, and a request whose
name or context cannot be read makes no call.
-/

namespace ContainerBuild

open Dialogue (Exchange Course Follows)

namespace NativeCall

def fault? : Exchange NativeCall Answer → Option BuildError
  | ⟨.build _, .error e⟩ => some e
  | ⟨.buildAndPush _ _ _ _, .error e⟩ => some e
  | ⟨.pull _ _ _, .error e⟩ => some e
  | _ => none

def buildLog? : Exchange NativeCall Answer → Option String
  | ⟨.buildAndPush _ _ _ _, .ok log⟩ => some log
  | _ => none

def pulled? : Exchange NativeCall Answer → Option BuildOutput
  | ⟨.pull _ _ _, .ok o⟩ => some o
  | _ => none

/-- How the failure of a call is reported: that of the build of all platforms names them all, that of a
pull names its platform, and that of a single build is passed on. -/
def report : NativeCall → BuildError → BuildError
  | .buildAndPush _ _ _ ps, e => .multiArchBuild (PlatformSpec.listText ps) e.message
  | .pull _ p _, e => .multiArchBuild p.text e.message
  | .build _, e => e

def trouble (x : Exchange NativeCall Answer) : Option BuildError :=
  (fault? x).map (report x.question)

theorem trouble_eq_none_iff {x : Exchange NativeCall Answer} : trouble x = none ↔ fault? x = none := by
  simp [trouble]

/-- What the exchanges of a part of the work give: the logs of builds and what pulls brought. -/
def Gives (logs : List String) (pulled : List BuildOutput)
    (xs : List (Exchange NativeCall Answer)) : Prop :=
  xs.filterMap buildLog? = logs ∧ xs.filterMap pulled? = pulled

theorem Gives.append {ls ls' : List String} {os os' : List BuildOutput}
    {xs ys : List (Exchange NativeCall Answer)} (h : Gives ls os xs) (g : Gives ls' os' ys) :
    Gives (ls ++ ls') (os ++ os') (xs ++ ys) := by
  obtain ⟨rfl, rfl⟩ := h
  obtain ⟨rfl, rfl⟩ := g
  constructor
  · exact List.filterMap_append
  · exact List.filterMap_append

theorem follows_callBuildAndPush (dockerfile : Bytes) (context : Option BuildContext)
    (imageName : String) (platforms : List PlatformSpec) :
    Follows trouble [.buildAndPush dockerfile context imageName platforms]
      (fun xs log => Gives [log] [] xs)
      (callBuildAndPush dockerfile context imageName platforms) := by
  apply Follows.askReported (A := Answer) (q := .buildAndPush _ _ _ _)
    (fun r : Outcome String => r) (platformFailure (PlatformSpec.listText platforms))
  · rintro a e rfl
    rfl
  · rintro a log rfl
    exact ⟨rfl, rfl, rfl⟩

theorem follows_callPull (imageName : String) (p : PlatformSpec) (registryAuth : String) :
    Follows trouble [.pull imageName p registryAuth] (fun xs o => Gives [] [o] xs)
      (callPull imageName p registryAuth) := by
  apply Follows.askReported (A := Answer) (q := .pull _ _ _)
    (fun r : Outcome BuildOutput => r) (platformFailure p.text)
  · rintro a e rfl
    rfl
  · rintro a o rfl
    exact ⟨rfl, rfl, rfl⟩

end NativeCall

namespace MultiArchRequest

open NativeCall

variable (r : MultiArchRequest) (context : Option BuildContext)

def plannedPull (p : PlatformSpec) : NativeCall :=
  .pull r.imageName p r.registryAuth

/-- All the calls for several platforms, in order. -/
def plannedNativeCalls : List NativeCall :=
  .buildAndPush r.dockerfile context r.imageName r.platforms :: r.platforms.map r.plannedPull

theorem follows_pullEach (ps : List PlatformSpec) :
    Follows trouble (ps.map r.plannedPull) (fun xs os => Gives [] os xs) (r.pullEach ps) := by
  induction ps with
  | nil => exact Follows.pure ⟨rfl, rfl⟩
  | cons p ps ih =>
    have others (first : BuildOutput) : Follows trouble (ps.map r.plannedPull)
        (fun xs os => ∃ more, os = first :: more ∧ Gives [] more xs) _ :=
      ih.map fun xs more h => ⟨more, rfl, h⟩
    apply (follows_callPull r.imageName p r.registryAuth).bind others
    rintro xs ys first os hx ⟨more, rfl, hy⟩
    exact hx.append hy

theorem assembleNativeWith_of_several (several : 2 ≤ r.platforms.length) :
    r.assembleNativeWith context =
      callBuildAndPush r.dockerfile context r.imageName r.platforms >>= fun log =>
        r.pullEach r.platforms >>= fun pulled => pure
          ⟨log ++ (String.join (pulled.map BuildOutput.log) ++ ""), pulled.map BuildOutput.imageId⟩ := by
  rw [assembleNativeWith, if_neg (by omega)]
  rfl

theorem follows_assembleNativeWith (several : 2 ≤ r.platforms.length) :
    Follows trouble (r.plannedNativeCalls context)
      (fun xs out => ∃ log pulled, Gives [log] pulled xs ∧
        out = ⟨log ++ String.join (pulled.map BuildOutput.log), pulled.map BuildOutput.imageId⟩)
      (r.assembleNativeWith context) := by
  rw [assembleNativeWith_of_several r context several]
  have pulls (log : String) : Follows trouble (r.platforms.map r.plannedPull)
      (fun xs (out : MultiArchOutput) => ∃ pulled, Gives [] pulled xs ∧
        out = ⟨log ++ (String.join (pulled.map BuildOutput.log) ++ ""),
          pulled.map BuildOutput.imageId⟩) _ :=
    (r.follows_pullEach r.platforms).map fun _ pulled h => ⟨pulled, h, rfl⟩
  apply (follows_callBuildAndPush r.dockerfile context r.imageName r.platforms).bind pulls
  rintro xs ys log out hx ⟨pulled, hy, rfl⟩
  refine ⟨log, pulled, hx.append hy, ?_⟩
  rw [String.append_empty]

/-- A request makes no call and fails if its name cannot be read, or if its bundle cannot be read or
unpacked. Otherwise its builds carry what was unpacked. One for at most one platform is a single build, whose
outcome it has. For several platforms the planned calls are made in order up to the first that fails: if none
does, the result has the images that were pulled in the order of the request, and the log of the build with
those of the pulls; a build that fails is reported with the list of all platforms, and a pull with its own.
-/
theorem assembleNative_calls {σ : Type} (answer : (q : NativeCall) → σ → Answer q × σ) (s : σ) :
    let calls := r.assembleNative.run.transcript answer s
    let result := (r.assembleNative.run.run answer s).1
    ∃ prepared, BuildContext.Prepares r.context prepared ∧
    match ImageReference.parse r.imageName, prepared with
    | .error e, _ => calls = [] ∧ result = .error e
    | .ok _, .error e => calls = [] ∧ result = .error e
    | .ok _, .ok context =>
      (r.platforms.length ≤ 1 → ∃ built : Outcome BuildOutput,
        calls = [⟨.build ⟨r.dockerfile, context, r.imageName, r.platforms.head?⟩, built⟩] ∧
          result = built.map fun o => ⟨o.log, [o.imageId]⟩) ∧
      (2 ≤ r.platforms.length →
        calls.map Exchange.question <+: r.plannedNativeCalls context ∧
        ((∀ x ∈ calls, fault? x = none) →
          calls.map Exchange.question = r.plannedNativeCalls context ∧
          ∃ log pulled, calls.filterMap buildLog? = [log] ∧ calls.filterMap pulled? = pulled ∧
            result = .ok ⟨log ++ String.join (pulled.map BuildOutput.log),
              pulled.map BuildOutput.imageId⟩) ∧
        ∀ x ∈ calls, ∀ e, fault? x = some e → calls.getLast? = some x ∧
          (∀ y ∈ calls.dropLast, fault? y = none) ∧ result = .error (report x.question e)) := by
  intro calls result
  refine ⟨_, BuildContext.prepares_prepare r.context, ?_⟩
  cases hp : ImageReference.parse r.imageName with
  | error e =>
    have h : r.assembleNative = throw e := by simp only [assembleNative, hp]
    simp only [calls, result, h]
    exact ⟨rfl, rfl⟩
  | ok reference =>
    cases hx : BuildContext.prepare r.context with
    | error e =>
      have h : r.assembleNative = throw e := by simp only [assembleNative, hp, hx]
      simp only [calls, result, h]
      exact ⟨rfl, rfl⟩
    | ok context =>
      have h : r.assembleNative = r.assembleNativeWith context := by
        simp only [assembleNative, hp, hx]
      constructor
      · intro few
        have single : r.assembleNative = callBuild (r.singleBuild context) >>= fun o =>
            pure (MultiArchOutput.ofSingle o) := by
          rw [h, assembleNativeWith, if_pos few]
        simp only [calls, result, single]
        exact ⟨_, Dialogue.question_map (A := Answer) (q := .build (r.singleBuild context))
          (fun built : Outcome BuildOutput => built) MultiArchOutput.ofSingle answer s⟩
      · intro several
        simp only [calls, result, h]
        obtain ⟨asked, good, bad⟩ := (r.follows_assembleNativeWith context several).outcome answer s
        refine ⟨asked, ?_, ?_⟩
        · intro fine
          obtain ⟨all, out, hr, log, pulled, ⟨hl, ho⟩, rfl⟩ :=
            good fun x hx => trouble_eq_none_iff.2 (fine x hx)
          exact ⟨all, log, pulled, hl, ho, hr⟩
        · intro x hx e he
          obtain ⟨last, before, hr⟩ :=
            bad x hx (report x.question e) (by rw [trouble, he, Option.map_some])
          exact ⟨last, fun y hy => trouble_eq_none_iff.1 (before y hy), hr⟩

end MultiArchRequest
end ContainerBuild
