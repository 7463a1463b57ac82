import ContainerBuild.Dialogue
import ContainerBuild.ImageReference
import ContainerBuild.MultiArch.Request

/-!
# Native builds for several platforms

Some builders make all platforms at once and push the result themselves. After that each platform is
pulled, for its log and its image. The first call that fails ends the work.

A request for at most one platform is one plain build; nothing is pushed or pulled.
-/

namespace ContainerBuild

/-- What is asked of a daemon whose builder makes several platforms at once. -/
inductive NativeCall
  | build (b : PlatformBuild)
  | buildAndPush (dockerfile : Bytes) (context : Option BuildContext) (imageName : String)
      (platforms : List PlatformSpec)
  | pull (imageName : String) (platform : PlatformSpec) (registryAuth : String)

/-- A pull is answered like a build, with a log and an image. -/
def NativeCall.Answer : NativeCall → Type
  | build _ => Outcome BuildOutput
  | buildAndPush .. => Outcome String
  | pull .. => Outcome BuildOutput

namespace NativeCall

abbrev Calls := ExceptT BuildError (Dialogue NativeCall Answer)

def callBuild (b : PlatformBuild) : Calls BuildOutput :=
  ExceptT.mk (Dialogue.question (A := Answer) (.build b))

/-- The build of all platforms; its failure names them all. -/
def callBuildAndPush (dockerfile : Bytes) (context : Option BuildContext) (imageName : String)
    (platforms : List PlatformSpec) : Calls String :=
  ExceptT.mk (Dialogue.question (A := Answer)
      (.buildAndPush dockerfile context imageName platforms) >>= fun (r : Outcome String) =>
    pure (r.mapError (platformFailure (PlatformSpec.listText platforms))))

def callPull (imageName : String) (p : PlatformSpec) (registryAuth : String) : Calls BuildOutput :=
  ExceptT.mk (Dialogue.question (A := Answer) (.pull imageName p registryAuth) >>=
    fun (r : Outcome BuildOutput) => pure (r.mapError (platformFailure p.text)))

end NativeCall

namespace MultiArchRequest

open NativeCall

def pullEach (r : MultiArchRequest) : List PlatformSpec → Calls (List BuildOutput)
  | [] => pure []
  | p :: ps => do
    let first ← callPull r.imageName p r.registryAuth
    let rest ← pullEach r ps
    return first :: rest

def assembleNativeWith (r : MultiArchRequest) (context : Option BuildContext) :
    Calls MultiArchOutput :=
  if r.platforms.length ≤ 1 then do
    let output ← callBuild (r.singleBuild context)
    return MultiArchOutput.ofSingle output
  else do
    let log ← callBuildAndPush r.dockerfile context r.imageName r.platforms
    let pulled ← pullEach r r.platforms
    let output := MultiArchOutput.ofBuilds pulled ""
    return { output with log := log ++ output.log }

def assembleNative (r : MultiArchRequest) : Calls MultiArchOutput :=
  match ImageReference.parse r.imageName with
  | .error e => throw e
  | .ok _ =>
    match BuildContext.prepare r.context with
    | .error e => throw e
    | .ok context => r.assembleNativeWith context

end MultiArchRequest
end ContainerBuild
