import ContainerBuild.Dialogue
import ContainerBuild.ImageReference
import ContainerBuild.MultiArch.Request

/-!
# Manifest lists

One image is built for each platform, under a temporary name of its own. Then a manifest list with the
name of the request is made, the images are added to it, and it is pushed. The first call that fails
ends the work; a failing build is reported with its platform.

A request for at most one platform is one plain build, and nothing is pushed.
-/

namespace ContainerBuild

/-- What is asked of a daemon that keeps manifest lists. -/
inductive ManifestCall
  | build (b : PlatformBuild)
  | create (name : String)
  | add (list image : String)
  | push (list destination registryAuth : String)

def ManifestCall.Answer : ManifestCall → Type
  | build _ => Outcome BuildOutput
  | create _ => Outcome String
  | add .. => Outcome Unit
  | push .. => Outcome String

namespace ManifestCall

abbrev Calls := ExceptT BuildError (Dialogue ManifestCall Answer)

def callBuild (b : PlatformBuild) : Calls BuildOutput :=
  ExceptT.mk (Dialogue.question (A := Answer) (.build b))

def callCreate (name : String) : Calls String :=
  ExceptT.mk (Dialogue.question (A := Answer) (.create name))

def callAdd (list image : String) : Calls Unit :=
  ExceptT.mk (Dialogue.question (A := Answer) (.add list image))

def callPush (list destination registryAuth : String) : Calls String :=
  ExceptT.mk (Dialogue.question (A := Answer) (.push list destination registryAuth))

def callBuildFor (b : PlatformBuild) (p : PlatformSpec) : Calls BuildOutput :=
  ExceptT.mk (Dialogue.question (A := Answer) (.build b) >>= fun (r : Outcome BuildOutput) =>
    pure (r.mapError (platformFailure p.text)))

end ManifestCall

namespace MultiArchRequest

open ManifestCall

def temporaryTags (r : MultiArchRequest) (reference : ImageReference) : List String :=
  r.platforms.map fun p => (reference.forPlatform p).text

def buildEach (r : MultiArchRequest) (reference : ImageReference) (context : Option BuildContext) :
    List PlatformSpec → Calls (List BuildOutput)
  | [] => pure []
  | p :: ps => do
    let first ← callBuildFor (r.buildFor context (reference.forPlatform p).text p) p
    let rest ← buildEach r reference context ps
    return first :: rest

def addEach (list : String) : List String → Calls Unit
  | [] => pure ()
  | tag :: tags => do
    callAdd list tag
    addEach list tags

/-- Builds every platform, and pushes the list of the images. -/
def assembleList (r : MultiArchRequest) (reference : ImageReference)
    (context : Option BuildContext) : Calls MultiArchOutput := do
  let outputs ← buildEach r reference context r.platforms
  let _ ← callCreate r.imageName
  addEach r.imageName (r.temporaryTags reference)
  let pushLog ← callPush r.imageName r.imageName r.registryAuth
  return MultiArchOutput.ofBuilds outputs pushLog

/-- The work on a request, once its name is read and its context unpacked. -/
def assembleWith (r : MultiArchRequest) (reference : ImageReference)
    (context : Option BuildContext) : Calls MultiArchOutput :=
  if r.platforms.length ≤ 1 then do
    let output ← callBuild (r.singleBuild context)
    return MultiArchOutput.ofSingle output
  else r.assembleList reference context

def assemble (r : MultiArchRequest) : Calls MultiArchOutput :=
  match ImageReference.parse r.imageName with
  | .error e => throw e
  | .ok reference =>
    match BuildContext.prepare r.context with
    | .error e => throw e
    | .ok context => r.assembleWith reference context

end MultiArchRequest
end ContainerBuild
