import ContainerBuild.Platform
import ContainerBuild.Time.Instant

/-!
# What daemons report

Containers and images as a daemon describes them, and what a build leaves behind.
-/

namespace ContainerBuild

structure ManagedContainer where
  id : String
  image : String
  imageId : String
  names : List String
  deriving DecidableEq, Repr

structure ContainerDetails where
  container : ManagedContainer
  status : String
  running : Bool
  exitCode : Option Int
  env : List String
  workingDir : Option String
  /-- The platform of the image that the container runs. -/
  platform : Option PlatformSpec
  deriving DecidableEq, Repr

structure ImageSummary where
  id : String
  repoTags : List String
  size : Int
  created : Option Instant
  deriving DecidableEq, Repr

structure ImageDetails where
  id : String
  repoTags : List String
  os : String
  architecture : String
  variant : Option String
  size : Int
  deriving DecidableEq, Repr

/-- The platform an image was made for; an empty variant is none. -/
def ImageDetails.platform (i : ImageDetails) : PlatformSpec :=
  let spec := PlatformSpec.of i.os i.architecture
  match i.variant with
  | some v => if v.isEmpty then spec else spec.withVariant v
  | none => spec

/-- What a caller waits for before the exit code of a container is read. -/
inductive WaitCondition
  | notRunning
  | nextExit
  | removed
  deriving DecidableEq, Repr

def WaitCondition.name : WaitCondition → String
  | notRunning => "not-running"
  | nextExit => "next-exit"
  | removed => "removed"

structure CommitOptions where
  reference : String
  comment : Option String
  changes : List String
  deriving DecidableEq, Repr

structure BuildOutput where
  log : String
  imageId : String
  deriving DecidableEq, Repr

end ContainerBuild
