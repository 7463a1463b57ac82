import ContainerBuild.Archive.Unpack
import ContainerBuild.Container.Report
import ContainerBuild.FileTree

/-!
# Builds for several platforms

A request names the image and the platforms, and may bring a bundle with the context of the build. The
bundle is an archive; it is unpacked into a directory of its own before anything is built.
-/

namespace ContainerBuild

structure MultiArchRequest where
  dockerfile : Bytes
  imageName : String
  platforms : List PlatformSpec
  /-- What reading the bundle gives, if there is one. -/
  context : Option FileContent
  registryAuth : String

/-- The log of a build, and the image made for each platform in the order of the request. -/
structure MultiArchOutput where
  log : String
  imageIds : List String
  deriving DecidableEq, Repr

/-- An unpacked context: a tree and the place of the context in it. -/
structure BuildContext where
  tree : FileTree
  root : Place

structure PlatformBuild where
  dockerfile : Bytes
  context : Option BuildContext
  tag : String
  platform : Option PlatformSpec

namespace BuildContext

def stem : String := "buildrig-ctx-"

def place : Place := [Utf8.encode stem]

def unpack (archive : Bytes) : Outcome BuildContext :=
  match Archive.extract FileTree.empty place archive with
  | (.ok _, t) => .ok ⟨t, place⟩
  | (.error e, _) => .error e

def prepare : Option FileContent → Outcome (Option BuildContext)
  | none => .ok none
  | some (.error fault) => .error (.io (.system fault))
  | some (.ok archive) => (unpack archive).map some

end BuildContext

namespace MultiArchRequest

/-- The build of the whole request as one image for its first platform, if it names any. -/
def singleBuild (r : MultiArchRequest) (context : Option BuildContext) : PlatformBuild :=
  ⟨r.dockerfile, context, r.imageName, r.platforms.head?⟩

/-- The build for one of several platforms. -/
def buildFor (r : MultiArchRequest) (context : Option BuildContext) (tag : String)
    (p : PlatformSpec) : PlatformBuild :=
  ⟨r.dockerfile, context, tag, some p⟩

end MultiArchRequest

namespace MultiArchOutput

def ofSingle (o : BuildOutput) : MultiArchOutput := ⟨o.log, [o.imageId]⟩

def ofBuilds (os : List BuildOutput) (last : String) : MultiArchOutput :=
  ⟨String.join (os.map BuildOutput.log) ++ last, os.map BuildOutput.imageId⟩

end MultiArchOutput

def platformFailure (platform : String) (e : BuildError) : BuildError :=
  .multiArchBuild platform e.message

end ContainerBuild
