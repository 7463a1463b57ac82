import ContainerBuild.Container.Report
import ContainerBuild.Json.Record

/-!
# Reports of Podman

Which fields of the replies are read, and what they are turned into. A field that is absent counts as
empty, except for the identifier of what was just made.
-/

namespace ContainerBuild
namespace Podman

open Json (Fields)

def idFields : Fields String :=
  ((Fields.required "Id" Json.Decode.text).and
    (Fields.optionalTail ["Warnings"] (Json.Decode.list Json.Decode.text))).map Prod.fst

structure InspectState where
  status : String
  running : Bool
  exitCode : Option Int
  deriving DecidableEq, Repr

def InspectState.empty : InspectState := ⟨"", false, none⟩

def InspectState.fields : Fields InspectState :=
  ((Fields.withDefault "Status" Json.Decode.text "").and
    ((Fields.withDefault "Running" Json.Decode.bool false).and
      (Fields.optionalTail ["ExitCode"] Json.Decode.int64))).map
    fun (status, running, exitCode) => ⟨status, running, exitCode⟩

structure InspectConfig where
  env : List String
  workingDir : String
  deriving DecidableEq, Repr

def InspectConfig.empty : InspectConfig := ⟨[], ""⟩

def InspectConfig.fields : Fields InspectConfig :=
  ((Fields.withDefault "Env" (Json.Decode.list Json.Decode.text) []).and
    (Fields.withDefault "WorkingDir" Json.Decode.text "")).map
    fun (env, workingDir) => ⟨env, workingDir⟩

structure InspectContainer where
  id : String
  name : String
  image : String
  imageName : String
  state : InspectState
  config : InspectConfig
  deriving DecidableEq, Repr

namespace InspectContainer

def fields : Fields InspectContainer :=
  ((Fields.withDefault "Id" Json.Decode.text "").and
    ((Fields.withDefault "Name" Json.Decode.text "").and
      ((Fields.withDefault "Image" Json.Decode.text "").and
        ((Fields.withDefault "ImageName" Json.Decode.text "").and
          ((Fields.withDefault "State" InspectState.fields.decode InspectState.empty).and
            (Fields.withDefault "Config" InspectConfig.fields.decode InspectConfig.empty)))))).map
    fun (id, name, image, imageName, state, config) =>
      ⟨id, name, image, imageName, state, config⟩

def details (c : InspectContainer) (id : String) (platform : Option PlatformSpec) :
    ContainerDetails where
  container :=
    { id := if c.id.isEmpty then id else c.id
      image := c.imageName
      imageId := c.image
      names := if c.name.isEmpty then [] else [c.name] }
  status := c.state.status
  running := c.state.running
  exitCode := c.state.exitCode
  env := c.config.env
  workingDir := if c.config.workingDir.isEmpty then none else some c.config.workingDir
  platform := platform

end InspectContainer

def summaryFields : Fields ImageSummary :=
  ((Fields.withDefault "Id" Json.Decode.text "").and
    ((Fields.optionalTail ["RepoTags"] (Json.Decode.list Json.Decode.text)).and
      ((Fields.withDefault "Size" Json.Decode.int64 0).and
        (Fields.withDefault "Created" Json.Decode.int64 0)))).map
    fun (id, repoTags, size, created) =>
      ⟨id, repoTags.getD [], size, Instant.ofSeconds? created⟩

def imageFields : Fields ImageDetails :=
  ((Fields.withDefault "Id" Json.Decode.text "").and
    ((Fields.optionalTail ["RepoTags"] (Json.Decode.list Json.Decode.text)).and
      ((Fields.withDefault "Os" Json.Decode.text "").and
        ((Fields.withDefault "Architecture" Json.Decode.text "").and
          ((Fields.optionalTail ["Variant"] Json.Decode.text).and
            (Fields.withDefault "Size" Json.Decode.int64 0)))))).map
    fun (id, repoTags, os, architecture, variant, size) =>
      ⟨id, repoTags.getD [], os, architecture, variant.filter fun v => !v.isEmpty, size⟩

end Podman
end ContainerBuild
