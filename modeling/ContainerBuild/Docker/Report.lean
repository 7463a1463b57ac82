import ContainerBuild.Container.Report
import ContainerBuild.Json.Record

/-!
# Reports of Docker

Which fields of the replies are read. What the daemon may leave out counts as empty; what it promises
must be there.
-/

namespace ContainerBuild
namespace Docker

open Json (Fields)

/-- A list that must be there but may be null. -/
def nullableTexts : Json.Decoder (List String) := fun r =>
  (Json.Decode.nullable (Json.Decode.list Json.Decode.text) r).map fun l => l.getD []

def idFields : Fields String := Fields.required "Id" Json.Decode.text

def createdFields : Fields String :=
  (idFields.and (Fields.required "Warnings" nullableTexts)).map Prod.fst

def stateNames : List String :=
  ["", "created", "running", "paused", "restarting", "removing", "exited", "dead"]

def stateName : Json.Decoder String :=
  Json.Decode.word fun s => if stateNames.contains s then some s else none

structure InspectState where
  status : Option String
  running : Option Bool
  exitCode : Option Int
  deriving DecidableEq, Repr

def InspectState.fields : Fields InspectState :=
  ((Fields.optional "Status" stateName).and
    ((Fields.optional "Running" Json.Decode.bool).and
      (Fields.optional "ExitCode" Json.Decode.int64))).map
    fun (status, running, exitCode) => ⟨status, running, exitCode⟩

structure InspectConfig where
  image : Option String
  env : Option (List String)
  workingDir : Option String
  deriving DecidableEq, Repr

def InspectConfig.fields : Fields InspectConfig :=
  ((Fields.optional "Image" Json.Decode.text).and
    ((Fields.optional "Env" (Json.Decode.list Json.Decode.text)).and
      (Fields.optional "WorkingDir" Json.Decode.text))).map
    fun (image, env, workingDir) => ⟨image, env, workingDir⟩

structure InspectContainer where
  id : Option String
  name : Option String
  image : Option String
  state : Option InspectState
  config : Option InspectConfig
  deriving DecidableEq, Repr

namespace InspectContainer

def fields : Fields InspectContainer :=
  ((Fields.optional "Id" Json.Decode.text).and
    ((Fields.optional "Name" Json.Decode.text).and
      ((Fields.optional "Image" Json.Decode.text).and
        ((Fields.optional "State" InspectState.fields.decode).and
          (Fields.optional "Config" InspectConfig.fields.decode))))).map
    fun (id, name, image, state, config) => ⟨id, name, image, state, config⟩

/-- The image that the container runs; nothing counts as an empty name. -/
def imageId (c : InspectContainer) : String := c.image.getD ""

/-- The container that was asked for by `id`, with the platform of its image. -/
def details (c : InspectContainer) (id : String) (platform : Option PlatformSpec) :
    ContainerDetails where
  container :=
    { id := c.id.getD id
      image := (c.config.bind InspectConfig.image).getD ""
      imageId := c.imageId
      names := (c.name.map fun n => Text.trimStartOf '/' n).toList }
  status := (c.state.bind InspectState.status).getD ""
  running := (c.state.bind InspectState.running).getD false
  exitCode := c.state.bind InspectState.exitCode
  env := (c.config.bind InspectConfig.env).getD []
  workingDir := (c.config.bind InspectConfig.workingDir).filter fun dir => !dir.isEmpty
  platform := platform

end InspectContainer

def exitFields : Fields Int :=
  ((Fields.required "StatusCode" Json.Decode.int64).and
    (Fields.optional "Error" (Fields.optional "Message" Json.Decode.text).decode)).map Prod.fst

/-- The labels of an image, which must be there but may be null. -/
def labels : Json.Decoder Unit := fun r =>
  (Json.Decode.nullable (Json.Decode.members Json.Decode.text) r).map fun _ => ()

/-- An image in a list; the moment it was made is in seconds. -/
def summaryFields : Fields ImageSummary :=
  (idFields.and
    ((Fields.required "ParentId" Json.Decode.text).and
      ((Fields.required "RepoTags" nullableTexts).and
        ((Fields.required "RepoDigests" nullableTexts).and
          ((Fields.required "Created" Json.Decode.int64).and
            ((Fields.required "Size" Json.Decode.int64).and
              ((Fields.required "SharedSize" Json.Decode.int64).and
                ((Fields.required "Labels" labels).and
                  (Fields.required "Containers" Json.Decode.int64))))))))).map
    fun (id, _, repoTags, _, created, size, _) => ⟨id, repoTags, size, Instant.ofSeconds? created⟩

def imageFields : Fields ImageDetails :=
  ((Fields.optional "Id" Json.Decode.text).and
    ((Fields.optional "RepoTags" (Json.Decode.list Json.Decode.text)).and
      ((Fields.optional "Os" Json.Decode.text).and
        ((Fields.optional "Architecture" Json.Decode.text).and
          ((Fields.optional "Variant" Json.Decode.text).and
            (Fields.optional "Size" Json.Decode.int64)))))).map
    fun (id, repoTags, os, architecture, variant, size) =>
      ⟨id.getD "", repoTags.getD [], os.getD "", architecture.getD "",
        variant.filter fun v => !v.isEmpty, size.getD 0⟩

def removedFields : Fields (Option String × Option String) :=
  (Fields.optional "Untagged" Json.Decode.text).and (Fields.optional "Deleted" Json.Decode.text)

end Docker
end ContainerBuild
