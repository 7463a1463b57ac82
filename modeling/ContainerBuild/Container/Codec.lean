import ContainerBuild.Container.Config
import ContainerBuild.Container.Report
import ContainerBuild.Json.Record

/-!
# Containers and images as JSON

How declarations and reports are written as JSON objects, and which texts are read back as them.
Optional values are written as null, but the variant of a platform is left out.
-/

namespace ContainerBuild

open Json (Fields Decoder)

namespace PlatformSpec

def toJson (p : PlatformSpec) : Json :=
  .object ([("os", .text p.os), ("architecture", .text p.architecture)] ++
    match p.variant with
    | some variant => [("variant", .text variant)]
    | none => [])

def fields : Fields PlatformSpec :=
  ((Fields.required "os" Json.Decode.text).and
    ((Fields.required "architecture" Json.Decode.text).and
      (Fields.optionalTail ["variant"] Json.Decode.text))).map
    fun (os, architecture, variant) => ⟨os, architecture, variant⟩

def decoder : Decoder PlatformSpec := fields.decode

end PlatformSpec

namespace VolumeKind

def ofName? : String → Option VolumeKind
  | "bind" => some bind
  | "volume" => some volume
  | "tmpfs" => some tmpfs
  | _ => none

theorem ofName?_name (k : VolumeKind) : ofName? k.name = some k := by
  cases k <;> rfl

end VolumeKind

namespace Volume

def toJson (v : Volume) : Json :=
  .object [("kind", .text v.kind.name), ("source", .text v.source), ("target", .text v.target),
    ("options", .texts v.options)]

def fields : Fields Volume :=
  ((Fields.required "kind" (Json.Decode.word VolumeKind.ofName?)).and
    ((Fields.required "source" Json.Decode.text).and
      ((Fields.required "target" Json.Decode.text).and
        (Fields.withDefault "options" (Json.Decode.list Json.Decode.text) [])))).map
    fun (kind, source, target, options) => ⟨kind, source, target, options⟩

def decoder : Decoder Volume := fields.decode

end Volume

namespace Protocol

def ofName? : String → Option Protocol
  | "tcp" => some tcp
  | "udp" => some udp
  | _ => none

theorem ofName?_name (p : Protocol) : ofName? p.name = some p := by
  cases p <;> rfl

end Protocol

namespace PortBinding

def toJson (p : PortBinding) : Json :=
  .object [("container_port", .nat p.containerPort.toNat),
    ("host_port", .integerOrNull (p.hostPort.map fun n => (n.toNat : Int))),
    ("protocol", .text p.protocol.name)]

def fields : Fields PortBinding :=
  ((Fields.required "container_port" Json.Decode.uint16).and
    ((Fields.optionalTail ["host_port"] Json.Decode.uint16).and
      (Fields.withDefault "protocol" (Json.Decode.word Protocol.ofName?) .tcp))).map
    fun (container, host, protocol) => ⟨container, host, protocol⟩

def decoder : Decoder PortBinding := fields.decode

end PortBinding

namespace ManagedContainer

def toJson (c : ManagedContainer) : Json :=
  .object [("id", .text c.id), ("image", .text c.image), ("image_id", .text c.imageId),
    ("names", .texts c.names)]

def fields : Fields ManagedContainer :=
  ((Fields.required "id" Json.Decode.text).and
    ((Fields.required "image" Json.Decode.text).and
      ((Fields.required "image_id" Json.Decode.text).and
        (Fields.required "names" (Json.Decode.list Json.Decode.text))))).map
    fun (id, image, imageId, names) => ⟨id, image, imageId, names⟩

def decoder : Decoder ManagedContainer := fields.decode

end ManagedContainer

namespace ContainerDetails

def toJson (d : ContainerDetails) : Json :=
  .object [("container", d.container.toJson), ("status", .text d.status),
    ("running", .bool d.running), ("exit_code", .integerOrNull d.exitCode),
    ("env", .texts d.env), ("working_dir", .textOrNull d.workingDir),
    ("platform", match d.platform with
      | some p => p.toJson
      | none => .null)]

def fields : Fields ContainerDetails :=
  ((Fields.required "container" ManagedContainer.decoder).and
    ((Fields.required "status" Json.Decode.text).and
      ((Fields.required "running" Json.Decode.bool).and
        ((Fields.optional "exit_code" Json.Decode.int64).and
          ((Fields.required "env" (Json.Decode.list Json.Decode.text)).and
            ((Fields.optional "working_dir" Json.Decode.text).and
              (Fields.optional "platform" PlatformSpec.decoder))))))).map
    fun (container, status, running, exitCode, env, workingDir, platform) =>
      ⟨container, status, running, exitCode, env, workingDir, platform⟩

def decoder : Decoder ContainerDetails := fields.decode

end ContainerDetails

namespace Instant

def decoder : Decoder Instant := fun r => do
  let s ← Json.Decode.text r
  match ofText? s with
  | some t => return t
  | none => throw .mismatch

end Instant

namespace ImageSummary

def toJson (i : ImageSummary) : Json :=
  .object [("id", .text i.id), ("repo_tags", .texts i.repoTags), ("size", .integer i.size),
    ("created", .textOrNull (i.created.map Instant.text))]

def fields : Fields ImageSummary :=
  ((Fields.required "id" Json.Decode.text).and
    ((Fields.required "repo_tags" (Json.Decode.list Json.Decode.text)).and
      ((Fields.required "size" Json.Decode.int64).and
        (Fields.optional "created" Instant.decoder)))).map
    fun (id, repoTags, size, created) => ⟨id, repoTags, size, created⟩

def decoder : Decoder ImageSummary := fields.decode

end ImageSummary

namespace ImageDetails

def toJson (i : ImageDetails) : Json :=
  .object [("id", .text i.id), ("repo_tags", .texts i.repoTags), ("os", .text i.os),
    ("architecture", .text i.architecture), ("variant", .textOrNull i.variant),
    ("size", .integer i.size)]

def fields : Fields ImageDetails :=
  ((Fields.required "id" Json.Decode.text).and
    ((Fields.required "repo_tags" (Json.Decode.list Json.Decode.text)).and
      ((Fields.required "os" Json.Decode.text).and
        ((Fields.required "architecture" Json.Decode.text).and
          ((Fields.optional "variant" Json.Decode.text).and
            (Fields.required "size" Json.Decode.int64)))))).map
    fun (id, repoTags, os, architecture, variant, size) =>
      ⟨id, repoTags, os, architecture, variant, size⟩

def decoder : Decoder ImageDetails := fields.decode

end ImageDetails
end ContainerBuild
