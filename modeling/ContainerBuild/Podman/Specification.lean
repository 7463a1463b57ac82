import ContainerBuild.Container.Environment
import ContainerBuild.Container.MountOptions
import ContainerBuild.Container.Processor
import ContainerBuild.Json.Value

/-!
# The specification of a container

What Podman is told of a container. Mounts of paths and of memory stand in one list and named volumes
in another, each with its options as words. Published ports are listed, and ports that are only exposed
are given by number with their protocol.
-/

namespace ContainerBuild
namespace Podman

structure SpecMount where
  destination : String
  source : String
  kind : VolumeKind
  options : List String
  deriving DecidableEq, Repr

structure NamedVolume where
  name : String
  dest : String
  options : List String
  deriving DecidableEq, Repr

structure PortMapping where
  containerPort : UInt16
  hostPort : UInt16
  protocol : Protocol
  deriving DecidableEq, Repr

structure ContainerSpec where
  name : String
  image : String
  command : List String
  entrypoint : List String
  env : Dictionary String String
  workDir : Option String
  terminal : Bool
  mounts : List SpecMount
  volumes : List NamedVolume
  portMappings : List PortMapping
  /-- The exposed ports that are not published; of several protocols the last counts. -/
  expose : Dictionary Nat Protocol
  memoryLimit : Option Int
  cpuQuota : Option Int

/-- A volume as one of the two lists takes it. -/
inductive SpecVolume
  | mount (m : SpecMount)
  | named (v : NamedVolume)
  deriving DecidableEq, Repr

namespace SpecVolume

/-- A volume with its options read. A file system in memory without a source is given its kind as
one. -/
def ofVolume (v : Volume) (o : MountOptions) : SpecVolume :=
  match v.kind with
  | .volume => named ⟨v.source, v.target, o.render⟩
  | .bind => mount ⟨v.target, v.source, .bind, o.render⟩
  | .tmpfs =>
    mount ⟨v.target, if v.source.isEmpty then "tmpfs" else v.source, .tmpfs, o.render⟩

def mount? : SpecVolume → Option SpecMount
  | mount m => some m
  | named _ => none

def named? : SpecVolume → Option NamedVolume
  | mount _ => none
  | named v => some v

def ofVolumes : List Volume → Outcome (List SpecVolume)
  | [] => .ok []
  | v :: vs => do
    let o ← MountOptions.parse v
    let rest ← ofVolumes vs
    return ofVolume v o :: rest

end SpecVolume

namespace PortMapping

def ofBinding? (p : PortBinding) : Option PortMapping :=
  p.hostPort.map fun host => ⟨p.containerPort, host, p.protocol⟩

end PortMapping

def exposed? (p : PortBinding) : Option (Nat × Protocol) :=
  match p.hostPort with
  | some _ => none
  | none => some (p.containerPort.toNat, p.protocol)

namespace ContainerSpec

def ofConfig (c : ContainerConfig) (name : String) : Outcome ContainerSpec := do
  let env ← Environment.toDictionary c
  let volumes ← SpecVolume.ofVolumes c.volumes
  return {
    name := name
    image := c.image
    command := c.command
    entrypoint := c.entrypoint
    env := env
    workDir := c.workingDir
    terminal := c.tty
    mounts := volumes.filterMap SpecVolume.mount?
    volumes := volumes.filterMap SpecVolume.named?
    portMappings := c.ports.filterMap PortMapping.ofBinding?
    expose := Dictionary.ofList (c.ports.filterMap exposed?)
    memoryLimit := c.memory
    cpuQuota := c.cpus.map Processor.quota }

def mountJson (m : SpecMount) : Json :=
  .object [("destination", .text m.destination), ("source", .text m.source),
    ("type", .text m.kind.name), ("options", .texts m.options)]

def volumeJson (v : NamedVolume) : Json :=
  .object [("Name", .text v.name), ("Dest", .text v.dest), ("Options", .texts v.options)]

def mappingJson (p : PortMapping) : Json :=
  .object [("container_port", .nat p.containerPort.toNat), ("host_port", .nat p.hostPort.toNat),
    ("protocol", .text p.protocol.name)]

def textsMember (key : String) (l : List String) : List (String × Json) :=
  if l.isEmpty then [] else [(key, .texts l)]

def limits (s : ContainerSpec) : List (String × Json) :=
  (s.cpuQuota.map fun quota =>
    ("cpu", Json.object [("period", .nat Processor.periodMicros), ("quota", .integer quota)])).toList ++
  (s.memoryLimit.map fun limit =>
    ("memory", Json.object [("limit", .integer limit)])).toList

def toJson (s : ContainerSpec) : Json :=
  .object ([("name", .text s.name), ("image", .text s.image)] ++
    textsMember "command" s.command ++ textsMember "entrypoint" s.entrypoint ++
    [("env", .object (s.env.entries.map fun (k, v) => (k, .text v)))] ++
    (s.workDir.map fun dir => ("work_dir", Json.text dir)).toList ++
    [("terminal", .bool s.terminal), ("mounts", .array (s.mounts.map mountJson)),
      ("volumes", .array (s.volumes.map volumeJson)),
      ("portmappings", .array (s.portMappings.map mappingJson))] ++
    (if s.expose.entries.isEmpty then []
    else
      [("expose", .object (s.expose.entries.map fun (port, protocol) =>
        (toString port, .text protocol.name)))]) ++
    (if s.limits.isEmpty then [] else [("resource_limits", .object s.limits)]))

end ContainerSpec
end Podman
end ContainerBuild
