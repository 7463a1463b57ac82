import ContainerBuild.Container.Environment
import ContainerBuild.Container.MountOptions
import ContainerBuild.Container.Processor
import ContainerBuild.Json.Value

/-!
# The body of a container

What Docker is told of a container. All mounts stand in one list, and the options of each are a record
that depends on its kind. Every port is exposed; the published ones are bound too, and of several
bindings of one port the last counts.
-/

namespace ContainerBuild
namespace Docker

inductive MountDetail
  | bind (propagation : Option Propagation)
  | volume (noCopy : Bool)
  | tmpfs (size mode : Option Nat)
  deriving DecidableEq, Repr

structure BodyMount where
  target : String
  source : Option String
  readOnly : Bool
  detail : MountDetail
  deriving DecidableEq, Repr

namespace BodyMount

def ofVolume (v : Volume) (o : MountOptions) : BodyMount where
  target := v.target
  source := if v.source.isEmpty then none else some v.source
  readOnly := o.readOnly
  detail :=
    match v.kind with
    | .bind => .bind o.propagation
    | .volume => .volume o.noCopy
    | .tmpfs => .tmpfs o.tmpfsSize o.tmpfsMode

def ofVolumes : List Volume → Outcome (List BodyMount)
  | [] => .ok []
  | v :: vs => do
    let o ← MountOptions.parse v
    let rest ← ofVolumes vs
    return ofVolume v o :: rest

def detailMembers : MountDetail → List (String × Json)
  | .bind propagation =>
    ("Type", .text VolumeKind.bind.name) ::
      (propagation.map fun p => ("BindOptions", Json.object [("Propagation", .text p.name)])).toList
  | .volume noCopy =>
    ("Type", .text VolumeKind.volume.name) ::
      (if noCopy then [("VolumeOptions", .object [("NoCopy", .bool true)])] else [])
  | .tmpfs size mode =>
    let options := (size.map fun n => ("SizeBytes", Json.nat n)).toList ++
      (mode.map fun n => ("Mode", Json.nat n)).toList
    ("Type", .text VolumeKind.tmpfs.name) ::
      (if options.isEmpty then [] else [("TmpfsOptions", .object options)])

def toJson (m : BodyMount) : Json :=
  .object ([("Target", .text m.target)] ++ (m.source.map fun s => ("Source", Json.text s)).toList ++
    [("ReadOnly", .bool m.readOnly)] ++ detailMembers m.detail)

end BodyMount

structure ContainerBody where
  image : String
  command : List String
  entrypoint : List String
  env : List String
  workingDir : Option String
  tty : Bool
  /-- All ports with their protocols. -/
  exposed : Dictionary String Unit
  /-- The host ports of the published ones. -/
  bindings : Dictionary String UInt16
  mounts : List BodyMount
  memory : Option Int
  nanoCpus : Option Int

namespace ContainerBody

def ofConfig (c : ContainerConfig) : Outcome ContainerBody := do
  let env ← Environment.toList c
  let mounts ← BodyMount.ofVolumes c.volumes
  return {
    image := c.image
    command := c.command
    entrypoint := c.entrypoint
    env := env
    workingDir := c.workingDir
    tty := c.tty
    exposed := Dictionary.ofList (c.ports.map fun p => (p.key, ()))
    bindings := Dictionary.ofList (c.ports.filterMap fun p => p.hostPort.map fun host => (p.key, host))
    mounts := mounts
    memory := c.memory
    nanoCpus := c.cpus.map Processor.billionths }

def member {α : Type} (key : String) (l : List α) (f : List α → Json) : List (String × Json) :=
  if l.isEmpty then [] else [(key, f l)]

def bindingJson (host : UInt16) : Json :=
  .array [.object [("HostPort", .text (toString host.toNat))]]

def hostJson (b : ContainerBody) : Json :=
  .object (member "Mounts" b.mounts (fun l => .array (l.map BodyMount.toJson)) ++
    member "PortBindings" b.bindings.entries
      (fun l => .object (l.map fun (key, host) => (key, bindingJson host))) ++
    (b.memory.map fun n => ("Memory", Json.integer n)).toList ++
    (b.nanoCpus.map fun n => ("NanoCpus", Json.integer n)).toList)

def toJson (b : ContainerBody) : Json :=
  .object ([("Image", .text b.image)] ++ member "Cmd" b.command .texts ++
    member "Entrypoint" b.entrypoint .texts ++ member "Env" b.env .texts ++
    (b.workingDir.map fun dir => ("WorkingDir", Json.text dir)).toList ++ [("Tty", .bool b.tty)] ++
    member "ExposedPorts" b.exposed.entries
      (fun l => .object (l.map fun (key, _) => (key, .object []))) ++
    [("HostConfig", b.hostJson)])

end ContainerBody
end Docker
end ContainerBuild
