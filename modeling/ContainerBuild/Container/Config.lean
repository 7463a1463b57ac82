import ContainerBuild.Dictionary
import ContainerBuild.Platform

/-!
# What a container is made from

The declaration of a container: its image and command, its environment, its ports, its mounts and
its limits. Both backends turn the same declaration into their own requests.
-/

namespace ContainerBuild

inductive VolumeKind
  | bind
  /-- A volume that the daemon keeps under a name. -/
  | volume
  | tmpfs
  deriving DecidableEq, Repr

def VolumeKind.name : VolumeKind → String
  | bind => "bind"
  | volume => "volume"
  | tmpfs => "tmpfs"

/-- One mount, with its options as they were written. -/
structure Volume where
  kind : VolumeKind
  source : String
  target : String
  options : List String
  deriving DecidableEq, Repr

inductive Protocol
  | tcp
  | udp
  deriving DecidableEq, Repr

def Protocol.name : Protocol → String
  | tcp => "tcp"
  | udp => "udp"

/-- A port of the container, published on the host if it has a port there. -/
structure PortBinding where
  containerPort : UInt16
  hostPort : Option UInt16
  protocol : Protocol
  deriving DecidableEq, Repr

/-- The port and its protocol, as daemons write them. -/
def PortBinding.key (p : PortBinding) : String :=
  toString p.containerPort.toNat ++ "/" ++ p.protocol.name

structure ContainerConfig where
  name : Option String
  image : String
  command : List String
  entrypoint : List String
  /-- Environment entries, each a key, an equals sign and a value. -/
  env : List String
  workingDir : Option String
  memory : Option Int
  cpus : Option Float
  ports : List PortBinding
  volumes : List Volume
  /-- Further environment entries that win over the others. -/
  secrets : Dictionary String String
  tty : Bool
  /-- The platform whose image is pulled before the container is created. -/
  platform : Option Platform

namespace ContainerConfig

def ofImage (image : String) : ContainerConfig :=
  { name := none
    image := image
    command := []
    entrypoint := []
    env := []
    workingDir := none
    memory := none
    cpus := none
    ports := []
    volumes := []
    secrets := Dictionary.empty
    tty := false
    platform := none }

def targetPlatform (c : ContainerConfig) : Option PlatformSpec :=
  c.platform.map Platform.container

def generatedNameStem : String := "buildrig"

/-- The name of the container: the declared one, or one made from a fresh identifier. -/
def nameOr (c : ContainerConfig) (fresh : String) : String :=
  match c.name with
  | some name => if name.isEmpty then generatedNameStem ++ "-" ++ fresh else name
  | none => generatedNameStem ++ "-" ++ fresh

end ContainerConfig
end ContainerBuild
