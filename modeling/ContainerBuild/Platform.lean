import ContainerBuild.BuildError
import ContainerBuild.Text

/-!
# Platforms

A platform names what an image runs on: an operating system, an architecture and sometimes a
variant of it, written `os/architecture` or `os/architecture/variant`.

Desktop hosts run their containers inside a Linux machine. On such a host the container platform is
always `linux/amd64`, and a build makes two Linux images, so that its results run on both sides.
-/

namespace ContainerBuild

inductive Os
  | linux
  | darwin
  | windows
  | unknown
  deriving DecidableEq, Repr

namespace Os

def name : Os → String
  | linux => "linux"
  | darwin => "darwin"
  | windows => "windows"
  | unknown => "unknown"

def ofName (name : String) : Os :=
  match Text.lowerAscii name with
  | "linux" => linux
  | "darwin" => darwin
  | "macos" => darwin
  | "windows" => windows
  | _ => unknown

/-- Whether Linux containers run inside a virtual machine on this system. -/
def isVirtualized : Os → Bool
  | darwin => true
  | windows => true
  | _ => false

end Os

inductive Arch
  | amd64
  | arm64
  | arm
  | unknown
  deriving DecidableEq, Repr

namespace Arch

def name : Arch → String
  | amd64 => "amd64"
  | arm64 => "arm64"
  | arm => "arm"
  | unknown => "unknown"

def ofName (name : String) : Arch :=
  match Text.lowerAscii name with
  | "amd64" => amd64
  | "x86_64" => amd64
  | "x86-64" => amd64
  | "x64" => amd64
  | "arm64" => arm64
  | "aarch64" => arm64
  | "arm64v8" => arm64
  | "arm" => arm
  | "armv7l" => arm
  | "armhf" => arm
  | "armv7" => arm
  | _ => unknown

/-- The other of the two architectures that a desktop host builds for. -/
def counterpart : Arch → Arch
  | amd64 => arm64
  | _ => amd64

/-- The one spelling of an architecture name: a known name becomes the name of its architecture, and
any other is folded to lower case. -/
def canonicalName (name : String) : String :=
  match ofName name with
  | unknown => Text.lowerAscii name
  | arch => arch.name

end Arch

structure PlatformSpec where
  os : String
  architecture : String
  variant : Option String
  deriving DecidableEq, Repr

namespace PlatformSpec

def of (os architecture : String) : PlatformSpec :=
  { os := Text.lowerAscii os
    architecture := Arch.canonicalName architecture
    variant := none }

def withVariant (spec : PlatformSpec) (variant : String) : PlatformSpec :=
  { spec with variant := some variant }

def linux (arch : Arch) : PlatformSpec :=
  of Os.linux.name arch.name

/-- Whether two platforms have the same system and architecture, whatever their variants. -/
def sameAs (a b : PlatformSpec) : Bool :=
  a.os == b.os && a.architecture == b.architecture

def text (spec : PlatformSpec) : String :=
  match spec.variant with
  | some variant => spec.os ++ "/" ++ spec.architecture ++ "/" ++ variant
  | none => spec.os ++ "/" ++ spec.architecture

inductive Flaw
  | emptySegment
  | wrongShape
  deriving DecidableEq, Repr

def Flaw.reason : Flaw → String
  | emptySegment => "empty segment"
  | wrongShape => "expected os/arch or os/arch/variant"

def ofSegments (segments : List String) : Except Flaw PlatformSpec :=
  if segments.any String.isEmpty then .error .emptySegment
  else
    match segments with
    | [os, architecture] => .ok (of os architecture)
    | [os, architecture, variant] => .ok ((of os architecture).withVariant variant)
    | _ => .error .wrongShape

def parse (s : String) : Outcome PlatformSpec :=
  (ofSegments (Text.split '/' (Text.trim s))).mapError fun flaw => .invalidPlatform s flaw.reason

def listText (specs : List PlatformSpec) : String :=
  Text.join "," (specs.map text)

theorem sameAs_refl (spec : PlatformSpec) : spec.sameAs spec = true := by
  simp [sameAs]

end PlatformSpec

/-- A host platform with the platform its containers have. -/
structure Platform where
  host : PlatformSpec
  container : PlatformSpec
  deriving DecidableEq, Repr

namespace Platform

/-- The platform of the containers on a host. -/
def containerFor (host : PlatformSpec) : PlatformSpec :=
  if (Os.ofName host.os).isVirtualized then PlatformSpec.linux .amd64 else host

def forHost (host : PlatformSpec) : Platform :=
  { host := host
    container := containerFor host }

def same (p : Platform) : Bool :=
  p.host.sameAs p.container

def text (p : Platform) : String :=
  "host=" ++ p.host.text ++ " container=" ++ p.container.text

/-- The second Linux platform of a desktop host: its own architecture, or the counterpart of it when
that is the architecture of the containers already. -/
def companion (p : Platform) : PlatformSpec :=
  let arch := Arch.ofName p.host.architecture
  let own := PlatformSpec.linux arch
  if own.sameAs p.container then PlatformSpec.linux arch.counterpart else own

/-- The platforms a build makes images for, in order. -/
def buildPlatforms (p : Platform) : List PlatformSpec :=
  if p.same then [p.container] else [p.container, p.companion]

end Platform
end ContainerBuild
