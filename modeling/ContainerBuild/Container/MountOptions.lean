import ContainerBuild.Container.Config
import ContainerBuild.Text.Number

/-!
# Mount options

What the options of a mount may be depends on its kind: every mount can be read-only, a bind mount
has a propagation mode, a volume can be left unfilled, and a file system in memory has a size and
permissions. Any other option is refused, so that no mount differs from one daemon to the other.
-/

namespace ContainerBuild

/-- How mounts below a bind mount reach the other side. -/
inductive Propagation
  | «private»
  | rprivate
  | shared
  | rshared
  | slave
  | rslave
  deriving DecidableEq, Repr

namespace Propagation

def name : Propagation → String
  | .private => "private"
  | rprivate => "rprivate"
  | shared => "shared"
  | rshared => "rshared"
  | slave => "slave"
  | rslave => "rslave"

def ofName? : String → Option Propagation
  | "private" => some .private
  | "rprivate" => some rprivate
  | "shared" => some shared
  | "rshared" => some rshared
  | "slave" => some slave
  | "rslave" => some rslave
  | _ => none

theorem ofName?_name (p : Propagation) : ofName? p.name = some p := by
  cases p <;> rfl

end Propagation

structure MountOptions where
  readOnly : Bool
  propagation : Option Propagation
  noCopy : Bool
  tmpfsSize : Option Nat
  /-- The permissions of a file system in memory. -/
  tmpfsMode : Option Nat
  deriving DecidableEq, Repr

namespace MountOptions

def none : MountOptions :=
  { readOnly := false
    propagation := .none
    noCopy := false
    tmpfsSize := .none
    tmpfsMode := .none }

def unitScale? (unit : List Char) : Option Nat :=
  match String.ofList (unit.map Char.toLower) with
  | "" => some 1
  | "b" => some 1
  | "k" => some 1024
  | "kb" => some 1024
  | "m" => some (1024 * 1024)
  | "mb" => some (1024 * 1024)
  | "g" => some (1024 * 1024 * 1024)
  | "gb" => some (1024 * 1024 * 1024)
  | _ => .none

/-- A size in bytes: ASCII digits and a unit, no larger than a signed number of 64 bits. -/
def parseSize (s : String) : Option Nat := do
  let digits := s.toList.takeWhile Char.isDigit
  let scale ← unitScale? (s.toList.dropWhile Char.isDigit)
  let count ← Text.digits? 10 digits
  if count * scale ≤ Text.maxSigned64 then some (count * scale) else .none

/-- Permissions in octal digits, no larger than an unsigned number of 32 bits. -/
def parseMode (s : String) : Option Nat :=
  Text.unsigned? 8 (UInt32.size - 1) s.toList

inductive Flaw
  | noSize
  | noMode
  | unsupported (kind : VolumeKind)
  deriving DecidableEq, Repr

def Flaw.reason : Flaw → String
  | noSize => "expected a size such as 64m"
  | noMode => "expected an octal mode"
  | unsupported kind => "not supported on " ++ kind.name ++ " mounts"

def applyWord (kind : VolumeKind) (word : String) (o : MountOptions) : Except Flaw MountOptions :=
  if word = "ro" ∨ word = "readonly" then .ok { o with readOnly := true }
  else if word = "rw" then .ok { o with readOnly := false }
  else
    match kind with
    | .bind =>
      match Propagation.ofName? word with
      | some mode => .ok { o with propagation := some mode }
      | .none => .error (.unsupported .bind)
    | .volume =>
      if word = "nocopy" then .ok { o with noCopy := true } else .error (.unsupported .volume)
    | .tmpfs => .error (.unsupported .tmpfs)

def applyValue (kind : VolumeKind) (key value : String) (o : MountOptions) :
    Except Flaw MountOptions :=
  match kind, key with
  | .tmpfs, "size" =>
    match parseSize value with
    | some size => .ok { o with tmpfsSize := some size }
    | .none => .error .noSize
  | .tmpfs, "mode" =>
    match parseMode value with
    | some mode => .ok { o with tmpfsMode := some mode }
    | .none => .error .noMode
  | kind, _ => .error (.unsupported kind)

def apply (kind : VolumeKind) (option : String) (o : MountOptions) : Except Flaw MountOptions :=
  match Text.splitFirst '=' option with
  | some (key, value) => applyValue kind key value o
  | .none => applyWord kind option o

def parseFrom (v : Volume) : MountOptions → List String → Outcome MountOptions
  | o, [] => .ok o
  | o, option :: options =>
    match apply v.kind option o with
    | .ok o => parseFrom v o options
    | .error flaw => .error (.invalidMount v.target option flaw.reason)

/-- The meaning of the options of a mount, or the first of them that its kind has not. -/
def parse (v : Volume) : Outcome MountOptions :=
  parseFrom v none v.options

def render (o : MountOptions) : List String :=
  (if o.readOnly then ["ro"] else []) ++
    (o.propagation.map Propagation.name).toList ++
    (if o.noCopy then ["nocopy"] else []) ++
    (o.tmpfsSize.map fun n => "size=" ++ toString n).toList ++
    (o.tmpfsMode.map fun n => "mode=" ++ Text.octal n).toList

end MountOptions
end ContainerBuild
