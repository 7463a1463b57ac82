import ContainerBuild.BuildError
import ContainerBuild.FileTree
import ContainerBuild.Json.Record
import ContainerBuild.Text
import ContainerBuild.Text.Number
import ContainerBuild.Yaml.Node

/-!
# Engine configuration

Five settings, each with a default. A configuration file may give any of them, the environment
overrides the file, and each setting is overridden on its own: by a variable that is set and not
empty, for the timeout by one that is a number.
-/

namespace ContainerBuild

structure EngineConfig where
  runtime : String
  socket : Option String
  /-- Registry credentials in base64, for pulls and pushes. -/
  registryAuth : String
  logLevel : String
  requestTimeoutSecs : UInt64
  deriving DecidableEq, Repr

namespace EngineConfig

def default : EngineConfig :=
  { runtime := "docker"
    socket := none
    registryAuth := ""
    logLevel := "info"
    requestTimeoutSecs := 120 }

def variableStem : String := "BUILDRIG_"

def pathVariable : String := "BUILDRIG_CONFIG"

/-- The value of a variable that is set and not empty. -/
def override? (lookup : String → Option String) (name : String) : Option String :=
  (lookup (variableStem ++ name)).filter fun v => !v.isEmpty

/-- A timeout in seconds: decimal digits with at most one plus sign before them. -/
def parseSecs? (s : String) : Option UInt64 :=
  (Text.unsigned? 10 Text.maxUnsigned64 s.toList).map UInt64.ofNat

def applyEnv (c : EngineConfig) (lookup : String → Option String) : EngineConfig :=
  { runtime := (override? lookup "RUNTIME").getD c.runtime
    socket :=
      match override? lookup "SOCKET" with
      | some path => some path
      | none => c.socket
    registryAuth := (override? lookup "REGISTRY_AUTH").getD c.registryAuth
    logLevel := (override? lookup "LOG").getD c.logLevel
    requestTimeoutSecs :=
      ((override? lookup "REQUEST_TIMEOUT_SECS").bind parseSecs?).getD c.requestTimeoutSecs }

def requestTimeout (c : EngineConfig) : Duration :=
  Duration.ofSecs c.requestTimeoutSecs.toNat

def toJson (c : EngineConfig) : Json :=
  .object [("runtime", .text c.runtime), ("socket", .textOrNull c.socket),
    ("registry_auth", .text c.registryAuth), ("log_level", .text c.logLevel),
    ("request_timeout_secs", .nat c.requestTimeoutSecs.toNat)]

def fields : Json.Fields EngineConfig :=
  ((Json.Fields.withDefault "runtime" Json.Decode.text default.runtime).and
    ((Json.Fields.optionalTail ["socket"] Json.Decode.text).and
      ((Json.Fields.withDefault "registry_auth" Json.Decode.text default.registryAuth).and
        ((Json.Fields.withDefault "log_level" Json.Decode.text default.logLevel).and
          (Json.Fields.withDefault "request_timeout_secs"
            (fun r => (Json.Decode.nat Text.maxUnsigned64 r).map UInt64.ofNat)
            default.requestTimeoutSecs))))).map
    fun (runtime, socket, registryAuth, logLevel, secs) =>
      ⟨runtime, socket, registryAuth, logLevel, secs⟩

/-! ## Configuration files -/

def scalarText? : Yaml.Node → Option String
  | .scalar _ _ text => some text
  | _ => none

def isNull (text : String) : Bool :=
  text == "~" || text == "null" || text == "Null" || text == "NULL"

/-- A text that may be left out or null; one between quotes is never null. -/
def optionalText? : Yaml.Node → Option (Option String)
  | .scalar _ .quoted text => some (some text)
  | .scalar _ .literal text => some (some text)
  | .scalar _ .folded text => some (some text)
  | .scalar (some "tag:yaml.org,2002:null") .plain text => if isNull text then some none else none
  | .scalar (some _) .plain text => some (some text)
  | .scalar none .plain text => if text.isEmpty || isNull text then some none else some (some text)
  | _ => none

def baseDigits? (base : Nat) (cs : List Char) : Option Nat :=
  if cs.isEmpty then none
  else cs.foldl (fun n c => do
    let n ← n
    let d ← if c.toNat < 128 then Json.hexValue? (UInt8.ofNat c.toNat) else none
    if d < base then some (n * base + d) else none) (some 0)

/-- A whole number without a minus sign: decimal without leading zeros, or with a mark of its base. -/
def wholeNumber? (text : String) : Option Nat :=
  let all := text.toList
  let cs := match all with
    | '+' :: rest => rest
    | _ => all
  match cs with
  | '0' :: 'x' :: rest => baseDigits? 16 rest
  | '0' :: 'o' :: rest => baseDigits? 8 rest
  | '0' :: 'b' :: rest => baseDigits? 2 rest
  | '0' :: _ :: _ => none
  | _ => baseDigits? 10 cs

def secs? : Yaml.Node → Option UInt64
  | .scalar tag style text =>
    if style = .plain || (style = .literal && tag == some "tag:yaml.org,2002:int") then
      (wholeNumber? text).bind fun n => if n ≤ Text.maxUnsigned64 then some (UInt64.ofNat n) else none
    else none
  | _ => none

/-- The keys of a configuration file. -/
def keys : List String :=
  ["runtime", "socket", "registry_auth", "log_level", "request_timeout_secs"]

/-- The values of the known keys; all keys must be scalars, and no known one comes twice. -/
def known : List (Yaml.Node × Yaml.Node) → Option (List (String × Yaml.Node))
  | [] => some []
  | (k, v) :: entries => do
    let name ← scalarText? k
    let rest ← known entries
    if keys.contains name then
      if rest.any fun e => e.1 == name then none else some ((name, v) :: rest)
    else some rest

def valueOr {α : Type} (entries : List (String × Yaml.Node)) (name : String)
    (read : Yaml.Node → Option α) (absent : α) : Option α :=
  match entries.find? fun e => e.1 == name with
  | some e => read e.2
  | none => some absent

def ofEntries? (entries : List (String × Yaml.Node)) : Option EngineConfig := do
  let runtime ← valueOr entries "runtime" scalarText? default.runtime
  let socket ← valueOr entries "socket" optionalText? default.socket
  let registryAuth ← valueOr entries "registry_auth" scalarText? default.registryAuth
  let logLevel ← valueOr entries "log_level" scalarText? default.logLevel
  let secs ← valueOr entries "request_timeout_secs" secs? default.requestTimeoutSecs
  return ⟨runtime, socket, registryAuth, logLevel, secs⟩

/-- The configuration of a document; an empty one gives nothing. -/
def ofDocument? : Option Yaml.Node → Option EngineConfig
  | none => some default
  | some (.mapping entries) => (known entries).bind ofEntries?
  | some (.scalar _ .plain "") => some default
  | some _ => none

def ofYaml (text : String) : Outcome EngineConfig :=
  if (Text.trim text).isEmpty then .ok default
  else
    match (Yaml.read text).bind ofDocument? with
    | some c => .ok c
    | none => .error (.serialization "malformed configuration")

def ofFile (path : String) (content : FileContent) : Outcome EngineConfig :=
  match content with
  | .error fault => .error (.config path fault.text)
  | .ok bytes =>
    match Utf8.decode? bytes with
    | none => .error (.config path "stream did not contain valid UTF-8")
    | some text =>
      match ofYaml text with
      | .error (.serialization reason) => .error (.config path reason)
      | outcome => outcome

end EngineConfig
end ContainerBuild
