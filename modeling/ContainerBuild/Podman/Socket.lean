import ContainerBuild.Podman.Version
import ContainerBuild.Surroundings

/-!
# Finding the socket

The command line tool knows where the socket is. A recent one is asked for its virtual machines first,
and the first of them with a socket gives it. Where there is none, or the tool knows no machines, the
socket is the one that the tool uses itself.
-/

namespace ContainerBuild
namespace Podman

def stripScheme (address : String) : String :=
  (Text.dropPrefix? "unix://" address).getD address

def machineFields : Json.Fields (Option (Option String)) :=
  Json.Fields.optionalTail ["ConnectionInfo"]
    (Json.Fields.optionalTail ["PodmanSocket"]
      (Json.Fields.required "Path" Json.Decode.text).decode).decode

def readMachineSocket (output : Bytes) : Outcome (Option String) :=
  match Json.read (Json.Decode.list machineFields.decode) output with
  | .error fault => .error (discoveryError ("unreadable machine inspect output: " ++ fault.text))
  | .ok machines => .ok ((machines.filterMap Option.join).find? fun path => !path.isEmpty)

/-- The socket in what the tool says of its host; nothing counts as an empty one. -/
def infoFields : Json.Fields (Option String) :=
  Json.Fields.required "host"
    (Json.Fields.optionalTail ["remoteSocket"]
      (Json.Fields.withDefault "path" Json.Decode.text "").decode).decode

def readInfoSocket (output : Bytes) : Outcome String :=
  match Json.read infoFields.decode output with
  | .error fault => .error (discoveryError ("unreadable info output: " ++ fault.text))
  | .ok socket =>
    let path := socket.getD ""
    if path.isEmpty then .error (discoveryError "podman info reports no remote socket")
    else .ok (stripScheme path)

/-- How long the tool may take each time. -/
def toolTimeout : Duration := Duration.ofSecs 30

def runTool (program : String) (arguments : List String) : Session Bytes := do
  let line := Text.join " " (program :: arguments)
  let result ← Session.command ⟨program, arguments.map .word, [], []⟩ (some toolTimeout)
  match result with
  | .timedOut => throw (.timeout line toolTimeout)
  | .notStarted fault =>
    throw (discoveryError ("failed to run " ++ program ++ ": " ++ fault.text))
  | .ended output =>
    if output.status.isSuccess then return output.out
    else
      throw (discoveryError (line ++ " exited with " ++ output.status.text ++ ": " ++
        Text.trim (Utf8.decodeLossy output.err)))

/-- A socket with the major version of the tool that found it. -/
structure DiscoveredSocket where
  path : String
  major : Nat
  deriving DecidableEq, Repr

/-- The first major version whose machines have sockets. -/
def firstWithMachines : Nat := 4

/-- The socket of the first machine that has one, if the tool knows machines. -/
def machineSocket (program : String) (major : Nat) : Session (Option String) := do
  if major < firstWithMachines then return none
  match ← Session.attempt (runTool program ["machine", "inspect"]) with
  | .ok output => Session.ofOutcome (readMachineSocket output)
  | .error _ => return none

def discover (program : String) : Session DiscoveredSocket := do
  let version ← runTool program ["version", "--format", "json"]
  let major ← Session.ofOutcome (readClientMajor version)
  match ← machineSocket program major with
  | some path => return ⟨path, major⟩
  | none => do
    let info ← runTool program ["info", "--format", "json"]
    let path ← Session.ofOutcome (readInfoSocket info)
    return ⟨path, major⟩

end Podman
end ContainerBuild
