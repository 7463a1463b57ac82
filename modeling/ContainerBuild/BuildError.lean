import ContainerBuild.Duration
import ContainerBuild.SystemFault

/-!
# Errors

Everything that can go wrong is one constructor of `BuildError`, with the data that the reader of
the error needs. The wording is in `BuildError.message` and nowhere else.
-/

namespace ContainerBuild

inductive IoFault
  | system (fault : SystemFault)
  | other (text : String)
  deriving DecidableEq, Repr

def IoFault.text : IoFault → String
  | system fault => fault.text
  | other text => text

inductive BuildError
  | connection (backend endpoint reason : String)
  | discovery (backend reason : String)
  | unknownBackend (name available : String)
  | containerNotFound (id : String)
  | imageNotFound (image : String)
  /-- An environment entry has no equals sign or nothing before it. -/
  | invalidEnv (entry : String)
  | invalidCredentials (reason : String)
  | invalidPlatform (value reason : String)
  | invalidImageReference (reference reason : String)
  | invalidMount (target option reason : String)
  | invalidProbeEndpoint (endpoint reason : String)
  /-- An archive entry would leave the directory it is unpacked into. -/
  | pathTraversal (path : String)
  | notRegularFile (path : String)
  | archive (reason : String)
  /-- What a backend reported, word for word. -/
  | backend (backend message : String)
  /-- A reply whose status is no success. -/
  | api (backend : String) (status : Nat) (message : String)
  | notSupported (operation : String)
  | buildFailed (image reason : String)
  | multiArchBuild (platform reason : String)
  | stepFailed (step source : String)
  | config (path reason : String)
  | io (fault : IoFault)
  | serialization (reason : String)
  | timeout (operation : String) (after : Duration)
  | internal (reason : String)
  deriving DecidableEq, Repr

namespace BuildError

def kind : BuildError → String
  | connection .. => "Connection"
  | discovery .. => "Discovery"
  | unknownBackend .. => "UnknownBackend"
  | containerNotFound .. => "ContainerNotFound"
  | imageNotFound .. => "ImageNotFound"
  | invalidEnv .. => "InvalidEnv"
  | invalidCredentials .. => "InvalidCredentials"
  | invalidPlatform .. => "InvalidPlatform"
  | invalidImageReference .. => "InvalidImageReference"
  | invalidMount .. => "InvalidMount"
  | invalidProbeEndpoint .. => "InvalidProbeEndpoint"
  | pathTraversal .. => "PathTraversal"
  | notRegularFile .. => "NotRegularFile"
  | archive .. => "Archive"
  | backend .. => "Backend"
  | api .. => "Api"
  | notSupported .. => "NotSupported"
  | buildFailed .. => "BuildFailed"
  | multiArchBuild .. => "MultiArchBuild"
  | stepFailed .. => "StepFailed"
  | config .. => "Config"
  | io .. => "Io"
  | serialization .. => "Serialization"
  | timeout .. => "Timeout"
  | internal .. => "Internal"

def message : BuildError → String
  | connection runtime endpoint reason =>
    "failed to connect to " ++ runtime ++ " at " ++ endpoint ++ ": " ++ reason
  | discovery runtime reason => "failed to discover " ++ runtime ++ " socket: " ++ reason
  | unknownBackend name available =>
    "unknown container runtime '" ++ name ++ "' (available: " ++ available ++ ")"
  | containerNotFound id => "container not found: " ++ id
  | imageNotFound image => "image not found: " ++ image
  | invalidEnv entry => "invalid environment entry '" ++ entry ++ "': expected KEY=VALUE"
  | invalidCredentials reason => "invalid registry credentials: " ++ reason
  | invalidPlatform value reason => "invalid platform '" ++ value ++ "': " ++ reason
  | invalidImageReference reference reason =>
    "invalid image reference '" ++ reference ++ "': " ++ reason
  | invalidMount target option reason =>
    "invalid mount option '" ++ option ++ "' for " ++ target ++ ": " ++ reason
  | invalidProbeEndpoint endpoint reason =>
    "invalid probe endpoint '" ++ endpoint ++ "': " ++ reason
  | pathTraversal path => "path traversal detected in archive: " ++ path
  | notRegularFile path => "archive entry '" ++ path ++ "' is not a regular file"
  | archive reason => "archive error: " ++ reason
  | backend name text => name ++ ": " ++ text
  | api name status text => name ++ " API returned " ++ toString status ++ ": " ++ text
  | notSupported operation => "operation not supported: " ++ operation
  | buildFailed image reason => "failed to build image '" ++ image ++ "': " ++ reason
  | multiArchBuild platform reason =>
    "multi-arch build failed for platform " ++ platform ++ ": " ++ reason
  | stepFailed step source => "step '" ++ step ++ "' failed: " ++ source
  | config path reason => "invalid configuration at " ++ path ++ ": " ++ reason
  | io fault => "I/O error: " ++ fault.text
  | serialization reason => "serialization error: " ++ reason
  | timeout operation after => "operation timed out after " ++ after.text ++ ": " ++ operation
  | internal reason => "internal error: " ++ reason

/-- Whether the error says that a container or an image is absent. -/
def isNotFound : BuildError → Bool
  | containerNotFound _ => true
  | imageNotFound _ => true
  | api _ status _ => status == 404
  | _ => false

/-- The text of the error beneath this one, for the two kinds that have one. -/
def source? : BuildError → Option String
  | stepFailed _ source => some source
  | io fault => some fault.text
  | _ => none

end BuildError

/-- A result, or what went wrong. -/
abbrev Outcome (α : Type) := Except BuildError α

end ContainerBuild
