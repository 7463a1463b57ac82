/-!
# Arguments

A command line names a task and its operands. Flags with a value may stand anywhere and are taken out
first, the first of each kind only; what follows a flag is its value whatever it looks like.
-/

namespace ContainerBuild
namespace CommandLine

inductive Task
  | platform
  | backends
  | images
  | build (dockerfile image : String) (platforms context : Option String)
  | copyOut (container path : String)
  | version
  | help
  deriving DecidableEq, Repr

/-- Settings that win over the configuration. -/
structure Overrides where
  runtime : Option String
  socket : Option String
  deriving DecidableEq, Repr

inductive UsageError
  | missingValue (flag : String)
  | missingOperands (task operands : String)
  | unknownCommand (name : String)
  deriving DecidableEq, Repr

def UsageError.message : UsageError → String
  | missingValue flag => flag ++ " requires a value"
  | missingOperands task operands => task ++ " requires " ++ operands
  | unknownCommand name => "unknown command: " ++ name

/-- The value of the first flag with one of some names, and the arguments without the two. -/
def takeFlag (names : List String) :
    List String → Except UsageError (Option String × List String)
  | [] => .ok (none, [])
  | argument :: rest =>
    if names.contains argument then
      match rest with
      | [] => .error (.missingValue (names.headD argument))
      | value :: rest => .ok (some value, rest)
    else (takeFlag names rest).map fun (value, rest) => (value, argument :: rest)

def readTask (context : Option String) : List String → Except UsageError Task
  | [] => .ok .help
  | name :: operands =>
    match name with
    | "platform" => .ok .platform
    | "backends" => .ok .backends
    | "images" => .ok .images
    | "build" =>
      match operands with
      | dockerfile :: image :: more => .ok (.build dockerfile image more.head? context)
      | _ => .error (.missingOperands "build" "<dockerfile> <image>")
    | "cp-out" =>
      match operands with
      | container :: path :: _ => .ok (.copyOut container path)
      | _ => .error (.missingOperands "cp-out" "<container> <path>")
    | "version" => .ok .version
    | "--version" => .ok .version
    | "-v" => .ok .version
    | "help" => .ok .help
    | "--help" => .ok .help
    | "-h" => .ok .help
    | unknown => .error (.unknownCommand unknown)

def readArguments (arguments : List String) : Except UsageError (Task × Overrides) := do
  let (runtime, rest) ← takeFlag ["--runtime", "-r"] arguments
  let (socket, rest) ← takeFlag ["--socket", "-s"] rest
  let (context, rest) ← takeFlag ["--context", "-c"] rest
  let task ← readTask context rest
  return (task, ⟨runtime, socket⟩)

def helpText : String :=
  "buildrig - container build engine

USAGE:
    buildrig <command> [options]

COMMANDS:
    platform                             Show host, container and build platforms
    backends                             List registered backends
    images                               List local images
    build <dockerfile> <image> [plats]   Build an image (comma-separated platforms
                                         build and push a manifest list)
    cp-out <container> <path>            Write a file from a container to stdout
    version                              Show version info
    help                                 Show this help

OPTIONS:
    --runtime, -r <name>   Backend: docker, podman
    --socket, -s <path>    Daemon socket (skips discovery)
    --context, -c <path>   Build context bundle (tar or tar.gz)

ENVIRONMENT:
    BUILDRIG_CONFIG        Configuration file
    BUILDRIG_RUNTIME       Backend name
    BUILDRIG_SOCKET        Daemon socket
    BUILDRIG_REGISTRY_AUTH base64 registry credentials
    BUILDRIG_LOG           Log filter (RUST_LOG takes precedence)

"

def versionText : String := "buildrig version 0.1.0\n"

end CommandLine
end ContainerBuild
