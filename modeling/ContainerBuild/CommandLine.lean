import ContainerBuild.Backends
import ContainerBuild.CommandLine.Arguments
import ContainerBuild.CommandLine.ImageTable
import ContainerBuild.Manager.Copy

/-!
# The command line

A run reads the arguments, then the configuration, and then does the task. It ends with a code, with
what it wrote, and with a message where it failed. Nothing is written before a task has succeeded, but
for the table of images, which may end in the middle.
-/

namespace ContainerBuild
namespace CommandLine

structure Exit where
  code : Nat
  out : Bytes
  err : String
  deriving DecidableEq, Repr

namespace Exit

def success (out : Bytes) : Exit := ⟨0, out, ""⟩

def failure (message : String) : Exit := ⟨1, [], "error: " ++ message ++ "\n"⟩

/-- The code of a run that gives up in the middle of its work. -/
def abortCode : Nat := 101

end Exit

inductive Trouble
  | failed (e : BuildError)
  | noBackend (runtime : String) (e : BuildError)
  | unreadable (path : String) (fault : SystemFault)
  | absent (path container : String)
  deriving DecidableEq, Repr

/-- The text of an error and of the error beneath it. -/
def chainText (e : BuildError) : String :=
  match e.source? with
  | some source => e.message ++ ": " ++ source
  | none => e.message

def Trouble.message : Trouble → String
  | failed e => chainText e
  | noBackend runtime e => "cannot reach " ++ runtime ++ " backend: " ++ chainText e
  | unreadable path fault => "cannot read " ++ path ++ ": " ++ fault.text
  | absent path container => path ++ " does not exist in " ++ container

abbrev Work := ExceptT Trouble (Dialogue Inquiry Inquiry.Answer)

def doing {α : Type} (s : Session α) (f : BuildError → Trouble) : Work α :=
  ExceptT.mk (s.run >>= fun r => pure (r.mapError f))

/-! ## Configuration -/

def joinPath (directory name : String) : String :=
  if Text.endsWith "/" directory then directory ++ name else directory ++ "/" ++ name

/-- The home directory: the one that is named, else that of the account. -/
def homeDirectory (lookup : String → Option String) (account : Option String) : Option String :=
  ((lookup "HOME").filter fun home => !home.isEmpty).or account

/-- The directory of configurations: one that is named in full, else one in the home directory. -/
def configDirectory (lookup : String → Option String) (account : Option String) : Option String :=
  match (lookup "XDG_CONFIG_HOME").filter fun d => Text.startsWith "/" d with
  | some d => some d
  | none => (homeDirectory lookup account).map fun home => joinPath home ".config"

def configPath (lookup : String → Option String) (account : Option String) : Option String :=
  match lookup EngineConfig.pathVariable with
  | some path => some path
  | none =>
    (configDirectory lookup account).map fun d => joinPath (joinPath d "buildrig") "config.yaml"

def readConfig : Option String → Session EngineConfig
  | none => pure EngineConfig.default
  | some path => do
    if ← Session.pathExists path then
      let content ← Session.fileContent path
      Session.ofOutcome (EngineConfig.ofFile path content)
    else return EngineConfig.default

/-- The configuration with what the environment overrides. -/
def loadConfig (lookup : String → Option String) (account : Option String) :
    Session EngineConfig := do
  let config ← readConfig (configPath lookup account)
  return config.applyEnv lookup

def Overrides.apply (o : Overrides) (c : EngineConfig) : EngineConfig :=
  { c with
    runtime := o.runtime.getD c.runtime
    socket := match o.socket with
      | some path => some path
      | none => c.socket }

/-! ## Tasks -/

def host : PlatformSpec := PlatformSpec.of "linux" "amd64"

def platformReport : String :=
  let p := Platform.forHost host
  "host:      " ++ p.host.text ++ "\ncontainer: " ++ p.container.text ++ "\nbuilds:    " ++
    Text.join ", " (p.buildPlatforms.map PlatformSpec.text) ++ "\n"

/-- The names of the backends, with a star before the configured one. -/
def backendReport (names : List String) (runtime : String) : String :=
  String.join (names.map fun name => (if name = runtime then "* " else "  ") ++ name ++ "\n")

def readPlatforms (list : String) : Outcome (List PlatformSpec) :=
  (Text.split ',' list).mapM fun piece => PlatformSpec.parse (Text.trim piece)

/-- The platforms of a build: those that are listed, else the one of containers on this machine. -/
def choosePlatforms : Option String → Outcome (List PlatformSpec)
  | some list => readPlatforms list
  | none => .ok [(Platform.forHost host).container]

def connect (config : EngineConfig) (lookup : String → Option String) :
    Work (ContainerManager Session) :=
  doing ((BackendRegistry.standard lookup).connectConfigured config) (.noBackend config.runtime)

def imageTask (config : EngineConfig) (lookup : String → Option String) : Work Exit := do
  let m ← connect config lookup
  let images ← doing m.listImages .failed
  let (text, complete) := rows images
  let out := Utf8.encode (header ++ text)
  if complete then return Exit.success out
  else return ⟨Exit.abortCode, out, "an identifier cannot be cut inside a character\n"⟩

def needFile (path : String) : Work Bytes := do
  match ← doing (Session.fileContent path) .failed with
  | .ok content => return content
  | .error fault => throw (.unreadable path fault)

def bundleContent : Option String → Session (Option FileContent)
  | none => pure none
  | some path => do
    let content ← Session.fileContent path
    return some content

def buildTask (config : EngineConfig) (lookup : String → Option String)
    (dockerfile image : String) (platforms context : Option String) : Work Exit := do
  let content ← needFile dockerfile
  let platforms ← doing (Session.ofOutcome (choosePlatforms platforms)) .failed
  let m ← connect config lookup
  let bundle ← doing (bundleContent context) .failed
  let request : MultiArchRequest := ⟨content, image, platforms, bundle, config.registryAuth⟩
  let output ← doing (m.buildMultiArch request) .failed
  let text := output.log ++ String.join (output.imageIds.map fun id => id ++ "\n")
  return Exit.success (Utf8.encode text)

def copyOutTask (config : EngineConfig) (lookup : String → Option String) (container path : String) :
    Work Exit := do
  let m ← connect config lookup
  match ← doing (m.copyOut container path) .failed with
  | some content => return Exit.success content
  | none => throw (.absent path container)

def perform (lookup : String → Option String) (config : EngineConfig) : Task → Work Exit
  | .platform => pure (Exit.success (Utf8.encode platformReport))
  | .backends =>
    pure (Exit.success (Utf8.encode
      (backendReport (BackendRegistry.standard lookup).names config.runtime)))
  | .images => imageTask config lookup
  | .build dockerfile image platforms context =>
    buildTask config lookup dockerfile image platforms context
  | .copyOut container path => copyOutTask config lookup container path
  | .version => pure (Exit.success (Utf8.encode versionText))
  | .help => pure (Exit.success (Utf8.encode helpText))

def finish : Except Trouble Exit → Exit
  | .ok exit => exit
  | .error trouble => Exit.failure trouble.message

/-- A run with its task and the settings that win over the configuration. -/
def runTask (lookup : String → Option String) (account : Option String) (task : Task)
    (o : Overrides) : Dialogue Inquiry Inquiry.Answer Exit := do
  match ← (loadConfig lookup account).run with
  | .error e => return Exit.failure e.message
  | .ok config => do
    let r ← (perform lookup (o.apply config) task).run
    return finish r

/-- A run with its arguments, its environment, and the home directory of its account. -/
def run (arguments : List String) (lookup : String → Option String) (account : Option String) :
    Dialogue Inquiry Inquiry.Answer Exit :=
  match readArguments arguments with
  | .error e => pure { Exit.failure e.message with out := Utf8.encode helpText }
  | .ok (task, o) => runTask lookup account task o

end CommandLine
end ContainerBuild
