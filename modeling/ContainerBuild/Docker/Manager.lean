import ContainerBuild.Archive.Pack
import ContainerBuild.Credentials
import ContainerBuild.Docker.ContainerBody
import ContainerBuild.Docker.Output
import ContainerBuild.Docker.Progress
import ContainerBuild.Docker.Report
import ContainerBuild.EngineConfig
import ContainerBuild.MultiArch.Native

/-!
# The Docker backend

Each operation is one or a few requests to the daemon, and a reply that something is absent becomes an
error with the name that the caller used. Builds for several platforms are left to the builder of the
command line tool, which pushes what it makes.
-/

namespace ContainerBuild
namespace Docker

def backendError (f : Failure) : BuildError := .backend name f.text

def containerError (id : String) (f : Failure) : BuildError :=
  if f.isNotFound then .containerNotFound id else backendError f

def imageError (reference : String) (f : Failure) : BuildError :=
  if f.isNotFound then .imageNotFound reference else backendError f

/-- The object with credentials; what is not known of them is null. -/
def authJson (c : Option Credentials) : Json :=
  .object [("username", .textOrNull (c.map Credentials.username)),
    ("password", .textOrNull (c.map Credentials.password)), ("auth", .null), ("email", .null),
    ("serveraddress", .textOrNull (c.bind Credentials.serverAddress)), ("identitytoken", .null),
    ("registrytoken", .null)]

def authHeader (c : Option Credentials) : String × String :=
  ("X-Registry-Auth", Base64.encode .urlSafe (authJson c).render)

/-- The credentials in a text, unless they are those of anonymous access. -/
def credentials (registryAuth : String) : Outcome (Option Credentials) := do
  let c ← Credentials.decode registryAuth
  return if c.isEmpty then none else some c

def containerPath (id rest : String) : String := "/containers/" ++ id ++ rest

def imagePath (reference rest : String) : String := "/images/" ++ reference ++ rest

def flag (b : Bool) : String := if b then "true" else "false"

def stopSeconds : Nat := 10

/-- A daemon that is reached, and how messages and commands name it. -/
structure Daemon where
  client : Client
  endpoint : String
  host : Option String
  deriving DecidableEq, Repr

def defaultSocket : String := "/var/run/docker.sock"

def connectionError (endpoint : String) (f : Failure) : BuildError :=
  .connection name endpoint f.text

namespace Daemon

/-- A daemon that is not asked whether it is there. -/
def ofClient (c : Client) : Daemon := ⟨c, defaultSocket, none⟩

def ping (d : Daemon) : Session Unit := do
  let _ ← settle (connectionError d.endpoint) (d.client.bytes .get "/_ping" [])
  return ()

def inspectImage (d : Daemon) (reference : String) : Session ImageDetails :=
  settle (imageError reference)
    (d.client.get .get (imagePath reference "/json") [] .empty imageFields.decode)

def imageId (d : Daemon) (reference : String) : Session String := do
  let image ← d.inspectImage reference
  return image.id

/-- The log of a stream of records, or its failure as an error. -/
def streamLog (f : Failure → BuildError) (text : ProgressRecord → String)
    (found : List ProgressRecord × Option Failure) : Outcome String :=
  (logOf text found.2 found.1).mapError f

def platformText (p : Option PlatformSpec) : String :=
  (p.map PlatformSpec.text).getD ""

/-- A digest says which image to pull; else its tag does. -/
def pullParams (r : ImageReference) (p : Option PlatformSpec) : List (String × String) :=
  [("fromImage", r.name), ("platform", platformText p), ("tag", r.digest.getD r.tagOrLatest)]

def pull (d : Daemon) (reference : String) (p : Option PlatformSpec) (registryAuth : String) :
    Session String := do
  let r ← Session.ofOutcome (ImageReference.parse reference)
  let c ← Session.ofOutcome (credentials registryAuth)
  let headers := (c.map fun c => authHeader (some c)).toList
  let found ← settle (imageError reference)
    (d.client.stream .post "/images/create" (pullParams r p) .empty headers
      ProgressRecord.pullFields.decode)
  Session.ofOutcome (streamLog (imageError reference) ProgressRecord.pullText found)

def pullFor (d : Daemon) (config : ContainerConfig) (registryAuth : String) : Session Unit :=
  match config.targetPlatform with
  | some p => do
    let _ ← d.pull config.image (some p) registryAuth
    return ()
  | none => pure ()

def create (d : Daemon) (config : ContainerConfig) (registryAuth : String) : Session String := do
  d.pullFor config registryAuth
  let fresh ← Session.freshId
  let body ← Session.ofOutcome (ContainerBody.ofConfig config)
  let params := [("name", config.nameOr fresh), ("platform", platformText config.targetPlatform)]
  settle (imageError config.image)
    (d.client.get .post "/containers/create" params (.json body.toJson.render) createdFields.decode)

def start (d : Daemon) (id : String) : Session Unit :=
  settle (containerError id) (d.client.run .post (containerPath id "/start") [] .empty)

def stop (d : Daemon) (id : String) (signal : Signal) : Session Unit :=
  settle (containerError id)
    (d.client.run .post (containerPath id "/stop")
      [("signal", signal.name), ("t", toString stopSeconds)] .empty)

def remove (d : Daemon) (id : String) : Session Unit :=
  settle (containerError id)
    (d.client.run .delete (containerPath id "")
      [("force", flag true), ("link", flag false), ("v", flag true)] .empty)

def execJson (command : List String) (attach : Bool) : Json :=
  .object [("AttachStderr", .bool attach), ("AttachStdout", .bool attach), ("Cmd", .texts command)]

def startJson (attach : Bool) : Json :=
  .object [("Detach", .bool !attach), ("OutputCapacity", .null), ("Tty", .bool false)]

/-- The output of a command after the connection was turned into a stream of bytes. -/
def attached (r : Http.Response) : Outcome ExecOutput :=
  if r.status == 101 then .ok (outputOf r) else .error (.backend name "no upgrade available")

def exec (d : Daemon) (id : String) (command : List String) (attach : Bool) :
    Session ExecOutput := do
  let execId ← settle (containerError id)
    (d.client.get .post (containerPath id "/exec") [] (.json (execJson command attach).render)
      idFields.decode)
  let r ← settle backendError
    (d.client.send .post ("/exec/" ++ execId ++ "/start") [] (.json (startJson attach).render) [])
  if attach then Session.ofOutcome (attached r) else return ExecOutput.empty

/-- The platform of an image, if it can be found out. -/
def platformOf (d : Daemon) (image : String) : Session (Option PlatformSpec) := do
  if image.isEmpty then return none
  match ← Session.attempt (d.inspectImage image) with
  | .ok details => return some details.platform
  | .error _ => return none

def inspect (d : Daemon) (id : String) : Session ContainerDetails := do
  let found ← settle (containerError id)
    (d.client.get .get (containerPath id "/json") [] .empty InspectContainer.fields.decode)
  let platform ← d.platformOf found.imageId
  return found.details id platform

def firstCode (id : String) : List Int × Option Failure → Outcome Int
  | (code :: _, _) => .ok code
  | ([], some f) => .error (containerError id f)
  | ([], none) => .error (.backend name ("wait on " ++ id ++ " ended without a status"))

def wait (d : Daemon) (id : String) (condition : WaitCondition) : Session Int := do
  let found ← settle (containerError id)
    (d.client.stream .post (containerPath id "/wait") [("condition", condition.name)] .empty []
      exitFields.decode)
  Session.ofOutcome (firstCode id found)

def commitParams (id : String) (r : ImageReference) (options : CommitOptions) :
    List (String × String) :=
  (if options.changes.isEmpty then [] else [("changes", Text.join "\n" options.changes)]) ++
    (options.comment.map fun s => ("comment", s)).toList ++
    [("container", id), ("pause", flag true), ("repo", r.name), ("tag", r.tagOrLatest)]

def commit (d : Daemon) (id : String) (options : CommitOptions) : Session String := do
  let r ← Session.ofOutcome (ImageReference.parse options.reference)
  let _ ← settle (containerError id)
    (d.client.get .post "/commit" (commitParams id r options) (.json (Json.object []).render)
      idFields.decode)
  d.imageId r.text

def upload (d : Daemon) (id directory : String) (archive : Bytes) : Session Unit :=
  settle (containerError id)
    (d.client.run .put (containerPath id "/archive") [("path", directory)] (.tar archive))

/-- A path that is absent and a container that is absent give the same reply, so the container is
looked for. -/
def download (d : Daemon) (id path : String) : Session (Option Bytes) := do
  let target := containerPath id "/archive"
  match ← ExceptT.lift (d.client.bytes .get target [("path", path)]).run with
  | .ok archive => return some archive
  | .error f =>
    if f.isNotFound then do
      let _ ← d.inspect id
      return none
    else throw (backendError f)

def listParams : List (String × String) :=
  ["all", "digests", "manifests", "shared-size"].map fun key => (key, flag false)

def listImages (d : Daemon) : Session (List ImageSummary) :=
  settle backendError
    (d.client.get .get "/images/json" listParams .empty (Json.Decode.list summaryFields.decode))

def tag (d : Daemon) (source target : String) : Session Unit := do
  let r ← Session.ofOutcome (ImageReference.parse target)
  settle (imageError source)
    (d.client.run .post (imagePath source "/tag") [("repo", r.name), ("tag", r.tagOrLatest)] .empty)

def push (d : Daemon) (reference registryAuth : String) : Session String := do
  let r ← Session.ofOutcome (ImageReference.parse reference)
  let c ← Session.ofOutcome (credentials registryAuth)
  let found ← settle (imageError reference)
    (d.client.stream .post (imagePath r.name "/push") [("tag", r.tagOrLatest)] .empty [authHeader c]
      ProgressRecord.pushFields.decode)
  Session.ofOutcome (streamLog (imageError reference) ProgressRecord.pushText found)

def removeImage (d : Daemon) (reference : String) (force : Bool) : Session Unit := do
  let _ ← settle (imageError reference)
    (d.client.get .delete (imagePath reference "") [("force", flag force), ("noprune", flag false)]
      .empty (Json.Decode.list removedFields.decode))
  return ()

def buildParams (b : PlatformBuild) : List (String × String) :=
  [("dockerfile", Archive.dockerfileName), ("forcerm", flag false), ("nocache", flag false),
    ("platform", platformText b.platform), ("q", flag false), ("rm", flag true), ("t", b.tag),
    ("target", ""), ("version", "1")]

def buildFor (d : Daemon) (b : PlatformBuild) : Session BuildOutput := do
  let context ← Session.ofOutcome
    (Archive.buildContext b.dockerfile (b.context.map fun x => (x.tree, x.root)))
  let failed (f : Failure) : BuildError := .buildFailed b.tag f.text
  let found ← settle failed
    (d.client.stream .post "/build" (buildParams b) (.tar context) []
      ProgressRecord.buildFields.decode)
  let log ← Session.ofOutcome (streamLog failed ProgressRecord.buildText found)
  let id ← d.imageId b.tag
  return ⟨log, id⟩

def stageStem : String := "buildrig-buildx-"

def stage (dockerfile : Bytes) : StagedDirectory where
  stem := stageStem
  tree := FileTree.empty.set [Utf8.encode Archive.dockerfileName]
    (.file FileTree.newFileMode dockerfile)
  root := []

/-- The command that builds all platforms and pushes them. Without a context it builds in the directory
of the build file. -/
def nativeCommand (d : Daemon) (dockerfile : Bytes) (context : Option BuildContext)
    (imageName : String) (platforms : List PlatformSpec) : Command where
  program := "docker"
  arguments :=
    [.word "buildx", .word "build", .word "--push", .word "--platform",
      .word (PlatformSpec.listText platforms), .word "--tag", .word imageName, .word "--file",
      .file stageStem Archive.dockerfileName,
      .directory (if context.isSome then BuildContext.stem else stageStem)]
  environment := (d.host.map fun host => ("DOCKER_HOST", host)).toList
  staged := stage dockerfile ::
    (context.map fun c => (⟨BuildContext.stem, c.tree, c.root⟩ : StagedDirectory)).toList

/-- The log of the command, which it writes to its error output; its last line says why it failed. -/
def nativeLog (imageName : String) : CommandResult → Outcome String
  | .notStarted fault =>
    .error (.buildFailed imageName ("failed to run docker buildx: " ++ fault.text))
  | .timedOut => .error (.buildFailed imageName "docker buildx failed")
  | .ended output =>
    let log := Utf8.decodeLossy output.err
    if output.status.isSuccess then .ok log
    else
      .error (.buildFailed imageName (((Text.lines log).getLast?).getD "docker buildx failed"))

def buildAndPush (d : Daemon) (dockerfile : Bytes) (context : Option BuildContext)
    (imageName : String) (platforms : List PlatformSpec) : Session String := do
  let result ← Session.command (d.nativeCommand dockerfile context imageName platforms) none
  Session.ofOutcome (nativeLog imageName result)

def pullPlatform (d : Daemon) (imageName : String) (p : PlatformSpec) (registryAuth : String) :
    Session BuildOutput := do
  let log ← d.pull imageName (some p) registryAuth
  let id ← d.imageId imageName
  return ⟨log, id⟩

def answerCall (d : Daemon) : (q : NativeCall) → Dialogue Inquiry Inquiry.Answer q.Answer
  | .build b => (d.buildFor b).run
  | .buildAndPush dockerfile context imageName platforms =>
    (d.buildAndPush dockerfile context imageName platforms).run
  | .pull imageName p registryAuth => (d.pullPlatform imageName p registryAuth).run

def buildMultiArch (d : Daemon) (r : MultiArchRequest) : Session MultiArchOutput :=
  ExceptT.mk (r.assembleNative.run.interpret d.answerCall)

def manager (d : Daemon) : ContainerManager Session where
  name := Docker.name
  ping := d.ping
  create := d.create
  start := d.start
  stop := d.stop
  remove := d.remove
  exec := d.exec
  inspect := d.inspect
  wait := d.wait
  commit := d.commit
  upload := d.upload
  download := d.download
  listImages := d.listImages
  pull := d.pull
  tag := d.tag
  push := d.push
  removeImage := d.removeImage
  inspectImage := d.inspectImage
  build := fun dockerfile image platform => d.buildFor ⟨dockerfile, none, image, platform⟩
  buildMultiArch := d.buildMultiArch

end Daemon

def socketScheme : String := "unix://"

/-- The path in an address, which may have the scheme of sockets anywhere before it. -/
def socketPath (address : String) : String :=
  match address.splitOn socketScheme with
  | first :: rest@(_ :: _) => first ++ Text.join socketScheme rest
  | _ => address

/-- The address of the daemon: the configured socket, else what a variable says if it is the address of
a socket, else the usual one. -/
def chooseAddress (config : EngineConfig) (hostVariable : Option String) : String :=
  match config.socket with
  | some path => path
  | none => (hostVariable.filter fun host => Text.startsWith socketScheme host).getD defaultSocket

/-- Connects to the daemon, whose socket must be there and which must answer. -/
def connect (config : EngineConfig) (hostVariable : Option String) : Session Daemon := do
  let path := socketPath (chooseAddress config hostVariable)
  let endpoint := config.socket.getD defaultSocket
  unless ← Session.pathExists path do
    throw (.connection name endpoint ("Socket not found: " ++ path))
  let d : Daemon :=
    ⟨⟨path, config.requestTimeout⟩, endpoint, config.socket.map fun path => socketScheme ++ path⟩
  d.ping
  return d

end Docker
end ContainerBuild
