import ContainerBuild.Archive.Pack
import ContainerBuild.Credentials
import ContainerBuild.EngineConfig
import ContainerBuild.MultiArch.Manifest
import ContainerBuild.Output.Reading
import ContainerBuild.Podman.Client
import ContainerBuild.Podman.Progress
import ContainerBuild.Podman.Report
import ContainerBuild.Podman.Socket
import ContainerBuild.Podman.Specification

/-!
# The Podman backend

Each operation is one or a few requests to the daemon. A reply that something is absent becomes an
error with the name that the caller used; a reply that a container is already in the wanted state is
no error.
-/

namespace ContainerBuild
namespace Podman

def containerError (id : String) (e : BuildError) : BuildError :=
  if e.isNotFound then .containerNotFound id else e

def imageError (reference : String) (e : BuildError) : BuildError :=
  if e.isNotFound then .imageNotFound reference else e

def hasStatus (status : Nat) : BuildError → Bool
  | .api _ s _ => s == status
  | _ => false

/-- The result, except that a reply with one status is no error. -/
def allowing (status : Nat) (s : Session Unit) : Session Unit := do
  match ← Session.attempt s with
  | .ok () => return ()
  | .error e => if hasStatus status e then return () else throw e

/-- The header with the credentials; anonymous access needs none. -/
def authHeaders (registryAuth : String) : Outcome (List (String × String)) := do
  let c ← Credentials.decode registryAuth
  if c.isEmpty then return [] else return [("X-Registry-Auth", c.encode)]

def containerPath (id rest : String) : String :=
  "/containers/" ++ Percent.encode id ++ rest

def imagePath (reference rest : String) : String :=
  "/images/" ++ Percent.encode reference ++ rest

def manifestPath (list rest : String) : String :=
  "/manifests/" ++ Percent.encode list ++ rest

def progress (body : Bytes) : Outcome String :=
  (progressLog body).mapError backendError

def conditionName : WaitCondition → String
  | .notRunning => "stopped"
  | .nextExit => "exited"
  | .removed => "removing"

def stopSeconds : Nat := 10

namespace Client

def ping (c : Client) : Session Unit :=
  Session.mapError (fun e =>
    match e with
    | .connection .. => e
    | _ => .connection name c.socket e.message) do
      let _ ← c.request .get "/_ping" .empty []
      return ()

def inspectImage (c : Client) (reference : String) : Session ImageDetails :=
  Session.mapError (imageError reference) (c.getJson (imagePath reference "/json") imageFields.decode)

def platformParams : Option PlatformSpec → List (String × String)
  | none => []
  | some p => [("os", p.os), ("arch", p.architecture)] ++ (p.variant.map fun v => ("variant", v)).toList

def pull (c : Client) (reference : String) (platform : Option PlatformSpec)
    (registryAuth : String) : Session String := do
  let headers ← Session.ofOutcome (authHeaders registryAuth)
  let params := [("reference", reference), ("policy", "always")] ++ platformParams platform
  let body ← Session.mapError (imageError reference)
    (c.request .post ("/images/pull" ++ Percent.query params) .empty headers)
  Session.ofOutcome (progress body)

def pullFor (c : Client) (config : ContainerConfig) (registryAuth : String) : Session Unit :=
  match config.targetPlatform with
  | some p => do
    let _ ← c.pull config.image (some p) registryAuth
    return ()
  | none => pure ()

def create (c : Client) (config : ContainerConfig) (registryAuth : String) : Session String := do
  c.pullFor config registryAuth
  let fresh ← Session.freshId
  let spec ← Session.ofOutcome (ContainerSpec.ofConfig config (config.nameOr fresh))
  Session.mapError (imageError config.image)
    (c.postJson "/containers/create" (.json spec.toJson.render) idFields.decode)

def start (c : Client) (id : String) : Session Unit :=
  Session.mapError (containerError id)
    (allowing 304 (c.post (containerPath id "/start") .empty))

/-- Sends a signal, and tells whether the container was running. -/
def kill (c : Client) (id : String) (signal : Signal) : Session Bool := do
  let path := containerPath id ("/kill" ++ Percent.query [("signal", signal.name)])
  match ← Session.attempt (c.post path .empty) with
  | .ok () => return true
  | .error e => if hasStatus 409 e then return false else throw e

def stop (c : Client) (id : String) (signal : Signal) : Session Unit :=
  Session.mapError (containerError id) do
    if ← c.kill id signal then
      let query := Percent.query [("timeout", toString stopSeconds)]
      allowing 304 (c.post (containerPath id ("/stop" ++ query)) .empty)

def remove (c : Client) (id : String) : Session Unit :=
  Session.mapError (containerError id)
    (c.delete (containerPath id (Percent.query [("force", "true"), ("v", "true")])))

def execJson (command : List String) (attach : Bool) : Json :=
  .object [("Cmd", .texts command), ("AttachStdout", .bool attach), ("AttachStderr", .bool attach)]

def exec (c : Client) (id : String) (command : List String) (attach : Bool) :
    Session ExecOutput := do
  let execId ← Session.mapError (containerError id)
    (c.postJson (containerPath id "/exec") (.json (execJson command attach).render) idFields.decode)
  let path := "/exec/" ++ Percent.encode execId ++ "/start"
  let payload : Json := .object [("Detach", .bool !attach), ("Tty", .bool false)]
  if attach then
    let r ← c.requestStream .post path (.json payload.render)
    return ExecOutput.ofBody r.withBody.chunks (r.withBody.broken.map backendError)
  else
    c.post path (.json payload.render)
    return ExecOutput.empty

/-- The platform of an image, if it can be found out. -/
def platformOf (c : Client) (image : String) : Session (Option PlatformSpec) := do
  if image.isEmpty then return none
  match ← Session.attempt (c.inspectImage image) with
  | .ok details => return some details.platform
  | .error _ => return none

def inspect (c : Client) (id : String) : Session ContainerDetails := do
  let found ← Session.mapError (containerError id)
    (c.getJson (containerPath id "/json") InspectContainer.fields.decode)
  let platform ← c.platformOf found.image
  return found.details id platform

def exitCode (body : Bytes) : Outcome Int :=
  let text := Text.trim (Utf8.decodeLossy body)
  match Text.signed? text.toList with
  | some code => .ok code
  | none => .error (backendError ("unexpected wait response '" ++ text ++ "'"))

def wait (c : Client) (id : String) (condition : WaitCondition) : Session Int := do
  let path := containerPath id ("/wait" ++ Percent.query [("condition", conditionName condition)])
  let body ← Session.mapError (containerError id) (c.request .post path .empty [])
  Session.ofOutcome (exitCode body)

def commitParams (id : String) (reference : ImageReference) (options : CommitOptions) :
    List (String × String) :=
  [("container", id), ("repo", reference.name), ("tag", reference.tagOrLatest), ("pause", "true")] ++
    (options.comment.map fun s => ("comment", s)).toList ++
    options.changes.map fun s => ("changes", s)

def commit (c : Client) (id : String) (options : CommitOptions) : Session String := do
  let reference ← Session.ofOutcome (ImageReference.parse options.reference)
  let path := "/commit" ++ Percent.query (commitParams id reference options)
  Session.mapError (containerError id) (c.postJson path .empty idFields.decode)

def upload (c : Client) (id directory : String) (archive : Bytes) : Session Unit :=
  Session.mapError (containerError id) do
    let path := containerPath id ("/archive" ++ Percent.query [("path", directory)])
    let _ ← c.request .put path (.tar archive) []
    return ()

/-- A path that is absent and a container that is absent give the same reply, so the container is
looked for. -/
def download (c : Client) (id path : String) : Session (Option Bytes) := do
  let target := containerPath id ("/archive" ++ Percent.query [("path", path)])
  match ← Session.attempt (c.request .get target .empty []) with
  | .ok body => return some body
  | .error e =>
    if e.isNotFound then do
      let _ ← c.inspect id
      return none
    else throw e

def listImages (c : Client) : Session (List ImageSummary) :=
  c.getJson "/images/json" (Json.Decode.list summaryFields.decode)

def tag (c : Client) (source target : String) : Session Unit := do
  let reference ← Session.ofOutcome (ImageReference.parse target)
  let query := Percent.query [("repo", reference.name), ("tag", reference.tagOrLatest)]
  Session.mapError (imageError source) (c.post (imagePath source ("/tag" ++ query)) .empty)

def push (c : Client) (reference registryAuth : String) : Session String := do
  let headers ← Session.ofOutcome (authHeaders registryAuth)
  let path := imagePath reference ("/push" ++ Percent.query [("destination", reference)])
  let body ← Session.mapError (imageError reference) (c.request .post path .empty headers)
  Session.ofOutcome (progress body)

def removeImage (c : Client) (reference : String) (force : Bool) : Session Unit :=
  Session.mapError (imageError reference)
    (c.delete (imagePath reference (Percent.query [("force", if force then "true" else "false")])))

def buildParams (tag : String) (platform : Option PlatformSpec) : List (String × String) :=
  [("dockerfile", Archive.dockerfileName), ("t", tag), ("rm", "true")] ++
    (platform.map fun p => ("platform", p.text)).toList

def buildFor (c : Client) (b : PlatformBuild) : Session BuildOutput := do
  let context ← Session.ofOutcome
    (Archive.buildContext b.dockerfile (b.context.map fun x => (x.tree, x.root)))
  let path := "/build" ++ Percent.query (buildParams b.tag b.platform)
  let body ← Session.mapError (fun e => .buildFailed b.tag e.message)
    (c.request .post path (.tar context) [])
  let log ← Session.ofOutcome ((progressLog body).mapError (.buildFailed b.tag))
  let image ← c.inspectImage b.tag
  return ⟨log, image.id⟩

def createManifest (c : Client) (list : String) : Session String :=
  c.postJson (manifestPath list (Percent.query [("amend", "true")])) .empty idFields.decode

/-- Images of the daemon itself are named with their storage; a bare name would be looked for in a
registry. -/
def addToManifest (c : Client) (list image : String) : Session Unit := do
  let payload : Json := .object [("operation", .text "update"),
    ("images", .texts ["containers-storage:" ++ image])]
  let _ ← c.request .put (manifestPath list "") (.json payload.render) []
  return ()

/-- The log in the reply to the push of a list: a progress stream, or the digest as a text. -/
def pushLog (body : Bytes) : Outcome String := do
  let log ← progress body
  if log.isEmpty then return Text.trim (Utf8.decodeLossy body) ++ "\n" else return log

def pushManifest (c : Client) (list destination registryAuth : String) : Session String := do
  let headers ← Session.ofOutcome (authHeaders registryAuth)
  let rest := "/registry/" ++ Percent.encode destination ++ Percent.query [("all", "true")]
  let body ← c.request .post (manifestPath list rest) .empty headers
  Session.ofOutcome (pushLog body)

def answerCall (c : Client) : (q : ManifestCall) → Dialogue Inquiry Inquiry.Answer q.Answer
  | .build b => (c.buildFor b).run
  | .create list => (c.createManifest list).run
  | .add list image => (c.addToManifest list image).run
  | .push list destination auth => (c.pushManifest list destination auth).run

def buildMultiArch (c : Client) (r : MultiArchRequest) : Session MultiArchOutput :=
  ExceptT.mk (r.assemble.run.interpret c.answerCall)

def manager (c : Client) : ContainerManager Session where
  name := Podman.name
  ping := c.ping
  create := c.create
  start := c.start
  stop := c.stop
  remove := c.remove
  exec := c.exec
  inspect := c.inspect
  wait := c.wait
  commit := c.commit
  upload := c.upload
  download := c.download
  listImages := c.listImages
  pull := c.pull
  tag := c.tag
  push := c.push
  removeImage := c.removeImage
  inspectImage := c.inspectImage
  build := fun dockerfile image platform => c.buildFor ⟨dockerfile, none, image, platform⟩
  buildMultiArch := c.buildMultiArch

end Client

def toolName : String := "podman"

/-- The configured socket, or the one that the tool finds with the version of the tool. -/
def chooseSocket (config : EngineConfig) : Session (String × Option Nat) :=
  match config.socket with
  | some path => pure (path, none)
  | none => do
    let found ← discover toolName
    return (found.path, some found.major)

/-- The major version of the daemon, else of the tool, else a recent one. A daemon that cannot be
reached is an error. -/
def chooseMajor (c : Client) (discovered : Option Nat) : Session Nat := do
  match ← Session.attempt c.serverMajor with
  | .ok major => return major
  | .error e =>
    match e with
    | .connection .. => throw e
    | _ => return discovered.getD ApiVersion.firstCurrent

def connect (config : EngineConfig) : Session Client := do
  let (socket, discovered) ← chooseSocket config
  let c := Client.new socket config.requestTimeout
  let major ← chooseMajor c discovered
  let c := c.withMajor major
  c.ping
  return c

end Podman
end ContainerBuild
