import ContainerBuild.Http.Percent
import ContainerBuild.Podman.Version
import ContainerBuild.Surroundings

/-!
# Requests to Podman

Every request goes over its own connection to the socket of the daemon, and its path begins with the
form of paths that the daemon serves. A reply that is no success becomes an error with the status and
with what the daemon says of it.
-/

namespace ContainerBuild
namespace Podman

structure Client where
  socket : String
  /-- How long a response may take to begin. -/
  timeout : Duration
  api : ApiVersion
  deriving DecidableEq, Repr

def errorFields : Json.Fields (String × String) :=
  (Json.Fields.withDefault "message" Json.Decode.text "").and
    (Json.Fields.withDefault "cause" Json.Decode.text "")

/-- The text of an error reply: its message, else its cause, else all of it. -/
def errorMessage (body : Bytes) : String :=
  let whole := Text.trim (Utf8.decodeLossy body)
  match Json.read errorFields.decode body with
  | .ok (message, cause) =>
    if !message.isEmpty then message else if !cause.isEmpty then cause else whole
  | .error _ => whole

def apiError (status : Nat) (body : Bytes) : BuildError :=
  .api name status (errorMessage body)

namespace Client

def new (socket : String) (timeout : Duration) : Client :=
  ⟨socket, timeout, .current⟩

def withMajor (c : Client) (major : Nat) : Client :=
  { c with api := ApiVersion.ofMajor major }

/-- Sends a request, and gives the response with its body unread. -/
def sendTo (c : Client) (method : Http.Method) (target : String) (payload : Http.Payload)
    (headers : List (String × String)) : Session Http.Response := do
  if Http.maxTarget < target.utf8ByteSize then
    throw (.internal "failed to build request: the target is too long")
  let reply ← Session.exchange c.socket c.timeout ⟨method, target, headers, payload⟩
  match reply with
  | .unreachable fault => throw (.connection name c.socket fault.text)
  | .silent => throw (.timeout (method.name ++ " " ++ target) c.timeout)
  | .dropped reason => throw (backendError ("request failed: " ++ reason))
  | .response r => return r

def readBody (r : Http.Response) : Outcome Bytes :=
  match r.body with
  | .ok body => .ok body
  | .error reason => .error (backendError ("failed to read body: " ++ reason))

def successBody (r : Http.Response) : Outcome Bytes := do
  let body ← readBody r
  if r.isSuccess then return body else throw (apiError r.status body)

/-- The path of a request below the form of paths that the daemon serves. -/
def pathFor (c : Client) (path : String) : String :=
  "/" ++ c.api.text ++ "/libpod" ++ path

def send (c : Client) (method : Http.Method) (path : String) (payload : Http.Payload)
    (headers : List (String × String)) : Session Http.Response :=
  c.sendTo method (c.pathFor path) payload headers

/-- The body of the reply to a request, which must succeed. -/
def request (c : Client) (method : Http.Method) (path : String) (payload : Http.Payload)
    (headers : List (String × String)) : Session Bytes := do
  let r ← c.send method path payload headers
  Session.ofOutcome (successBody r)

def requestStream (c : Client) (method : Http.Method) (path : String) (payload : Http.Payload) :
    Session Http.Response := do
  let r ← c.send method path payload []
  if r.isSuccess then return r
  else
    let body ← Session.ofOutcome (readBody r)
    throw (apiError r.status body)

def decodeBody {α : Type} (d : Json.Decoder α) (body : Bytes) : Outcome α :=
  (Json.read d body).mapError fun fault => .serialization fault.text

def getJson {α : Type} (c : Client) (path : String) (d : Json.Decoder α) : Session α := do
  let body ← c.request .get path .empty []
  Session.ofOutcome (decodeBody d body)

def postJson {α : Type} (c : Client) (path : String) (payload : Http.Payload)
    (d : Json.Decoder α) : Session α := do
  let body ← c.request .post path payload []
  Session.ofOutcome (decodeBody d body)

def post (c : Client) (path : String) (payload : Http.Payload) : Session Unit := do
  let _ ← c.request .post path payload []
  return ()

def delete (c : Client) (path : String) : Session Unit := do
  let _ ← c.request .delete path .empty []
  return ()

/-- The major version of the daemon, which is told outside of the versioned paths. -/
def serverMajor (c : Client) : Session Nat := do
  let r ← c.sendTo .get "/version" .empty []
  let body ← Session.ofOutcome (successBody r)
  Session.ofOutcome (readServerMajor body)

end Client
end Podman
end ContainerBuild
