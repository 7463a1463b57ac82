import ContainerBuild.Docker.Records
import ContainerBuild.Http.Target
import ContainerBuild.Surroundings

/-!
# Requests to Docker

A request fails with a status, with an error that a stream reports, with a reply that is no record, or
because the exchange itself fails. What the failure means is up to the operation, so it is kept apart
from the errors of the operations.
-/

namespace ContainerBuild
namespace Docker

def name : String := "docker"

inductive Failure
  | status (code : Nat) (message : String)
  | reported (message : String)
  | unreadable (fault : Json.Fault) (text : Bytes)
  | exchange (reason : String)
  deriving DecidableEq, Repr

namespace Failure

def text : Failure → String
  | status code message =>
    "Docker responded with status code " ++ toString code ++ ": " ++ message
  | reported message => "Docker stream error: " ++ message
  | unreadable (.broken b) whole =>
    let (line, column) := b.position whole
    (Json.Fault.broken b).text ++ " at line " ++ toString line ++ " column " ++ toString column
  | unreadable fault _ => "Failed to deserialize JSON: " ++ fault.text
  | exchange reason => reason

def isNotFound : Failure → Bool
  | status code _ => code == 404
  | _ => false

end Failure

abbrev Attempt := ExceptT Failure (Dialogue Inquiry Inquiry.Answer)

def attemptOf {α : Type} (r : Except Failure α) : Attempt α :=
  ExceptT.mk (pure r)

def settle {α : Type} (f : Failure → BuildError)
    (a : Attempt α) : Session α :=
  ExceptT.mk (a.run >>= fun r => pure (r.mapError f))

structure Client where
  socket : String
  /-- How long a response may take to begin. -/
  timeout : Duration
  deriving DecidableEq, Repr

def messageField : Json.Fields String := Json.Fields.required "message" Json.Decode.text

/-- The failure of a reply that is no success: the message in its body, else the body. -/
def replyFailure (status : Nat) (body : Bytes) : Failure :=
  let whole := Utf8.decodeLossy body
  match Json.read messageField.decode (Utf8.encode whole) with
  | .ok message => .status status message
  | .error (.broken b) =>
    if b.isEnd && !body.isEmpty then .unreadable (.broken b) body else .status status whole
  | .error _ => .status status whole

def readBody (r : Http.Response) : Except Failure Bytes :=
  r.body.mapError .exchange

/-- A status of success, of nothing to change, or of a change to a stream of bytes. -/
def isAccepted (r : Http.Response) : Bool :=
  r.isSuccess || r.status == 304 || r.status == 101

namespace Client

/-- Sends a request that must be accepted, and gives the response with its body unread. -/
def send (c : Client) (method : Http.Method) (reference : String) (params : List (String × String))
    (payload : Http.Payload) (headers : List (String × String)) : Attempt Http.Response := do
  let request : Http.Request := ⟨method, Http.Target.make reference params, headers, payload⟩
  let reply ← ExceptT.lift (Dialogue.question (A := Inquiry.Answer) (.exchange c.socket c.timeout request))
  match (reply : Http.Reply) with
  | .unreachable _ => throw (.exchange "Error in the hyper legacy client: client error (Connect)")
  | .silent => throw (.exchange "Timeout error")
  | .dropped _ => throw (.exchange "Error in the hyper legacy client: client error (SendRequest)")
  | .response r =>
    if isAccepted r then return r
    else
      let body ← attemptOf (readBody r)
      throw (replyFailure r.status body)

def run (c : Client) (method : Http.Method) (reference : String) (params : List (String × String))
    (payload : Http.Payload) : Attempt Unit := do
  let _ ← c.send method reference params payload []
  return ()

def get {α : Type} (c : Client) (method : Http.Method) (reference : String)
    (params : List (String × String)) (payload : Http.Payload) (d : Json.Decoder α) : Attempt α := do
  let r ← c.send method reference params payload []
  let body ← attemptOf (readBody r)
  attemptOf ((Json.read d body).mapError fun fault => .unreadable fault body)

/-- The records in the body of a response, and the failure that ended them too early. -/
def recordsOf {α : Type} (d : Json.Decoder α) (r : Http.Response) : List α × Option Failure :=
  let found := searchChunks d [] r.withBody.chunks
  match found.left with
  | .error (fault, line) => (found.records, some (.unreadable fault line))
  | .ok left =>
    match r.withBody.broken with
    | some reason => (found.records, some (.exchange reason))
    | none =>
      let last := search d left
      (found.records ++ last.records,
        match last.left with
        | .error (fault, line) => some (.unreadable fault line)
        | .ok rest => if rest.isEmpty then none else some (.exchange "bytes remaining on stream"))

def stream {α : Type} (c : Client) (method : Http.Method) (reference : String)
    (params : List (String × String)) (payload : Http.Payload) (headers : List (String × String))
    (d : Json.Decoder α) : Attempt (List α × Option Failure) := do
  let r ← c.send method reference params payload headers
  return recordsOf d r

def bytes (c : Client) (method : Http.Method) (reference : String)
    (params : List (String × String)) : Attempt Bytes := do
  let r ← c.send method reference params .empty []
  attemptOf (readBody r)

end Client
end Docker
end ContainerBuild
