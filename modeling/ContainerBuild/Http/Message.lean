import ContainerBuild.Bytes
import ContainerBuild.BuildError

/-!
# Requests and replies

A daemon is asked by a request on its socket. It may be out of reach, keep silent, or break off before
it answers. Otherwise there is a response, whose body comes in chunks and may break off too.
-/

namespace ContainerBuild
namespace Http

inductive Method
  | get
  | post
  | put
  | delete
  deriving DecidableEq, Repr

def Method.name : Method → String
  | get => "GET"
  | post => "POST"
  | put => "PUT"
  | delete => "DELETE"

inductive Payload
  | empty
  | json (text : Bytes)
  | tar (archive : Bytes)
  deriving DecidableEq, Repr

namespace Payload

def contentType? : Payload → Option String
  | empty => none
  | json _ => some "application/json"
  | tar _ => some "application/x-tar"

def bytes : Payload → Bytes
  | empty => []
  | json text => text
  | tar archive => archive

end Payload

structure Request where
  method : Method
  target : String
  headers : List (String × String)
  payload : Payload
  deriving DecidableEq, Repr

structure Response where
  status : Nat
  /-- What comes after the head, which is a body if the status allows one. -/
  chunks : List Bytes
  /-- Why the chunks broke off, if they did. -/
  broken : Option String
  deriving DecidableEq, Repr

namespace Response

def isSuccess (r : Response) : Bool :=
  200 ≤ r.status && r.status < 300

/-- Whether the status allows a body: not where there is no content, nothing to change, or a change to a
stream of bytes. -/
def hasBody (r : Response) : Bool :=
  !(r.status == 101 || r.status == 204 || r.status == 304)

def withBody (r : Response) : Response :=
  if r.hasBody then r else { r with chunks := [], broken := none }

def body (r : Response) : Except String Bytes :=
  match r.withBody.broken with
  | some reason => .error reason
  | none => .ok r.withBody.chunks.flatten

end Response

inductive Reply
  | unreachable (fault : IoFault)
  | silent
  | dropped (reason : String)
  | response (r : Response)
  deriving DecidableEq, Repr

def maxTarget : Nat := 65534

end Http
end ContainerBuild
