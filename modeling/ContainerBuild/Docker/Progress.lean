import ContainerBuild.Docker.Client

/-!
# Progress of pulls, pushes and builds

While it works the daemon writes records with a text for the log or with an error. A pull and a push
end each text with a line feed, and a pull names the layer first. The texts of a build are taken as
they are.
-/

namespace ContainerBuild
namespace Docker

open Json (Fields)

structure ProgressRecord where
  id : Option String
  stream : Option String
  status : Option String
  error : Option String
  deriving DecidableEq, Repr

namespace ProgressRecord

def detailFields : Fields (Option Int × Option String) :=
  (Fields.optional "code" Json.Decode.int64).and (Fields.optional "message" Json.Decode.text)

def amountFields : Fields (Option Int × Option Int) :=
  (Fields.optional "current" Json.Decode.int64).and (Fields.optional "total" Json.Decode.int64)

def resultFields : Fields (Option String) := Fields.optional "ID" Json.Decode.text

def commonFields : Fields (Option String × Option String) :=
  ((Fields.optional "error" Json.Decode.text).and
    ((Fields.optional "errorDetail" detailFields.decode).and
      ((Fields.optional "status" Json.Decode.text).and
        ((Fields.optional "progress" Json.Decode.text).and
          (Fields.optional "progressDetail" amountFields.decode))))).map
    fun (error, _, status, _, _) => (error, status)

def pullFields : Fields ProgressRecord :=
  ((Fields.optional "id" Json.Decode.text).and commonFields).map
    fun (id, error, status) => ⟨id, none, status, error⟩

def pushFields : Fields ProgressRecord :=
  commonFields.map fun (error, status) => ⟨none, none, status, error⟩

def buildFields : Fields ProgressRecord :=
  ((Fields.optional "id" Json.Decode.text).and
    ((Fields.optional "stream" Json.Decode.text).and
      (commonFields.and (Fields.optional "aux" resultFields.decode)))).map
    fun (id, stream, (error, status), _) => ⟨id, stream, status, error⟩

def pullText (r : ProgressRecord) : String :=
  match r.status, r.id with
  | some status, some id => id ++ ": " ++ status ++ "\n"
  | some status, none => status ++ "\n"
  | none, _ => ""

def pushText (r : ProgressRecord) : String :=
  match r.status with
  | some status => status ++ "\n"
  | none => ""

def buildText (r : ProgressRecord) : String :=
  match r.stream with
  | some text => text
  | none => r.status.getD ""

end ProgressRecord

/-- The log of records, unless one of them reports an error or the stream ended too early. -/
def logOf (text : ProgressRecord → String) (last : Option Failure) :
    List ProgressRecord → Except Failure String
  | [] =>
    match last with
    | some f => .error f
    | none => .ok ""
  | r :: rs =>
    match r.error with
    | some e => .error (.reported e)
    | none => (logOf text last rs).map fun rest => text r ++ rest

end Docker
end ContainerBuild
