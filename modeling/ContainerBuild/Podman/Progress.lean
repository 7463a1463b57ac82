import ContainerBuild.Json.Record

/-!
# Progress of long work

While it works, a daemon writes one record after another, each with a text for the log or with an
error. The log is these texts, each ended by a line feed; the first error ends it.
-/

namespace ContainerBuild
namespace Podman

structure ProgressRecord where
  stream : Option String
  status : Option String
  error : Option String
  deriving DecidableEq, Repr

namespace ProgressRecord

def fields : Json.Fields ProgressRecord :=
  ((Json.Fields.optionalTail ["stream"] Json.Decode.text).and
    ((Json.Fields.optionalTail ["status"] Json.Decode.text).and
      (Json.Fields.optionalTail ["error"] Json.Decode.text))).map
    fun (stream, status, error) => ⟨stream, status, error⟩

def text? (r : ProgressRecord) : Option String :=
  match r.stream with
  | some s => some s
  | none => r.status

/-- The error, if it says anything. -/
def error? (r : ProgressRecord) : Option String :=
  r.error.filter fun e => !e.isEmpty

end ProgressRecord

/-- A text ended by a line feed. -/
def ended (s : String) : String :=
  if s.toList.getLast? = some '\n' then s else s ++ "\n"

def logOf : List ProgressRecord → Except String String
  | [] => .ok ""
  | r :: rs =>
    match r.error? with
    | some e => .error e
    | none => (logOf rs).map fun rest => ((r.text?.map ended).getD "") ++ rest

/-- The records that stand one after another with blanks between them, up to the first text that is
none; and whether there was such a text. -/
def readRecords : Nat → Bytes → List ProgressRecord × Option Json.Fault
  | 0, b => ([], some (.broken ⟨b⟩))
  | fuel + 1, b =>
    let b := Json.skipSpace b
    if b.isEmpty then ([], none)
    else
      let (r, after) := Json.scan b
      match ProgressRecord.fields.decode r, after with
      | .ok record, .ok rest =>
        let (records, fault) := readRecords fuel rest
        (record :: records, fault)
      | .ok _, .error e => ([], some (.broken e))
      | .error fault, _ => ([], some fault)

/-- The log of a progress stream, or its first error. A text that is no record counts as one. -/
def progressLog (body : Bytes) : Except String String :=
  let (records, fault) := readRecords (body.length + 1) body
  match fault with
  | none => logOf records
  | some fault =>
    match logOf records with
    | .error e => .error e
    | .ok _ => .error ("unreadable progress stream: " ++ fault.text)

end Podman
end ContainerBuild
