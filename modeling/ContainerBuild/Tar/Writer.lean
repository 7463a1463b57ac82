import ContainerBuild.FilePath
import ContainerBuild.Tar.Header

/-!
# Writing archives

A member is a file, a directory or a symbolic link. Its name must be relative, must not lead upwards
and is written with single slashes. A name or a link that is too long for its field goes before its
member, in a member of its own, and the header has the beginning of it.
-/

namespace ContainerBuild
namespace Tar

inductive Content
  | file (data : Bytes)
  | directory
  | link (target : Bytes)
  deriving DecidableEq, Repr

structure Member where
  name : Bytes
  mode : Nat
  content : Content
  deriving DecidableEq, Repr

inductive Flaw
  | absolute
  | upward
  | empty
  | tooLong
  | zeroByte
  deriving DecidableEq, Repr

def Flaw.reason : Flaw → String
  | absolute => "paths in archives must be relative"
  | upward => "paths in archives must not lead upwards"
  | empty => "paths in archives must have at least one component"
  | tooLong => "provided value is too long"
  | zeroByte => "provided value contains a nul byte"

def append (written more : Bytes) : Except Flaw Bytes :=
  if nameWidth < written.length + more.length then .error .tooLong
  else if more.contains 0 then .error .zeroByte
  else .ok (written ++ more)

/-- Adds the steps of a name, each after a slash but the first. `cut` says that the name is only the
beginning of one, whose last step may be more than it seems; `alone` that it has one step. -/
def appendSteps (cut alone : Bool) : Bytes → List FilePath.Component → Except Flaw Bytes
  | written, [] => .ok written
  | written, c :: rest =>
    match c with
    | .root => .error .absolute
    | .up =>
      if cut && rest.isEmpty then step written FilePath.dotDot rest else .error .upward
    | .here => if alone then step written FilePath.dot rest else appendSteps cut alone written rest
    | .name n => step written n rest
where
  step (written n : Bytes) (rest : List FilePath.Component) : Except Flaw Bytes := do
    let written ← if written.isEmpty then .ok written else append written [FilePath.slash]
    let written ← append written n
    appendSteps cut alone written rest

/-- A name as its field holds it. A slash at the end stays. -/
def nameField (cut : Bool) (name : Bytes) : Except Flaw Bytes := do
  let steps := FilePath.components name
  let written ← appendSteps cut (steps.length == 1) [] steps
  if written.isEmpty then throw .empty
  if name.getLast? == some FilePath.slash then append written [FilePath.slash] else return written

/-- The longest beginning of at most `nameWidth` bytes that is well-formed text as far as it goes. -/
def cutName (name : Bytes) : Bytes :=
  let start := name.take nameWidth
  let whole := ((Utf8.scan start).takeWhile Option.isSome).filterMap id
  Utf8.encode (String.ofList whole)

/-- The steps of a link as its field holds them, as far as they fit, and whether all of them do. -/
def fillLink : Bytes → Bool → List FilePath.Component → Bytes × Bool
  | written, _, [] => (written, true)
  | written, needsSlash, c :: rest =>
    match if needsSlash then append written [FilePath.slash] else .ok written with
    | .error _ => (written, false)
    | .ok written =>
      match append written c.bytes with
      | .error _ => (written, false)
      | .ok written => fillLink written (c != .root) rest

/-- A link as its field holds it, and whether that is the whole of it. -/
def linkField (target : Bytes) : Bytes × Bool :=
  let (written, whole) := fillLink [] false (FilePath.components target)
  if !whole then (written, false)
  else if target.getLast? == some FilePath.slash then
    match append written [FilePath.slash] with
    | .ok written => (written, true)
    | .error _ => (written, false)
  else (written, true)

def blocks (data : Bytes) : Bytes :=
  data ++ List.replicate (padded data.length - data.length) 0

def longText (kind : UInt8) (text : Bytes) : Bytes :=
  Header.render ⟨Utf8.encode "././@LongLink", 0o644, text.length + 1, kind, []⟩ ++
    blocks (text ++ [0])

/-- What goes before a member for its name, and the name in its header. -/
def nameParts (name : Bytes) : Except Flaw (Bytes × Bytes) :=
  match nameField false name with
  | .ok written => .ok ([], written)
  | .error flaw =>
    if name.length < nameWidth then .error flaw
    else (nameField true (cutName name)).map fun written => (longText Kind.longName name, written)

def linkParts (target : Bytes) : Bytes × Bytes :=
  let (written, whole) := linkField target
  if whole then ([], written) else (longText Kind.longLink target, written)

namespace Member

def data (m : Member) : Bytes :=
  match m.content with
  | .file data => data
  | _ => []

def kind (m : Member) : UInt8 :=
  match m.content with
  | .file _ => Kind.regular
  | .directory => Kind.directory
  | .link _ => Kind.symbolicLink

def render (m : Member) : Except Flaw Bytes := do
  let (before, name) ← nameParts m.name
  let (linkBefore, link) := match m.content with
    | .link target => linkParts target
    | _ => ([], [])
  return before ++ linkBefore ++ Header.render ⟨name, m.mode, m.data.length, m.kind, link⟩ ++
    blocks m.data

end Member

def ending : Bytes := List.replicate (2 * blockSize) 0

def renderAll : List Member → Except Flaw Bytes
  | [] => .ok []
  | m :: ms => do
    let first ← m.render
    let rest ← renderAll ms
    return first ++ rest

def write (ms : List Member) : Except Flaw Bytes := do
  let body ← renderAll ms
  return body ++ ending

end Tar
end ContainerBuild
