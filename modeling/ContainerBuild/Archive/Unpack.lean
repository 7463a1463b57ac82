import ContainerBuild.BuildError
import ContainerBuild.FileTree
import ContainerBuild.Gzip
import ContainerBuild.Tar.Reader

/-!
# Unpacking

The members of an archive are put below a directory one after another. A name that is absolute or
leads upwards stops the unpacking before its member has any effect. The directory around a member must
lie in the chosen directory after all links are followed, links made by earlier members included, and
so must the file that a hard link names.

What was unpacked before a failure stays.
-/

namespace ContainerBuild
namespace Archive

/-- A change of the file tree that may fail. What was changed before stays. -/
abbrev Change (α : Type) := ExceptT BuildError (StateM FileTree) α

def apply (f : FileTree → Except SystemFault FileTree) : Change Unit := do
  match f (← get) with
  | .ok t => set t
  | .error fault => throw (.archive fault.text)

/-- Makes a directory with the directories around it. Those made before a failure stay. -/
def makeAll (report : SystemFault → BuildError) (names : List Name) : Change Unit := do
  let (made, t) := (← get).makeDirectories names
  set t
  match made with
  | .ok _ => pure ()
  | .error fault => throw (report fault)

/-- Whether a name is absolute or leads upwards. -/
def escapes (name : Bytes) : Bool :=
  (FilePath.components name).any fun c => c == .root || c == .up

def wayTo (name : Bytes) : List Name :=
  (FilePath.components name).filterMap fun c =>
    match c with
    | .name n => some n
    | _ => none

def liesIn (t : FileTree) (dest names : List Name) : Except SystemFault Bool := do
  let p ← t.canonical names
  let d ← t.canonical dest
  return d.isPrefixOf p

def requireInside (dest names : List Name) : Change Unit := do
  match liesIn (← get) dest names with
  | .error fault => throw (.archive fault.text)
  | .ok true => pure ()
  | .ok false => throw (.archive "trying to unpack outside of destination path")

def makeMissing (dest : List Name) : List (List Name) → Change Unit
  | [] => pure ()
  | names :: rest => do
    requireInside dest names.dropLast
    makeAll (fun fault => .archive fault.text) names
    makeMissing dest rest

/-- The beginnings of a way, longest first. -/
def beginnings (names : List Name) : List (List Name) :=
  (List.range (names.length + 1)).reverse.map fun n => names.take n

/-- Makes sure that there is something where the directory around a member must be. -/
def ensureAround (dest names : List Name) : Change Unit := do
  let t ← get
  let missing := (beginnings names).takeWhile fun n =>
    match t.linkStat n with
    | .ok _ => false
    | .error _ => true
  makeMissing dest missing.reverse

def applyMode (e : Tar.Entry) (names : List Name) : Change Unit :=
  match e.block.mode? with
  | some mode => apply fun t => t.setMode names mode
  | none => pure ()

/-- A directory that is there already is fine; a link to one is not. -/
def provideDirectory (t : FileTree) (names : List Name) : Except SystemFault FileTree :=
  match t.makeDirectory names with
  | .ok t => .ok t
  | .error fault =>
    match t.linkStat names with
    | .ok (.directory _) => if fault = .alreadyExists then .ok t else .error fault
    | _ => .error fault

def unpackDirectory (e : Tar.Entry) (names : List Name) : Change Unit := do
  apply fun t => provideDirectory t names
  applyMode e names

/-- Puts a node where there is none or only a file or a link. What was there is gone even if the node
cannot be put there then. -/
def replaceWith (names : List Name) (n : FileNode) : Change Unit := do
  match (← get).create names n with
  | .ok t => set t
  | .error fault =>
    if fault = .alreadyExists then do
      apply fun t => t.unlink names
      apply fun t => t.create names n
    else throw (.archive fault.text)

def maxTarget : Nat := 4095

def unpackLink (names : List Name) (target : Bytes) : Change Unit :=
  if target.contains 0 then throw (.archive SystemFault.invalidArgument.text)
  else if maxTarget < target.length then throw (.archive SystemFault.nameTooLong.text)
  else replaceWith names (.link target)

def hardLinkSource (dest : Place) (target : Bytes) : List Name :=
  if FilePath.isAbsolute target then FilePath.walk target else dest ++ FilePath.walk target

def unpackHardLink (dest names : List Name) (target : Bytes) : Change Unit := do
  match (← get).canonical dest with
  | .error fault => throw (.archive fault.text)
  | .ok d =>
    let source := hardLinkSource d target
    requireInside d source
    apply fun t => t.hardLink source names

/-- A file whose data end too soon is left as far as it goes. -/
def unpackFile (e : Tar.Entry) (names : List Name) : Change Unit := do
  let (data, whole) := e.data
  replaceWith names (.file FileTree.newFileMode data)
  if !whole then throw (.archive "failed to write entire file")
  applyMode e names

/-- Kinds of members that only say something of others. -/
def isRemark (kind : UInt8) : Bool :=
  kind == Tar.Kind.globalExtended || kind == Tar.Kind.extended || kind == Tar.Kind.longName ||
    kind == Tar.Kind.longLink

/-- In archives without the standard header, a name with a slash at its end is a directory. -/
def isOldDirectory (e : Tar.Entry) : Bool :=
  !e.block.isStandard && e.name.getLast? == some FilePath.slash

def place (e : Tar.Entry) (dest names : List Name) : Change Unit :=
  let kind := e.block.kind
  if kind == Tar.Kind.directory then unpackDirectory e names
  else if kind == Tar.Kind.hardLink || kind == Tar.Kind.symbolicLink then
    match e.link? with
    | none => throw (.archive "no link name found")
    | some target =>
      if target.isEmpty then throw (.archive "link name is empty")
      else if kind == Tar.Kind.hardLink then unpackHardLink dest names target
      else unpackLink names target
  else if isRemark kind then pure ()
  else if isOldDirectory e then unpackDirectory e names
  else unpackFile e names

/-- Unpacks one member below the directory. A name without any step is passed over. -/
def unpackEntry (dest : List Name) (e : Tar.Entry) : Change Unit := do
  if escapes e.name then throw (.pathTraversal (Utf8.decodeLossy e.name))
  let way := wayTo e.name
  if way.isEmpty then pure ()
  else do
    let around := dest ++ way.dropLast
    ensureAround dest around
    requireInside dest around
    place e dest (dest ++ way)

def unpackEntries (dest : List Name) : List Tar.Entry → Change Unit
  | [] => pure ()
  | e :: es => do
    unpackEntry dest e
    unpackEntries dest es

/-- Unpacks an archive, which may be compressed, below a directory, which is made if it is missing. -/
def unpack (dest : List Name) (archive : Bytes) : Change Unit := do
  makeAll (fun fault => .io (.system fault)) dest
  let (entries, whole) := Tar.entries (Gzip.source archive)
  unpackEntries dest entries
  if !whole then throw (.archive "unreadable member")

def extract (t : FileTree) (dest : List Name) (archive : Bytes) : Outcome Unit × FileTree :=
  (unpack dest archive).run t

end Archive
end ContainerBuild
