import ContainerBuild.Dictionary
import ContainerBuild.FilePath
import ContainerBuild.SystemFault

/-!
# File trees

A file tree gives a node to each place: a file with its permissions and data, a directory, or a
symbolic link. A place is the list of the names that lead to it from the root, which is always a
directory. In the order of places a directory comes right before everything below it, and what lies
in one directory is ordered by the bytes of the names.

The operations are those of the system: a path is followed name by name and through the links on it,
at most forty of them.
-/

namespace ContainerBuild

/-- The names that lead from the root to a place. -/
abbrev Place := List Name

inductive FileNode
  | file (mode : Nat) (data : Bytes)
  | directory (mode : Nat)
  | link (target : Bytes)
  deriving DecidableEq, Repr

abbrev FileContent := Except SystemFault Bytes

structure FileTree where
  nodes : Dictionary Place FileNode

namespace FileTree

def empty : FileTree := ⟨Dictionary.empty⟩

/-- The permissions of what is made without saying any. -/
def newFileMode : Nat := 0o644

def newDirectoryMode : Nat := 0o755

def node? (t : FileTree) (p : Place) : Option FileNode :=
  if p.isEmpty then some (.directory newDirectoryMode) else t.nodes.get? p

def set (t : FileTree) (p : Place) (n : FileNode) : FileTree :=
  ⟨t.nodes.insert p n⟩

def remove (t : FileTree) (p : Place) : FileTree :=
  ⟨t.nodes.erase p⟩

def isDirectoryAt (t : FileTree) (p : Place) : Bool :=
  match t.node? p with
  | some (.directory _) => true
  | _ => false

/-- What lies below a place, in order, with the names that lead there from it. -/
def below (t : FileTree) (p : Place) : List (Place × FileNode) :=
  t.nodes.entries.filterMap fun (q, n) =>
    if p.isPrefixOf q && q.length > p.length then some (q.drop p.length, n) else none

/-- Where following a path leads: to the end of it, or to a link on it. -/
inductive Step
  | arrived (p : Place)
  | link (dir : Place) (rest : List Name)

def maxName : Nat := 255

/-- Follows the names from a directory as far as the next link. A link at the end counts only with
`through`. A name that nothing has can only be the last one. -/
def advance (t : FileTree) (through : Bool) : Place → List Name → Except SystemFault Step
  | dir, [] => .ok (.arrived dir)
  | dir, n :: rest =>
    if !t.isDirectoryAt dir then .error .notADirectory
    else if n = FilePath.dot then advance t through dir rest
    else if n = FilePath.dotDot then advance t through dir.dropLast rest
    else if n.contains 0 then .error .invalidArgument
    else if maxName < n.length then .error .nameTooLong
    else
      match t.node? (dir ++ [n]) with
      | none => if rest.isEmpty then .ok (.arrived (dir ++ [n])) else .error .notFound
      | some (.link target) =>
        if rest.isEmpty && !through then .ok (.arrived (dir ++ [n]))
        else
          .ok (.link (if FilePath.isAbsolute target then [] else dir) (FilePath.walk target ++ rest))
      | some _ => advance t through (dir ++ [n]) rest

/-- The number of links that one path may lead through. -/
def maxLinks : Nat := 40

/-- Follows the names from a directory through a number of links. -/
def followFrom (t : FileTree) (through : Bool) : Nat → Place → List Name → Except SystemFault Place
  | links, dir, names =>
    match t.advance through dir names with
    | .error fault => .error fault
    | .ok (.arrived p) => .ok p
    | .ok (.link dir rest) =>
      match links with
      | 0 => .error .tooManyLinks
      | links + 1 => followFrom t through links dir rest

/-- The place that the names lead to from the root. Nothing needs to be there. -/
def follow (t : FileTree) (through : Bool) (names : List Name) : Except SystemFault Place :=
  t.followFrom through maxLinks [] names

/-- The place of what is there, with all links followed. -/
def canonical (t : FileTree) (names : List Name) : Except SystemFault Place := do
  let p ← t.follow true names
  if (t.node? p).isSome then return p else throw .notFound

/-- What the names lead to, with a link at the end followed. -/
def stat (t : FileTree) (names : List Name) : Except SystemFault FileNode := do
  let p ← t.follow true names
  match t.node? p with
  | some n => return n
  | none => throw .notFound

def linkStat (t : FileTree) (names : List Name) : Except SystemFault FileNode := do
  let p ← t.follow false names
  match t.node? p with
  | some n => return n
  | none => throw .notFound

def read (t : FileTree) (names : List Name) : FileContent := do
  match ← t.stat names with
  | .file _ data => return data
  | _ => throw .isADirectory

def isDirectory (t : FileTree) (names : List Name) : Bool :=
  match t.stat names with
  | .ok (.directory _) => true
  | _ => false

/-- Puts a node where nothing is yet. -/
def create (t : FileTree) (names : List Name) (n : FileNode) : Except SystemFault FileTree := do
  let p ← t.follow false names
  match t.node? p with
  | some _ => throw .alreadyExists
  | none => return t.set p n

def makeDirectory (t : FileTree) (names : List Name) : Except SystemFault FileTree :=
  t.create names (.directory newDirectoryMode)

def unlink (t : FileTree) (names : List Name) : Except SystemFault FileTree := do
  let p ← t.follow false names
  match t.node? p with
  | none => throw .notFound
  | some (.directory _) => throw .isADirectory
  | some _ => return t.remove p

def hardLink (t : FileTree) (source names : List Name) : Except SystemFault FileTree := do
  let n ← t.linkStat source
  match n with
  | .directory _ => throw .notPermitted
  | n => t.create names n

def FileNode.withMode (mode : Nat) : FileNode → FileNode
  | .file _ data => .file mode data
  | .directory _ => .directory mode
  | .link target => .link target

/-- Sets the permissions of what the names lead to, through links. -/
def setMode (t : FileTree) (names : List Name) (mode : Nat) : Except SystemFault FileTree := do
  let p ← t.canonical names
  match t.node? p with
  | some n => return t.set p (FileNode.withMode (mode % 0o10000) n)
  | none => throw .notFound

def ensureDirectory (t : FileTree) (names : List Name) : Except SystemFault Unit × FileTree :=
  match t.makeDirectory names with
  | .ok t => (.ok (), t)
  | .error fault => if t.isDirectory names then (.ok (), t) else (.error fault, t)

/-- Makes a directory with the directories around it, innermost name first. What was made before a
failure stays. -/
def makeDirectoriesFrom (t : FileTree) : List Name → Except SystemFault Unit × FileTree
  | [] => (.ok (), t)
  | last :: before =>
    let names := (last :: before).reverse
    match t.makeDirectory names with
    | .ok t => (.ok (), t)
    | .error fault =>
      if fault = .notFound then
        match makeDirectoriesFrom t before with
        | (.ok _, t) => t.ensureDirectory names
        | (.error fault, t) => (.error fault, t)
      else if t.isDirectory names then (.ok (), t)
      else (.error fault, t)

def makeDirectories (t : FileTree) (names : List Name) : Except SystemFault Unit × FileTree :=
  t.makeDirectoriesFrom names.reverse

/-- The tree with a node, and with the directories around it as far as they are missing. Where a node
is in the way the tree stays as it is. -/
def put (t : FileTree) (names : List Name) (n : FileNode) : FileTree :=
  let around := match n with
    | .directory _ => names
    | _ => names.dropLast
  match t.makeDirectories around with
  | (.error _, _) => t
  | (.ok _, made) =>
    let changed := match n with
      | .directory mode => made.setMode names mode
      | n => made.create names n
    match changed with
    | .ok t => t
    | .error _ => t

@[simp] theorem node?_root (t : FileTree) : t.node? [] = some (.directory newDirectoryMode) := rfl

theorem node?_set {t : FileTree} {p q : Place} {n : FileNode} (h : q ≠ []) :
    (t.set p n).node? q = if p = q then some n else t.node? q := by
  simp [node?, set, h, Dictionary.get?_insert]

theorem node?_empty {p : Place} (h : p ≠ []) : empty.node? p = none := by
  simp [node?, empty, h]

end FileTree
end ContainerBuild
