import ContainerBuild.Bytes

/-!
# File paths

A path is cut at its slashes. Of its pieces the empty ones count for nothing, a single dot stands for
the place itself and two dots for the directory around it. A piece that is none of these is a name.
-/

namespace ContainerBuild

abbrev Name := Bytes

namespace FilePath

def slash : UInt8 := 0x2F

def dot : Name := [0x2E]

def dotDot : Name := [0x2E, 0x2E]

def isAbsolute (path : Bytes) : Bool :=
  path.head? == some slash

def pieces (path : Bytes) : List Name :=
  (Bytes.split slash path).filter fun piece => !piece.isEmpty

inductive Component
  | root
  /-- The place itself; only at the start of a path. -/
  | here
  | up
  | name (n : Name)
  deriving DecidableEq, Repr

def Component.ofPiece (piece : Name) : Component :=
  if piece = dotDot then .up else .name piece

def Component.bytes : Component → Bytes
  | root => [slash]
  | here => dot
  | up => dotDot
  | name n => n

/-- The steps of a path. A single dot is a step only at the start of a path that is not absolute. -/
def components (path : Bytes) : List Component :=
  let steps (l : List Name) := (l.filter (· != dot)).map Component.ofPiece
  if isAbsolute path then .root :: steps (pieces path)
  else
    match pieces path with
    | first :: rest => if first = dot then .here :: steps rest else steps (first :: rest)
    | [] => []

/-- The pieces of a path as a walk takes them: a slash at the end asks for a directory. -/
def walk (path : Bytes) : List Name :=
  pieces path ++ (if path.getLast? == some slash then [dot] else [])

theorem components_nil : components [] = [] := rfl

end FilePath
end ContainerBuild
