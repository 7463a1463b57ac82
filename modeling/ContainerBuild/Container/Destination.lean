import ContainerBuild.BuildError
import ContainerBuild.Text

/-!
# Where a file is copied to

The path of a file inside a container is a directory and a name in it. The path is cut at its
slashes. A piece that is empty or a single dot names nothing, the piece before the first slash
excepted, and such pieces at the end of the path or of the directory are dropped; the others stay as
they were written.
-/

namespace ContainerBuild

/-- A directory inside a container and the name of a file in it. -/
structure Destination where
  directory : String
  name : String
  deriving DecidableEq, Repr

namespace Destination

inductive Flaw
  | namesDirectory
  | noName
  deriving DecidableEq, Repr

def Flaw.reason (path : String) : Flaw → String
  | namesDirectory => "destination '" ++ path ++ "' names a directory, not a file"
  | noName => "destination '" ++ path ++ "' has no file name"

def isVoid (piece : List Char) : Bool :=
  piece == [] || piece == ['.']

def dropVoidEnd (pieces : List (List Char)) : List (List Char) :=
  (pieces.reverse.dropWhile isVoid).reverse

def isName (piece : List Char) : Bool :=
  !isVoid piece && piece != ['.', '.']

/-- The directory made of the pieces; nothing at all stands for the root. -/
def directoryOf (pieces : List (List Char)) : List Char :=
  let text := ['/'].intercalate pieces
  if text.isEmpty then ['/'] else text

/-- The directory and the name from the piece before the first slash and the pieces after it. -/
def ofPieces (first : List Char) (rest : List (List Char)) :
    Except Flaw (List Char × List Char) :=
  match (dropVoidEnd rest).reverse with
  | name :: before =>
    if isName name then .ok (directoryOf (first :: dropVoidEnd before.reverse), name)
    else .error .noName
  | [] => if isName first then .ok (['/'], first) else .error .noName

def ofChars (cs : List Char) : Except Flaw (List Char × List Char) :=
  if cs.getLast? = some '/' then .error .namesDirectory
  else
    match Text.splitChars '/' cs with
    | first :: rest => ofPieces first rest
    | [] => .error .noName

def parse (path : String) : Outcome Destination :=
  match ofChars path.toList with
  | .ok (directory, name) => .ok ⟨String.ofList directory, String.ofList name⟩
  | .error flaw => .error (.archive (flaw.reason path))

end Destination
end ContainerBuild
