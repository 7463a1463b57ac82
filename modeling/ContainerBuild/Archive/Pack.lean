import ContainerBuild.BuildError
import ContainerBuild.FileTree
import ContainerBuild.Tar.Writer

/-!
# Packing

Archives carry files into containers and contexts into builds. An archive of one file has a member
with the name it is to have there. An archive of a directory has a member for everything below it,
each directory right before what it holds and neighbours in the order of their names.
-/

namespace ContainerBuild
namespace Archive

def ofMembers (members : List Tar.Member) : Outcome Bytes :=
  (Tar.write members).mapError fun flaw => .archive flaw.reason

def fileMode : Nat := 0o755

def dockerfileMode : Nat := 0o644

def dockerfileName : String := "Dockerfile"

def fileMember (name : String) (mode : Nat) (data : Bytes) : Tar.Member :=
  ⟨Utf8.encode name, mode, .file data⟩

def ofBytes (data : Bytes) (name : String) : Outcome Bytes :=
  ofMembers [fileMember name fileMode data]

def ofText (content name : String) : Outcome Bytes :=
  ofBytes (Utf8.encode content) name

def ofFile (t : FileTree) (path : List Name) (name : String) : Outcome Bytes :=
  match t.stat path with
  | .error fault => throw (.io (.system fault))
  | .ok (.file _ data) => ofBytes data name
  | .ok _ => throw (.archive SystemFault.isADirectory.text)

/-- The name of a member for a place below the packed directory. -/
def memberName (p : Place) : Bytes :=
  [FilePath.slash].intercalate p

def fileKind : Nat := 0o100000

def directoryKind : Nat := 0o40000

def linkMode : Nat := 0o120777

def memberOf (p : Place) : FileNode → Tar.Member
  | .file mode data => ⟨memberName p, fileKind + mode, .file data⟩
  | .directory mode => ⟨memberName p, directoryKind + mode, .directory⟩
  | .link target => ⟨memberName p, linkMode, .link target⟩

def treeMembers (t : FileTree) (root : List Name) : Outcome (List Tar.Member) :=
  match t.canonical root with
  | .error fault => throw (.archive fault.text)
  | .ok p => return (t.below p).map fun (q, n) => memberOf q n

def ofDirectory (t : FileTree) (root : List Name) : Outcome Bytes := do
  ofMembers (← treeMembers t root)

/-- The context of a build: what lies below a directory, if there is one, and the build description,
which takes the place of one that lies there. -/
def buildContext (dockerfile : Bytes) (context : Option (FileTree × List Name)) : Outcome Bytes := do
  let members ← match context with
    | some (t, root) => treeMembers t root
    | none => pure []
  let others := members.filter fun m => m.name != Utf8.encode dockerfileName
  ofMembers (others ++ [fileMember dockerfileName dockerfileMode dockerfile])

@[simp] theorem memberOf_name (p : Place) (n : FileNode) : (memberOf p n).name = memberName p := by
  cases n <;> rfl

end Archive
end ContainerBuild
