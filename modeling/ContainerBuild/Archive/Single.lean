import ContainerBuild.BuildError
import ContainerBuild.Tar.Reader

/-!
# Archives of one file

A file that comes out of a container is the first member of an archive. It must be a regular file of
bounded size.
-/

namespace ContainerBuild
namespace Archive

def maxFileSize : Nat := 256 * 1024 * 1024

/-- The kinds of members that hold the bytes of a file. -/
def isFileKind (kind : UInt8) : Bool :=
  kind == 0 || kind == Tar.Kind.regular || kind == Tar.Kind.continuous

/-- The bytes of the first member. -/
def firstFile (archive : Bytes) : Outcome Bytes :=
  match Tar.nextEntry (Source.ofBytes archive) with
  | .ended => throw (.archive "archive is empty")
  | .broken => throw (.archive "unreadable member")
  | .member (e, _) =>
    let path := Utf8.decodeLossy e.name
    if !isFileKind e.block.kind then throw (.notRegularFile path)
    else if maxFileSize < e.size then
      throw (.archive (path ++ " is " ++ toString e.size ++ " bytes, limit is " ++
        toString maxFileSize))
    else return e.data.1

end Archive
end ContainerBuild
