import ContainerBuild.Bytes
import ContainerBuild.Container.Report
import ContainerBuild.Text

/-!
# The table of images

Each image has a line with the beginning of its identifier, its size and its names. The beginning is
counted in bytes, so it may end inside a character; then there is no line for the image and the table
ends before it.
-/

namespace ContainerBuild
namespace CommandLine

/-- What identifiers begin with that tells nothing. -/
def digestStem : String := "sha256:"

def shownBytes : Nat := 12

def shortId? (id : String) : Option String :=
  Utf8.decode? ((Utf8.encode (Text.dropAllPrefixes digestStem id)).take shownBytes)

def line (id size tags : String) : String :=
  Text.padRight 20 id ++ " " ++ Text.padLeft 12 size ++ "  " ++ tags ++ "\n"

def header : String := line "ID" "SIZE" "TAGS"

def row? (i : ImageSummary) : Option String :=
  (shortId? i.id).map fun id => line id (toString i.size) (Text.join ", " i.repoTags)

/-- The lines of the images, and whether every image has one. -/
def rows : List ImageSummary → String × Bool
  | [] => ("", true)
  | i :: is =>
    match row? i with
    | none => ("", false)
    | some row =>
      let (more, complete) := rows is
      (row ++ more, complete)

@[simp] theorem rows_nil : rows [] = ("", true) := rfl

end CommandLine
end ContainerBuild
