import ContainerBuild.Http.Percent
import ContainerBuild.Text

/-!
# Targets made of plain text

The name of a container or an image may be put into a path as it is. The path is then read as a
reference is: what comes after a question mark is a query, what comes after a number sign is dropped,
a segment of one or two full stops leads nowhere or up, and characters that cannot stand in a path are
percent encoded.
-/

namespace ContainerBuild
namespace Http
namespace Target

def isPathByte (b : UInt8) : Bool :=
  0x20 < b && b < 0x7F && !(Utf8.encode "\"#<>?`\x7b\x7d").contains b

def encodePathByte (b : UInt8) : List Char :=
  if isPathByte b then [Char.ofNat b.toNat] else '%' :: Bytes.hexPair true b

def encodePath (s : String) : String :=
  String.ofList ((Utf8.encode s).flatMap encodePathByte)

def isDot (segment : String) : Bool :=
  [".", "%2e"].contains (Text.lowerAscii segment)

def isDotDot (segment : String) : Bool :=
  ["..", ".%2e", "%2e.", "%2e%2e"].contains (Text.lowerAscii segment)

/-- Follows segments from the ones that lead to the place reached so far, the last of which come
first. -/
def follow : List String → List String → List String
  | reached, [] => reached
  | reached, [last] =>
    if isDotDot last then "" :: reached.tail
    else if isDot last then "" :: reached
    else last :: reached
  | reached, segment :: rest =>
    if isDotDot segment then follow reached.tail rest
    else if isDot segment then follow reached rest
    else follow (segment :: reached) rest

/-- Characters that are passed over wherever they stand. -/
def isIgnored (c : Char) : Bool :=
  c == '\t' || c == '\n' || c == '\r'

/-- A blank or a control character, which counts neither at the start nor at the end. -/
def isEdge (c : Char) : Bool :=
  c.toNat ≤ 0x20

def trimEdges (cs : List Char) : List Char :=
  ((cs.dropWhile isEdge).reverse.dropWhile isEdge).reverse

def path (reference : String) : String :=
  let cs := (trimEdges reference.toList).filter fun c => !isIgnored c
  let cs := cs.takeWhile fun c => c != '?' && c != '#'
  let segments := (Text.split '/' (String.ofList (cs.drop 1))).map encodePath
  "/" ++ Text.join "/" (follow [] segments).reverse

def make (reference : String) (params : List (String × String)) : String :=
  path reference ++ Percent.query params

end Target
end Http
end ContainerBuild
