/-!
# Text

Strings are cut, trimmed and folded here. Every operation is first given on the list of characters,
where it is a plain recursion, and then on strings through `String.ofList` and `String.toList`.

Blanks are the characters with the Unicode property White_Space. Case folding is ASCII only: it
changes the twenty-six letters and leaves every other character alone.
-/

namespace ContainerBuild
namespace Text

/-- A character with the Unicode property White_Space. -/
def isBlank (c : Char) : Bool :=
  let n := c.toNat
  (0x9 ≤ n && n ≤ 0xD) || n == 0x20 || n == 0x85 || n == 0xA0 || n == 0x1680 ||
    (0x2000 ≤ n && n ≤ 0x200A) || n == 0x2028 || n == 0x2029 || n == 0x202F || n == 0x205F ||
    n == 0x3000

def trimStartChars (cs : List Char) : List Char :=
  cs.dropWhile isBlank

def trimEndChars (cs : List Char) : List Char :=
  (cs.reverse.dropWhile isBlank).reverse

def trimChars (cs : List Char) : List Char :=
  trimEndChars (trimStartChars cs)

def trim (s : String) : String :=
  String.ofList (trimChars s.toList)

@[simp] theorem toList_trim (s : String) : (trim s).toList = trimChars s.toList :=
  String.toList_ofList

/-- The pieces between the separators, in order; there is one more piece than separators. -/
def splitChars (sep : Char) : List Char → List (List Char)
  | [] => [[]]
  | c :: cs =>
    if c = sep then [] :: splitChars sep cs
    else
      match splitChars sep cs with
      | [] => [[c]]
      | piece :: pieces => (c :: piece) :: pieces

@[simp] theorem splitChars_nil (sep : Char) : splitChars sep [] = [[]] := rfl

theorem splitChars_ne_nil (sep : Char) (cs : List Char) : splitChars sep cs ≠ [] := by
  cases cs with
  | nil => simp
  | cons c cs =>
    rw [splitChars]
    split
    · simp
    · split <;> simp

def split (sep : Char) (s : String) : List String :=
  (splitChars sep s.toList).map String.ofList

def splitFirstChars (sep : Char) : List Char → Option (List Char × List Char)
  | [] => none
  | c :: cs =>
    if c = sep then some ([], cs)
    else (splitFirstChars sep cs).map fun (before, after) => (c :: before, after)

def splitFirst (sep : Char) (s : String) : Option (String × String) :=
  (splitFirstChars sep s.toList).map fun (before, after) =>
    (String.ofList before, String.ofList after)

def splitLastChars (sep : Char) (cs : List Char) : Option (List Char × List Char) :=
  (splitFirstChars sep cs.reverse).map fun (after, before) => (before.reverse, after.reverse)

def splitLast (sep : Char) (s : String) : Option (String × String) :=
  (splitLastChars sep s.toList).map fun (before, after) =>
    (String.ofList before, String.ofList after)

def dropPrefixChars : List Char → List Char → Option (List Char)
  | [], cs => some cs
  | _ :: _, [] => none
  | p :: ps, c :: cs => if p = c then dropPrefixChars ps cs else none

def dropPrefix? (start s : String) : Option String :=
  (dropPrefixChars start.toList s.toList).map String.ofList

def dropAllPrefixesChars (start cs : List Char) : List Char :=
  match dropPrefixChars start cs with
  | none => cs
  | some rest => if _h : rest.length < cs.length then dropAllPrefixesChars start rest else cs
termination_by cs.length

def dropAllPrefixes (start s : String) : String :=
  String.ofList (dropAllPrefixesChars start.toList s.toList)

def startsWith (start s : String) : Bool :=
  (dropPrefixChars start.toList s.toList).isSome

def endsWith (ending s : String) : Bool :=
  (dropPrefixChars ending.toList.reverse s.toList.reverse).isSome

def containsChars (part : List Char) : List Char → Bool
  | [] => part.isEmpty
  | c :: cs => (dropPrefixChars part (c :: cs)).isSome || containsChars part cs

def trimStartOf (c : Char) (s : String) : String :=
  String.ofList (s.toList.dropWhile (· == c))

def lowerAscii (s : String) : String :=
  String.ofList (s.toList.map Char.toLower)

def join (sep : String) (texts : List String) : String :=
  sep.intercalate texts

/-- The lines of a text: each ends at a line feed, a carriage return right before it belongs to the
line break, and there is no empty line after the last break. -/
def lines (s : String) : List String :=
  let pieces := splitChars '\n' s.toList
  let closed := pieces.dropLast.map fun cs =>
    match cs.getLast? with
    | some '\r' => cs.dropLast
    | _ => cs
  let last := (pieces.getLast?.getD [])
  (closed ++ (if last.isEmpty then [] else [last])).map String.ofList

def padRight (width : Nat) (s : String) : String :=
  s ++ String.ofList (List.replicate (width - s.length) ' ')

def padLeft (width : Nat) (s : String) : String :=
  String.ofList (List.replicate (width - s.length) ' ') ++ s

end Text
end ContainerBuild
