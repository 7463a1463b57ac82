import ContainerBuild.Text

/-!
# Places in a YAML text

A cursor is what remains of a text together with its line, column and index. Lines end at a line
feed, a carriage return, both in this order, or one of the three Unicode line separators.
-/

namespace ContainerBuild
namespace Yaml

structure Cursor where
  rest : List Char
  line : Nat
  column : Nat
  index : Nat

def isBlank (c : Char) : Bool := c == ' ' || c == '\t'

def isBreak (c : Char) : Bool :=
  c == '\n' || c == '\r' || c == '\u0085' || c == '\u2028' || c == '\u2029'

def atGap : List Char → Bool
  | [] => true
  | c :: _ => isBlank c || isBreak c

def atLineEnd : List Char → Bool
  | [] => true
  | c :: _ => isBreak c

def atMarker : List Char → Bool
  | '-' :: '-' :: '-' :: rest => atGap rest
  | '.' :: '.' :: '.' :: rest => atGap rest
  | _ => false

def isAllowed (c : Char) : Bool :=
  let n := c.toNat
  n == 0x09 || n == 0x0A || n == 0x0D || (0x20 ≤ n && n ≤ 0x7E) || n == 0x85 ||
    (0xA0 ≤ n && n ≤ 0xD7FF) || (0xE000 ≤ n && n ≤ 0xFFFD) || 0x10000 ≤ n

def isWordChar (c : Char) : Bool :=
  c.isAlphanum || c == '_' || c == '-'

namespace Cursor

def start (cs : List Char) : Cursor := ⟨cs, 0, 0, 0⟩

def advance (c : Cursor) (n : Nat) : Cursor :=
  ⟨c.rest.drop n, c.line, c.column + n, c.index + n⟩

/-- Goes to the next line; the line break is what the text has there, with the usual ones as a line
feed. -/
def nextLine (c : Cursor) : List Char × Cursor :=
  match c.rest with
  | '\r' :: '\n' :: rest => (['\n'], ⟨rest, c.line + 1, 0, c.index + 2⟩)
  | b :: rest =>
    (if b == '\u2028' || b == '\u2029' then [b] else ['\n'], ⟨rest, c.line + 1, 0, c.index + 1⟩)
  | [] => ([], c)

def takeWhile (p : Char → Bool) (c : Cursor) : List Char × Cursor :=
  let taken := c.rest.takeWhile p
  (taken, c.advance taken.length)

def skipBlanks (c : Cursor) : Cursor :=
  (c.takeWhile isBlank).2

def atMarker (c : Cursor) : Bool :=
  c.column == 0 && Yaml.atMarker c.rest

end Cursor
end Yaml
end ContainerBuild
