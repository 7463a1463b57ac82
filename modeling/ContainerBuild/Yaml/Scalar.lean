import ContainerBuild.Yaml.Cursor
import ContainerBuild.Json.Reading

/-!
# YAML scalars

A scalar is written plain, between quotes, or as a block of lines. Inside the first two, blanks and
line breaks between words are folded: blanks of one line stay, one line break becomes a blank, and of
several the first one goes. In a block the indentation goes, and its header says what becomes of the
line breaks.
-/

namespace ContainerBuild
namespace Yaml

inductive Style
  | plain
  | quoted
  | literal
  | folded
  deriving DecidableEq, Repr

/-- Blanks and line breaks between two words of a scalar. -/
structure Gap where
  blanks : List Char
  firstBreak : List Char
  moreBreaks : List Char
  broken : Bool

namespace Gap

def empty : Gap := ⟨[], [], [], false⟩

def folded (g : Gap) : List Char :=
  if g.broken then
    if g.firstBreak = ['\n'] then
      if g.moreBreaks.isEmpty then [' '] else g.moreBreaks
    else g.firstBreak ++ g.moreBreaks
  else g.blanks

/-- Reads on through blanks and line breaks. A tab may not take the place of the first `indent`
columns of a line. -/
def scan (indent : Int) : Nat → Gap → Cursor → Option (Gap × Cursor)
  | 0, g, c => some (g, c)
  | fuel + 1, g, c =>
    match c.rest with
    | [] => some (g, c)
    | x :: _ =>
      if isBlank x then
        if g.broken && x == '\t' && decide ((c.column : Int) < indent) then none
        else if g.broken then scan indent fuel g (c.advance 1)
        else scan indent fuel { g with blanks := g.blanks ++ [x] } (c.advance 1)
      else if isBreak x then
        let (text, c) := c.nextLine
        if g.broken then scan indent fuel { g with moreBreaks := g.moreBreaks ++ text } c
        else scan indent fuel ⟨[], text, [], true⟩ c
      else some (g, c)

end Gap

/-- What was scanned as a scalar, and where it ends. -/
structure Scanned where
  text : List Char
  style : Style
  cursor : Cursor
  atNewLine : Bool

def isFlowSign (c : Char) : Bool :=
  c == ',' || c == '[' || c == ']' || c == '{' || c == '}'

def plainWord (flow : Bool) : List Char → Option (List Char)
  | [] => some []
  | c :: cs =>
    if isBlank c || isBreak c then some []
    else if flow && c == ':' && (match cs with
      | d :: _ => isFlowSign d || d == '?'
      | [] => false) then none
    else if c == ':' && atGap cs then some []
    else if flow && isFlowSign c then some []
    else (plainWord flow cs).map (c :: ·)

/-- Reads a plain scalar from a word on. `indent` is the column that its further lines must reach. -/
def plainFrom (flow : Bool) (indent : Int) :
    Nat → List Char → Gap → Cursor → Option Scanned
  | 0, text, g, c => some ⟨text, .plain, c, g.broken⟩
  | fuel + 1, text, g, c =>
    if c.atMarker || c.rest.head? == some '#' then some ⟨text, .plain, c, g.broken⟩
    else
      match plainWord flow c.rest with
      | none => none
      | some word =>
        let text := if word.isEmpty then text else text ++ g.folded ++ word
        let g := if word.isEmpty then g else Gap.empty
        let c := c.advance word.length
        match c.rest with
        | [] => some ⟨text, .plain, c, g.broken⟩
        | x :: _ =>
          if isBlank x || isBreak x then
            match g.scan indent (c.rest.length + 1) c with
            | none => none
            | some (g, c) =>
              if !flow && decide ((c.column : Int) < indent) then
                some ⟨text, .plain, c, g.broken⟩
              else plainFrom flow indent fuel text g c
          else some ⟨text, .plain, c, g.broken⟩

def scanPlain (flow : Bool) (indent : Int) (c : Cursor) : Option Scanned :=
  plainFrom flow indent (c.rest.length + 1) [] Gap.empty c

def hexValue? (cs : List Char) : Option Nat :=
  cs.foldl (fun n c => do
    let n ← n
    let d ← if c.toNat < 128 then Json.hexValue? (UInt8.ofNat c.toNat) else none
    return n * 16 + d) (some 0)

def escapedNumber (digits : Nat) (cs : List Char) : Option (Char × Nat) := do
  if cs.length < digits then none
  let n ← hexValue? (cs.take digits)
  if (0xD800 ≤ n ∧ n ≤ 0xDFFF) ∨ 0x10FFFF < n then none
  return (Char.ofNat n, digits)

/-- The character that an escape stands for, and how many characters follow its letter. -/
def escaped (letter : Char) (cs : List Char) : Option (Char × Nat) :=
  match letter with
  | '0' => some ('\x00', 0)
  | 'a' => some ('\x07', 0)
  | 'b' => some ('\x08', 0)
  | 't' => some ('\t', 0)
  | '\t' => some ('\t', 0)
  | 'n' => some ('\n', 0)
  | 'v' => some ('\x0b', 0)
  | 'f' => some ('\x0c', 0)
  | 'r' => some ('\r', 0)
  | 'e' => some ('\x1b', 0)
  | ' ' => some (' ', 0)
  | '"' => some ('"', 0)
  | '/' => some ('/', 0)
  | '\\' => some ('\\', 0)
  | 'N' => some ('\u0085', 0)
  | '_' => some ('\u00a0', 0)
  | 'L' => some ('\u2028', 0)
  | 'P' => some ('\u2029', 0)
  | 'x' => escapedNumber 2 cs
  | 'u' => escapedNumber 4 cs
  | 'U' => escapedNumber 8 cs
  | _ => none

inductive WordEnd
  | gap
  | closed
  /-- A backslash before a line break, which joins the lines. -/
  | joined

/-- A word between quotes, its end, and the number of characters up to there. -/
def quotedWord (double : Bool) : Nat → List Char → Nat → Option (List Char × WordEnd × Nat)
  | 0, _, _ => none
  | fuel + 1, cs, n =>
    match cs with
    | [] => some ([], .gap, n)
    | c :: rest =>
      if isBlank c || isBreak c then some ([], .gap, n)
      else if !double && c == '\'' then
        match rest with
        | '\'' :: rest => (quotedWord double fuel rest (n + 2)).map fun (w, e) => ('\'' :: w, e)
        | _ => some ([], .closed, n)
      else if double && c == '"' then some ([], .closed, n)
      else if double && c == '\\' then
        match rest with
        | [] => none
        | letter :: rest =>
          if isBreak letter then some ([], .joined, n)
          else
            match escaped letter rest with
            | none => none
            | some (x, used) =>
              (quotedWord double fuel (rest.drop used) (n + 2 + used)).map fun (w, e) => (x :: w, e)
      else (quotedWord double fuel rest (n + 1)).map fun (w, e) => (c :: w, e)

def quotedFrom (double : Bool) : Nat → List Char → Cursor → Option Scanned
  | 0, _, _ => none
  | fuel + 1, text, c =>
    if c.atMarker || c.rest.isEmpty then none
    else
      match quotedWord double (c.rest.length + 1) c.rest 0 with
      | none => none
      | some (word, .closed, n) => some ⟨text ++ word, .quoted, c.advance (n + 1), false⟩
      | some (word, .gap, n) =>
        match Gap.empty.scan 0 (c.rest.length + 1) (c.advance n) with
        | none => none
        | some (g, c) => quotedFrom double fuel (text ++ word ++ g.folded) c
      | some (word, .joined, n) =>
        match (⟨[], [], [], true⟩ : Gap).scan 0 (c.rest.length + 1) (c.advance (n + 1)).nextLine.2 with
        | none => none
        | some (g, c) => quotedFrom double fuel (text ++ word ++ g.folded) c

def scanQuoted (double : Bool) (c : Cursor) : Option Scanned :=
  quotedFrom double (c.rest.length + 1) [] c

/-- What becomes of the line breaks at the end of a block. -/
inductive Chomping
  | strip
  | clip
  | keep
  deriving DecidableEq

def blockHeader (cs : List Char) : Option (Chomping × Nat × Nat) :=
  let sign? (c : Char) : Option Chomping :=
    if c == '+' then some .keep else if c == '-' then some .strip else none
  let digit? (c : Char) : Option Nat := if c.isDigit then some (c.toNat - '0'.toNat) else none
  match cs with
  | [] => some (.clip, 0, 0)
  | a :: rest =>
    match sign? a with
    | some chomping =>
      match rest.head?.bind digit? with
      | some 0 => none
      | some n => some (chomping, n, 2)
      | none => some (chomping, 0, 1)
    | none =>
      match digit? a with
      | some 0 => none
      | some n =>
        match rest.head?.bind sign? with
        | some chomping => some (chomping, n, 2)
        | none => some (.clip, n, 1)
      | none => some (.clip, 0, 0)

/-- Reads on through empty lines and the indentation of the next line. With `indent` zero any
indentation is taken. Gives the line breaks, the widest indentation and the place after it. -/
def blockBreaks (indent : Nat) : Nat → List Char → Nat → Cursor → Option (List Char × Nat × Cursor)
  | 0, breaks, widest, c => some (breaks, widest, c)
  | fuel + 1, breaks, widest, c =>
    let spaces := c.rest.takeWhile (· == ' ')
    let width := if indent = 0 then spaces.length else min spaces.length (indent - c.column)
    let c := c.advance width
    let widest := max widest c.column
    match c.rest with
    | [] => some (breaks, widest, c)
    | x :: _ =>
      if x == '\t' && (indent == 0 || decide (c.column < indent)) then none
      else if isBreak x then
        let (text, c) := c.nextLine
        blockBreaks indent fuel (breaks ++ text) widest c
      else some (breaks, widest, c)

/-- Reads the lines of a block. `lineBreak` ends the line before, `breaks` are the empty lines after
that, and `wasBlank` says whether the line before began with a blank. -/
def blockLines (literal : Bool) (indent : Nat) :
    Nat → List Char → List Char → List Char → Bool → Cursor →
      Option (List Char × List Char × List Char × Cursor)
  | 0, text, lineBreak, breaks, _, c => some (text, lineBreak, breaks, c)
  | fuel + 1, text, lineBreak, breaks, wasBlank, c =>
    match c.rest with
    | [] => some (text, lineBreak, breaks, c)
    | x :: _ =>
      if c.column != indent then some (text, lineBreak, breaks, c)
      else
        let blank := isBlank x
        let joint :=
          if !literal && lineBreak == ['\n'] && !wasBlank && !blank then
            if breaks.isEmpty then [' '] else []
          else lineBreak
        let (line, c) := c.takeWhile fun y => !isBreak y
        let (next, c) := c.nextLine
        match blockBreaks indent (c.rest.length + 1) [] 0 c with
        | none => none
        | some (more, _, c) =>
          blockLines literal indent fuel (text ++ joint ++ breaks ++ line) next more blank c

/-- Reads a block after the sign that opens it. `parent` is the indentation around the block. -/
def scanBlock (literal : Bool) (parent : Int) (c : Cursor) : Option Scanned := do
  let (chomping, increment, used) ← blockHeader c.rest
  let c := (c.advance used).skipBlanks
  let c := if c.rest.head? == some '#' then (c.takeWhile fun x => !isBreak x).2 else c
  if !atLineEnd c.rest then none
  let c := c.nextLine.2
  let given := if increment = 0 then 0 else (max parent 0).toNat + increment
  let (breaks, widest, c) ← blockBreaks given (c.rest.length + 1) [] 0 c
  let indent := if given = 0 then max (max widest (parent + 1).toNat) 1 else given
  let (text, lineBreak, breaks, c) ←
    blockLines literal indent (c.rest.length + 1) [] [] breaks false c
  let ending := match chomping with
    | .strip => []
    | .clip => lineBreak
    | .keep => lineBreak ++ breaks
  return ⟨text ++ ending, if literal then .literal else .folded, c, true⟩

end Yaml
end ContainerBuild
