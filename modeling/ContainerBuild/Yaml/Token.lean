import ContainerBuild.Yaml.Scalar

/-!
# YAML tokens

The text is cut into tokens. Indentation is turned into tokens too: a column further right than the
one around it opens a mapping or a list, and a column further left closes what was opened there.

That a scalar is a key shows only at the colon after it. So the place of each scalar that may be one
is remembered, and the colon puts the token of a key there. Such a key lies on one line and is no
longer than 1024 characters.
-/

namespace ContainerBuild
namespace Yaml

inductive Token
  | blockSequence
  | blockMapping
  | blockEnd
  | flowSequence
  | flowSequenceEnd
  | flowMapping
  | flowMappingEnd
  | blockEntry
  | flowEntry
  | key
  | value
  | alias (name : List Char)
  | anchor (name : List Char)
  | tag (handle suffix : List Char)
  | scalar (text : List Char) (style : Style)
  | version
  | tagDirective (handle start : List Char)
  | documentStart
  | documentEnd
  deriving DecidableEq

/-- The place of a scalar or collection that may turn out to be a key. -/
structure Candidate where
  token : Nat
  required : Bool
  line : Nat
  column : Nat
  index : Nat

structure Layout where
  cursor : Cursor
  tokens : Array Token
  /-- For each open bracket, and for the text around them, the candidate for a key. -/
  candidates : List (Option Candidate)
  /-- The column of the innermost block, −1 outside of all. -/
  indent : Int
  outerIndents : List Int
  keyAllowed : Bool

namespace Layout

def start (cs : List Char) : Layout :=
  ⟨Cursor.start cs, #[], [none], -1, [], true⟩

def inFlow (l : Layout) : Bool := l.candidates.length > 1

def push (l : Layout) (t : Token) : Layout := { l with tokens := l.tokens.push t }

/-- Whether a candidate is still on this line and short enough; none if it had to be a key. -/
def fresh (l : Layout) (k : Candidate) : Option Bool :=
  if k.line < l.cursor.line ∨ k.index + 1024 < l.cursor.index then
    if k.required then none else some false
  else some true

def dropCandidate (l : Layout) : Option Layout :=
  match l.candidates with
  | some k :: rest => if k.required then none else some { l with candidates := none :: rest }
  | _ => some l

def saveCandidate (l : Layout) : Option Layout :=
  if l.keyAllowed then do
    let l ← l.dropCandidate
    let required := !l.inFlow && l.indent == (l.cursor.column : Int)
    let k : Candidate :=
      ⟨l.tokens.size, required, l.cursor.line, l.cursor.column, l.cursor.index⟩
    return { l with candidates := some k :: l.candidates.drop 1 }
  else some l

/-- Opens a block at a column further right; its token goes to the given place. -/
def indentTo (l : Layout) (column : Nat) (place : Nat) (t : Token) : Layout :=
  if l.inFlow then l
  else if l.indent < (column : Int) then
    { l with
      indent := column
      outerIndents := l.indent :: l.outerIndents
      tokens := (l.tokens.toList.take place ++ t :: l.tokens.toList.drop place).toArray }
  else l

def closeBlocks (column : Int) : List Int → Layout → Layout
  | [], l => l
  | outer :: rest, l =>
    if column < l.indent then
      closeBlocks column rest { l with
        indent := outer
        outerIndents := rest
        tokens := l.tokens.push .blockEnd }
    else l

def unindent (l : Layout) (column : Int) : Layout :=
  if l.inFlow then l else closeBlocks column l.outerIndents l

/-- Goes on to the next token, over blanks, comments and line breaks. A tab does not count as a blank
where a block may begin. -/
def skipToToken : Nat → Layout → Layout
  | 0, l => l
  | fuel + 1, l =>
    let c := if l.cursor.column == 0 && l.cursor.rest.head? == some '\ufeff' then l.cursor.advance 1
      else l.cursor
    let tabs := l.inFlow || !l.keyAllowed
    let c := (c.takeWhile fun x => x == ' ' || (tabs && x == '\t')).2
    let c := if c.rest.head? == some '#' then (c.takeWhile fun x => !isBreak x).2 else c
    match c.rest with
    | [] => { l with cursor := c }
    | x :: _ =>
      if isBreak x then
        skipToToken fuel { l with
          cursor := c.nextLine.2
          keyAllowed := if l.inFlow then l.keyAllowed else true }
      else { l with cursor := c }

def isTagChar (flow : Bool) (c : Char) : Bool :=
  isWordChar c || (";/?:@&=+$.%!~*'()".toList.contains c) || (flow && (c == ',' || c == '[' || c == ']'))

def scanTag (c : Cursor) : Option (List Char × List Char × Cursor) :=
  match c.rest with
  | '!' :: '<' :: _ =>
    let (uri, after) := (c.advance 2).takeWhile (isTagChar true)
    if after.rest.head? == some '>' && !uri.isEmpty then some ([], uri, after.advance 1) else none
  | '!' :: _ =>
    let (word, after) := (c.advance 1).takeWhile isWordChar
    if after.rest.head? == some '!' then
      let (suffix, last) := (after.advance 1).takeWhile (isTagChar false)
      if suffix.isEmpty then none else some ('!' :: (word ++ ['!']), suffix, last)
    else
      let (more, last) := after.takeWhile (isTagChar false)
      let suffix := word ++ more
      if suffix.isEmpty then some ([], ['!'], last) else some (['!'], suffix, last)
  | _ => none

def directiveEnd (c : Cursor) : Option Cursor :=
  let c := c.skipBlanks
  let c := if c.rest.head? == some '#' then (c.takeWhile fun x => !isBreak x).2 else c
  if atLineEnd c.rest then some c.nextLine.2 else none

def scanDirective (c : Cursor) : Option (Token × Cursor) := do
  let (name, c) := (c.advance 1).takeWhile isWordChar
  if !atGap c.rest then none
  let c := c.skipBlanks
  if name = "YAML".toList then
    let (major, c) := c.takeWhile Char.isDigit
    if major.isEmpty || c.rest.head? != some '.' then none
    let (minor, c) := (c.advance 1).takeWhile Char.isDigit
    if minor.isEmpty then none
    if major != ['1'] || !(minor == ['1'] || minor == ['2']) then none
    let c ← directiveEnd c
    return (.version, c)
  else if name = "TAG".toList then
    match c.rest with
    | '!' :: _ =>
      let (word, c) := (c.advance 1).takeWhile isWordChar
      let closed := c.rest.head? == some '!'
      if !closed && !word.isEmpty then none
      let handle := if closed then '!' :: (word ++ ['!']) else ['!']
      let c := if closed then c.advance 1 else c
      if !atGap c.rest then none
      let (start, c) := c.skipBlanks.takeWhile (isTagChar true)
      if start.isEmpty || !atGap c.rest then none
      let c ← directiveEnd c
      return (.tagDirective handle start, c)
    | _ => none
  else none

def skip (l : Layout) (n : Nat) : Layout := { l with cursor := l.cursor.advance n }

def openFlow (l : Layout) (t : Token) : Option Layout := do
  let l ← l.saveCandidate
  return { (l.skip 1).push t with candidates := none :: l.candidates, keyAllowed := true }

def closeFlow (l : Layout) (t : Token) : Option Layout := do
  let l ← l.dropCandidate
  let candidates := if l.inFlow then l.candidates.drop 1 else l.candidates
  return { (l.skip 1).push t with candidates := candidates, keyAllowed := false }

def flowEntry (l : Layout) : Option Layout := do
  let l ← l.dropCandidate
  return { (l.skip 1).push .flowEntry with keyAllowed := true }

def blockEntry (l : Layout) : Option Layout := do
  if !l.inFlow && !l.keyAllowed then none
  let l := l.indentTo l.cursor.column l.tokens.size .blockSequence
  let l ← l.dropCandidate
  return { (l.skip 1).push .blockEntry with keyAllowed := true }

def explicitKey (l : Layout) : Option Layout := do
  if !l.inFlow && !l.keyAllowed then none
  let l := l.indentTo l.cursor.column l.tokens.size .blockMapping
  let l ← l.dropCandidate
  return { (l.skip 1).push .key with keyAllowed := !l.inFlow }

/-- A colon, which makes a key of the candidate before it. -/
def value (l : Layout) : Option Layout := do
  let candidate ← match l.candidates.head?.join with
    | some k => (l.fresh k).map fun ok => if ok then some k else none
    | none => some none
  match candidate with
  | some k =>
    let l := { l with
      tokens := (l.tokens.toList.take k.token ++ Token.key :: l.tokens.toList.drop k.token).toArray
      candidates := none :: l.candidates.drop 1 }
    let l := l.indentTo k.column k.token .blockMapping
    return { (l.skip 1).push .value with keyAllowed := false }
  | none =>
    let l := { l with candidates := none :: l.candidates.drop 1 }
    if !l.inFlow && !l.keyAllowed then none
    let l := l.indentTo l.cursor.column l.tokens.size .blockMapping
    return { (l.skip 1).push .value with keyAllowed := !l.inFlow }

def named (l : Layout) (t : List Char → Token) : Option Layout := do
  let l ← l.saveCandidate
  let (name, after) := (l.cursor.advance 1).takeWhile isWordChar
  let ends := atGap after.rest || (match after.rest with
    | c :: _ => c.toNat == 96 || "?:,]\x7d%@".toList.contains c
    | [] => true)
  if name.isEmpty || !ends then none
  return { l.push (t name) with cursor := after, keyAllowed := false }

def tagged (l : Layout) : Option Layout := do
  let l ← l.saveCandidate
  let (handle, suffix, after) ← scanTag l.cursor
  let ends := atGap after.rest || (l.inFlow && after.rest.head? == some ',')
  if !ends then none
  return { l.push (.tag handle suffix) with cursor := after, keyAllowed := false }

def keyScalar (l : Layout) (scan : Layout → Option Scanned) : Option Layout := do
  let l ← l.saveCandidate
  let s ← scan l
  return { l.push (.scalar s.text s.style) with cursor := s.cursor, keyAllowed := s.atNewLine }

def block (l : Layout) (literal : Bool) : Option Layout := do
  let l ← l.dropCandidate
  let s ← scanBlock literal l.indent (l.cursor.advance 1)
  return { l.push (.scalar s.text s.style) with cursor := s.cursor, keyAllowed := true }

def marker (l : Layout) (t : Token) : Option Layout := do
  let l ← (l.unindent (-1)).dropCandidate
  return { (l.skip 3).push t with keyAllowed := false }

def directive (l : Layout) : Option Layout := do
  let l ← (l.unindent (-1)).dropCandidate
  let (t, after) ← scanDirective l.cursor
  return { l.push t with cursor := after, keyAllowed := false }

def startsPlain (flow : Bool) (c : Char) (rest : List Char) : Bool :=
  !(isBlank c || isBreak c || c.toNat == 96 || "-?:,[]\x7b\x7d#&*!|>'\"%@".toList.contains c) ||
    (c == '-' && !(match rest with
      | d :: _ => isBlank d
      | [] => false)) ||
    (!flow && (c == '?' || c == ':') && !atGap rest)

def step (l : Layout) (c : Char) (rest : List Char) : Option Layout :=
  if l.cursor.column == 0 && c == '%' then l.directive
  else if l.cursor.atMarker then l.marker (if c == '-' then .documentStart else .documentEnd)
  else if c == '[' then l.openFlow .flowSequence
  else if c == '{' then l.openFlow .flowMapping
  else if c == ']' then l.closeFlow .flowSequenceEnd
  else if c == '}' then l.closeFlow .flowMappingEnd
  else if c == ',' then l.flowEntry
  else if c == '-' && atGap rest then l.blockEntry
  else if c == '?' && (l.inFlow || atGap rest) then l.explicitKey
  else if c == ':' && (l.inFlow || atGap rest) then l.value
  else if c == '*' then l.named .alias
  else if c == '&' then l.named .anchor
  else if c == '!' then l.tagged
  else if c == '|' && !l.inFlow then l.block true
  else if c == '>' && !l.inFlow then l.block false
  else if c == '\'' then l.keyScalar fun l => scanQuoted false (l.cursor.advance 1)
  else if c == '"' then l.keyScalar fun l => scanQuoted true (l.cursor.advance 1)
  else if startsPlain l.inFlow c rest then
    l.keyScalar fun l => scanPlain l.inFlow (l.indent + 1) l.cursor
  else none

def expire (l : Layout) : Option (Option Candidate) → Option (Option Candidate)
  | some (some k) => (l.fresh k).map fun ok => if ok then some k else none
  | _ => some none

def scan : Nat → Layout → Option (List Token)
  | 0, _ => none
  | fuel + 1, l => do
    let l := l.skipToToken (l.cursor.rest.length + 1)
    let candidates ← l.candidates.mapM fun k => l.expire (some k)
    let l := { l with candidates := candidates }
    let l := l.unindent l.cursor.column
    match l.cursor.rest with
    | [] =>
      let l ← (l.unindent (-1)).dropCandidate
      return l.tokens.toList
    | c :: rest =>
      let l ← l.step c rest
      scan fuel l

end Layout

/-- The tokens of a text. A mark of the byte order at its start does not count. -/
def tokens (cs : List Char) : Option (List Token) :=
  let cs := if cs.head? == some '\ufeff' then cs.drop 1 else cs
  if cs.all isAllowed then (Layout.start cs).scan (cs.length + 2) else none

end Yaml
end ContainerBuild
