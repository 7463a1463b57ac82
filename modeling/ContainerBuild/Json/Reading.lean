import ContainerBuild.Json.Value
import ContainerBuild.Text.Number

/-!
# Reading JSON

A text is read as far as it is JSON: `Reading` holds what was found, also in a list or an object that
is never closed. What is wrong with a text can so be told in the order of the text, whether it is a
fault of the text or of what it says.

Strings are kept as text. One that is no text (a lone surrogate, ill-formed bytes) can still be passed
over, so it has a reading of its own.
-/

namespace ContainerBuild
namespace Json

/-- The place where a text stops being JSON. -/
structure Break where
  rest : Bytes
  deriving DecidableEq, Repr

/-- Whether the text was JSON as far as it goes. -/
def Break.isEnd (b : Break) : Bool := b.rest.isEmpty

/-- What was found where a value is expected. A list or an object that is never closed has a break. -/
inductive Reading
  | null
  | bool (b : Bool)
  | integer (n : Int)
  /-- A number with a fraction or an exponent, or minus zero. -/
  | fraction
  | text (s : String)
  | illFormed
  | array (items : List Reading) (open? : Option Break)
  /-- Members in order; a key is nothing where it is no text. -/
  | object (members : List (Option String × Reading)) (open? : Option Break)
  | broken (b : Break)

namespace Reading

mutual

def ofJson : Json → Reading
  | .null => null
  | .bool b => bool b
  | .integer n => integer n
  | .text s => text s
  | .array items => array (ofItems items) none
  | .object members => object (ofMembers members) none

def ofItems : List Json → List Reading
  | [] => []
  | item :: items => ofJson item :: ofItems items

def ofMembers : List (String × Json) → List (Option String × Reading)
  | [] => []
  | (key, value) :: members => (some key, ofJson value) :: ofMembers members

end

end Reading

def isSpace (b : UInt8) : Bool :=
  b == 0x20 || b == 0x09 || b == 0x0A || b == 0x0D

def skipSpace (b : Bytes) : Bytes :=
  b.dropWhile isSpace

def isDigit (b : UInt8) : Bool :=
  0x30 ≤ b && b ≤ 0x39

def hexValue? (b : UInt8) : Option Nat :=
  if 0x30 ≤ b ∧ b ≤ 0x39 then some (b.toNat - 0x30)
  else if 0x61 ≤ b ∧ b ≤ 0x66 then some (b.toNat - 0x61 + 10)
  else if 0x41 ≤ b ∧ b ≤ 0x46 then some (b.toNat - 0x41 + 10)
  else none

def hexUnit? (a b c d : UInt8) : Option Nat := do
  let a ← hexValue? a
  let b ← hexValue? b
  let c ← hexValue? c
  let d ← hexValue? d
  return ((a * 16 + b) * 16 + c) * 16 + d

def unescapeLetter? (b : UInt8) : Option UInt8 :=
  if b = 0x22 ∨ b = 0x5C ∨ b = 0x2F then some b
  else if b = 0x62 then some 0x08
  else if b = 0x66 then some 0x0C
  else if b = 0x6E then some 0x0A
  else if b = 0x72 then some 0x0D
  else if b = 0x74 then some 0x09
  else none

/-- What a string holds so far: its bytes, or nothing once it is no text. -/
abbrev Content := Option Bytes

def Content.push (bytes : Bytes) (more : Content × Bytes) : Content × Bytes :=
  (more.1.map (bytes ++ ·), more.2)

/-- Gives up the text of a string if half of a surrogate pair was left alone. -/
def Content.settle (half : Option Nat) (more : Content × Bytes) : Content × Bytes :=
  if half.isSome then (none, more.2) else more

/-- The content of a string up to its closing quote and the bytes after that. `half` is the first
half of a surrogate pair whose second half must follow at once. -/
def readContent (half : Option Nat) : Bytes → Except Break (Content × Bytes)
  | [] => .error ⟨[]⟩
  | 0x22 :: rest => .ok (Content.settle half (some [], rest))
  | 0x5C :: 0x75 :: a :: b :: c :: d :: rest =>
    match hexUnit? a b c d with
    | none => .error ⟨rest⟩
    | some unit =>
      if 0xD800 ≤ unit ∧ unit < 0xDC00 then
        (readContent (some unit) rest).map (Content.settle half)
      else if 0xDC00 ≤ unit ∧ unit < 0xE000 then
        match half with
        | some first =>
          let char := Char.ofNat (0x10000 + (first - 0xD800) * 0x400 + (unit - 0xDC00))
          (readContent none rest).map (Content.push (Utf8.encode (String.singleton char)))
        | none => (readContent none rest).map fun more => (none, more.2)
      else
        (readContent none rest).map fun more =>
          Content.settle half (Content.push (Utf8.encode (String.singleton (Char.ofNat unit))) more)
  | 0x5C :: e :: rest =>
    match unescapeLetter? e with
    | none => .error ⟨if e = 0x75 then [] else e :: rest⟩
    | some byte =>
      (readContent none rest).map fun more => Content.settle half (Content.push [byte] more)
  | byte :: rest =>
    if byte = 0x5C then .error ⟨rest⟩
    else if byte < 0x20 then .error ⟨byte :: rest⟩
    else (readContent none rest).map fun more => Content.settle half (Content.push [byte] more)

/-- The text of a string after its opening quote, or nothing where it is no text. -/
def readText (b : Bytes) : Except Break (Option String × Bytes) :=
  (readContent none b).map fun (content, rest) => (content.bind Utf8.decode?, rest)

def digitsValue (digits : Bytes) : Nat :=
  digits.foldl (fun n b => n * 10 + (b.toNat - 0x30)) 0

/-- The bytes after the fraction of a number, and whether it has one. -/
def skipFraction (b : Bytes) : Except Break (Bool × Bytes) :=
  match b with
  | 0x2E :: rest =>
    match rest with
    | d :: _ => if isDigit d then .ok (true, rest.dropWhile isDigit) else .error ⟨rest⟩
    | [] => .error ⟨[]⟩
  | _ => .ok (false, b)

def skipExponent (b : Bytes) : Except Break (Bool × Bytes) :=
  match b with
  | e :: rest =>
    if e = 0x65 ∨ e = 0x45 then
      let digits := match rest with
        | s :: more => if s = 0x2B ∨ s = 0x2D then more else rest
        | [] => []
      match digits with
      | d :: _ => if isDigit d then .ok (true, digits.dropWhile isDigit) else .error ⟨digits⟩
      | [] => .error ⟨[]⟩
    else .ok (false, b)
  | [] => .ok (false, [])

/-- A number without its sign. No digit follows a leading zero. -/
def readUnsigned (negative : Bool) (b : Bytes) : Except Break (Reading × Bytes) := do
  let whole := b.takeWhile isDigit
  let rest := b.dropWhile isDigit
  match whole with
  | [] => throw ⟨rest⟩
  | 0x30 :: second :: more => throw ⟨second :: (more ++ rest)⟩
  | _ =>
    let (fraction, rest) ← skipFraction rest
    let (exponent, rest) ← skipExponent rest
    let n := digitsValue whole
    if fraction || exponent || (negative && n == 0) then return (.fraction, rest)
    else return (.integer (if negative then -(n : Int) else n), rest)

def readNumber (b : Bytes) : Except Break (Reading × Bytes) :=
  match b with
  | 0x2D :: rest => readUnsigned true rest
  | _ => readUnsigned false b

def dropWord : Bytes → Bytes → Except Break Bytes
  | [], b => .ok b
  | _ :: _, [] => .error ⟨[]⟩
  | w :: word, c :: b => if c = w then dropWord word b else .error ⟨c :: b⟩

def readWord (word : String) (value : Reading) (b : Bytes) : Reading × Except Break Bytes :=
  match dropWord (Utf8.encode word) b with
  | .ok rest => (value, .ok rest)
  | .error e => (.broken e, .error e)

/-- The break of a value that is not closed. -/
def break? (after : Except Break Bytes) : Option Break :=
  match after with
  | .ok _ => none
  | .error e => some e

mutual

/-- Reads a value. Besides what was found it gives the bytes after it, or the place where the text
breaks. The fuel bounds the depth of the calls and never runs out before the text does. -/
def readValue : Nat → Bytes → Reading × Except Break Bytes
  | 0, b => (.broken ⟨b⟩, .error ⟨b⟩)
  | fuel + 1, b =>
    match skipSpace b with
    | [] => (.broken ⟨[]⟩, .error ⟨[]⟩)
    | c :: rest =>
      if c = 0x22 then
        match readText rest with
        | .ok (some s, rest) => (.text s, .ok rest)
        | .ok (none, rest) => (.illFormed, .ok rest)
        | .error e => (.broken e, .error e)
      else if c = 0x5B then
        match skipSpace rest with
        | 0x5D :: rest => (.array [] none, .ok rest)
        | rest =>
          let (items, after) := readItems fuel rest
          (.array items (break? after), after)
      else if c = 0x7B then
        match skipSpace rest with
        | 0x7D :: rest => (.object [] none, .ok rest)
        | rest =>
          let (members, after) := readMembers fuel rest
          (.object members (break? after), after)
      else if c = 0x6E then readWord "ull" .null rest
      else if c = 0x74 then readWord "rue" (.bool true) rest
      else if c = 0x66 then readWord "alse" (.bool false) rest
      else
        match readNumber (c :: rest) with
        | .ok (n, rest) => (n, .ok rest)
        | .error e => (.broken e, .error e)

def readItems : Nat → Bytes → List Reading × Except Break Bytes
  | 0, b => ([], .error ⟨b⟩)
  | fuel + 1, b =>
    match readValue fuel b with
    | (item, .error e) => ([item], .error e)
    | (item, .ok rest) =>
      match skipSpace rest with
      | 0x2C :: rest =>
        let (items, after) := readItems fuel rest
        (item :: items, after)
      | 0x5D :: rest => ([item], .ok rest)
      | rest => ([item], .error ⟨rest⟩)

def readMembers : Nat → Bytes → List (Option String × Reading) × Except Break Bytes
  | 0, b => ([], .error ⟨b⟩)
  | fuel + 1, b =>
    match skipSpace b with
    | 0x22 :: rest =>
      match readText rest with
      | .error e => ([], .error e)
      | .ok (key, rest) =>
        match skipSpace rest with
        | 0x3A :: rest =>
          match readValue fuel rest with
          | (value, .error e) => ([(key, value)], .error e)
          | (value, .ok rest) =>
            match skipSpace rest with
            | 0x2C :: rest =>
              let (members, after) := readMembers fuel rest
              ((key, value) :: members, after)
            | 0x7D :: rest => ([(key, value)], .ok rest)
            | rest => ([(key, value)], .error ⟨rest⟩)
        | rest => ([], .error ⟨rest⟩)
    | rest => ([], .error ⟨rest⟩)

end

def scan (b : Bytes) : Reading × Except Break Bytes :=
  readValue (2 * b.length + 2) b

def Break.position (e : Break) (whole : Bytes) : Nat × Nat :=
  let before := whole.take (whole.length - e.rest.length)
  (before.count 0x0A + 1, (before.reverse.takeWhile (· != 0x0A)).length)

end Json
end ContainerBuild
