import ContainerBuild.Json.Reading

/-!
# The grammar of JSON

Which bytes are the text of a value, and how the value is read. A text is given by its parts, blanks
between them are free, and nothing is said of how a text is scanned. A string stands for bytes: escaped
units of UTF-16 stand for the bytes of their characters, and half of a pair of units alone makes it no
text, as do bytes that are ill-formed.
-/

namespace ContainerBuild
namespace Json

def Blank (b : Bytes) : Prop :=
  ∀ x ∈ b, isSpace x = true

/-! ### Strings -/

/-- What a part of a string stands for: a byte, or a unit of UTF-16. -/
inductive Part
  | byte (x : UInt8)
  | unit (n : Nat)

inductive SpellsPart : Bytes → Part → Prop
  | plain {x : UInt8} (quote : x ≠ 0x22) (backslash : x ≠ 0x5C) (control : ¬x < 0x20) :
      SpellsPart [x] (.byte x)
  | letter {e x : UInt8} (h : unescapeLetter? e = some x) : SpellsPart [0x5C, e] (.byte x)
  | unit {a b c d : UInt8} {n : Nat} (h : hexUnit? a b c d = some n) :
      SpellsPart [0x5C, 0x75, a, b, c, d] (.unit n)

/-- Parts one after another. -/
inductive SpellsParts : Bytes → List Part → Prop
  | nil : SpellsParts [] []
  | cons {b b' : Bytes} {part : Part} {parts : List Part} (h : SpellsPart b part)
      (rest : SpellsParts b' parts) : SpellsParts (b ++ b') (part :: parts)

/-- The first half of a pair of units. -/
def IsHigh (n : Nat) : Prop :=
  0xD800 ≤ n ∧ n < 0xDC00

/-- The second half of a pair of units. -/
def IsLow (n : Nat) : Prop :=
  0xDC00 ≤ n ∧ n < 0xE000

instance (n : Nat) : Decidable (IsHigh n) := inferInstanceAs (Decidable (_ ∧ _))

instance (n : Nat) : Decidable (IsLow n) := inferInstanceAs (Decidable (_ ∧ _))

/-- The bytes of the character with a number. -/
def charBytes (n : Nat) : Bytes :=
  Utf8.encode (String.singleton (Char.ofNat n))

/-- The number of the character that a pair of units stands for. -/
def pairNumber (high low : Nat) : Nat :=
  0x10000 + (high - 0xD800) * 0x400 + (low - 0xDC00)

/-- The bytes that the parts of a string stand for, unless half of a pair stands alone. -/
def content : List Part → Option Bytes
  | [] => some []
  | .byte x :: parts => (content parts).map ([x] ++ ·)
  | .unit n :: .unit m :: parts =>
    if IsHigh n then
      if IsLow m then (content parts).map (charBytes (pairNumber n m) ++ ·) else none
    else if IsLow n then none
    else (content (.unit m :: parts)).map (charBytes n ++ ·)
  | .unit n :: parts =>
    if IsHigh n ∨ IsLow n then none else (content parts).map (charBytes n ++ ·)

/-- A string in its quotes, with its text if it has one. -/
inductive SpellsString : Bytes → Option String → Prop
  | intro {b : Bytes} {parts : List Part} (h : SpellsParts b parts) :
      SpellsString (0x22 :: (b ++ [0x22])) ((content parts).bind Utf8.decode?)

/-! ### Numbers -/

/-- One digit or several. -/
def Digits (b : Bytes) : Prop :=
  b ≠ [] ∧ ∀ x ∈ b, isDigit x = true

/-- The whole part of a number: zero, or digits of which the first is not zero. -/
def IsWhole (b : Bytes) : Prop :=
  Digits b ∧ (b.head? = some 0x30 → b = [0x30])

inductive SpellsFraction : Bytes → Bool → Prop
  | absent : SpellsFraction [] false
  | present {b : Bytes} (h : Digits b) : SpellsFraction (0x2E :: b) true

inductive SpellsExponent : Bytes → Bool → Prop
  | absent : SpellsExponent [] false
  | present {e : UInt8} {sign b : Bytes} (he : e = 0x65 ∨ e = 0x45)
      (hs : sign = [] ∨ sign = [0x2B] ∨ sign = [0x2D]) (h : Digits b) :
      SpellsExponent (e :: (sign ++ b)) true

/-- How a number is read. -/
def numberReading (negative fraction exponent : Bool) (n : Nat) : Reading :=
  if fraction || exponent || (negative && n == 0) then .fraction
  else .integer (if negative then -(n : Int) else n)

inductive SpellsUnsigned (negative : Bool) : Bytes → Reading → Prop
  | intro {whole fraction exponent : Bytes} {f e : Bool} (hw : IsWhole whole)
      (hf : SpellsFraction fraction f) (he : SpellsExponent exponent e) :
      SpellsUnsigned negative (whole ++ fraction ++ exponent)
        (numberReading negative f e (digitsValue whole))

inductive SpellsNumber : Bytes → Reading → Prop
  | negative {b : Bytes} {r : Reading} (h : SpellsUnsigned true b r) : SpellsNumber (0x2D :: b) r
  | plain {b : Bytes} {r : Reading} (h : SpellsUnsigned false b r) : SpellsNumber b r

/-! ### Values -/

inductive Padded {α : Type} (P : Bytes → α → Prop) : Bytes → α → Prop
  | intro {p b q : Bytes} {a : α} (hp : Blank p) (h : P b a) (hq : Blank q) :
      Padded P (p ++ b ++ q) a

inductive Joined {α : Type} (P : Bytes → α → Prop) : Bytes → List α → Prop
  | last {b : Bytes} {a : α} (h : P b a) : Joined P b [a]
  | more {b b' : Bytes} {a : α} {rest : List α} (h : P b a) (hr : Joined P b' rest) :
      Joined P (b ++ 0x2C :: b') (a :: rest)

inductive SpellsMember (P : Bytes → Reading → Prop) : Bytes → Option String × Reading → Prop
  | intro {b b' : Bytes} {key : Option String} {r : Reading} (hk : Padded SpellsString b key)
      (hv : Padded P b' r) : SpellsMember P (b ++ 0x3A :: b') (key, r)

def words : List (String × Reading) :=
  [("null", .null), ("true", .bool true), ("false", .bool false)]

/-- The text of a value, and how the value is read. -/
inductive Spells : Bytes → Reading → Prop
  | word {s : String} {r : Reading} (h : (s, r) ∈ words) : Spells (Utf8.encode s) r
  | number {b : Bytes} {r : Reading} (h : SpellsNumber b r) : Spells b r
  | text {b : Bytes} {s : String} (h : SpellsString b (some s)) : Spells b (.text s)
  | illFormed {b : Bytes} (h : SpellsString b none) : Spells b .illFormed
  | emptyArray {b : Bytes} (h : Blank b) : Spells (0x5B :: (b ++ [0x5D])) (.array [] none)
  | array {b : Bytes} {items : List Reading} (h : Joined (Padded Spells) b items) :
      Spells (0x5B :: (b ++ [0x5D])) (.array items none)
  | emptyObject {b : Bytes} (h : Blank b) : Spells (0x7B :: (b ++ [0x7D])) (.object [] none)
  | object {b : Bytes} {members : List (Option String × Reading)}
      (h : Joined (SpellsMember Spells) b members) :
      Spells (0x7B :: (b ++ [0x7D])) (.object members none)

end Json
end ContainerBuild
