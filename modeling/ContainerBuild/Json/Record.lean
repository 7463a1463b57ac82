import ContainerBuild.Json.Reading

/-!
# Records in JSON

A record is written as an object, and read from an object or from an array of its fields in their
order. Members with other keys are passed over; a key that comes twice is a fault. A field that is
absent takes its default, if it has one.

Faults are found in the order of the text: first what is wrong with the members as they come, then an
object that is not closed, then the first field that is missing.
-/

namespace ContainerBuild
namespace Json

inductive Fault
  | missing (field : String)
  /-- A value of another kind, or a field that must not be there. -/
  | mismatch
  | broken (b : Break)
  deriving DecidableEq, Repr

def Fault.text : Fault → String
  | missing field => "missing field `" ++ field ++ "`"
  | mismatch => "unexpected value"
  | broken b => if b.isEnd then "unexpected end" else "unexpected character"

abbrev Decoder (α : Type) := Reading → Except Fault α

/-- The fault of a reading that is not of the expected kind. -/
def Reading.fault : Reading → Fault
  | .broken b => .broken b
  | .illFormed => .broken ⟨[0x22]⟩
  | _ => .mismatch

/-- What was found, unless the text breaks before it is closed. -/
def whole {α : Type} (found : α) (open? : Option Break) : Except Fault α :=
  match open? with
  | none => .ok found
  | some b => .error (.broken b)

@[simp] theorem whole_none {α : Type} (found : α) : whole found none = .ok found := rfl

namespace Decode

variable {α β : Type}

def text : Decoder String
  | .text s => .ok s
  | r => .error r.fault

def bool : Decoder Bool
  | .bool b => .ok b
  | r => .error r.fault

/-- A whole number between two bounds. -/
def integer (low high : Int) : Decoder Int
  | .integer n => if low ≤ n ∧ n ≤ high then .ok n else .error .mismatch
  | r => .error r.fault

def int64 : Decoder Int := integer (-1 - Text.maxSigned64) Text.maxSigned64

def nat (high : Nat) : Decoder Nat := fun r => (integer 0 high r).map Int.toNat

def uint16 : Decoder UInt16 := fun r => (nat 65535 r).map UInt16.ofNat

def items (d : Decoder α) : List Reading → Except Fault (List α)
  | [] => .ok []
  | r :: rs => do
    let first ← d r
    let rest ← items d rs
    return first :: rest

def list (d : Decoder α) : Decoder (List α)
  | .array rs open? => do
    let found ← items d rs
    whole found open?
  | r => .error r.fault

def nullable (d : Decoder α) : Decoder (Option α)
  | .null => .ok none
  | r => (d r).map some

/-- The value of a dictionary's members; of several with one key the last counts. -/
def entries (d : Decoder α) : List (Option String × Reading) → Except Fault (List (String × α))
  | [] => .ok []
  | (none, _) :: _ => .error Reading.illFormed.fault
  | (some key, r) :: rs => do
    let first ← d r
    let rest ← entries d rs
    return (key, first) :: rest

def members (d : Decoder α) : Decoder (List (String × α))
  | .object rs open? => do
    let found ← entries d rs
    whole found open?
  | r => .error r.fault

/-- One of several words: a string, or an object with that word as its only key and null. -/
def word (named : String → Option α) : Decoder α := fun r =>
  let found := match r with
    | .text s => named s
    | .object [(some s, .null)] none => named s
    | _ => none
  match found with
  | some a => .ok a
  | none => .error r.fault

end Decode

/-- One field of a record: its names, what its value must be, and whether an array of the fields may
end before it. -/
structure Key where
  names : List String
  check : Reading → Except Fault Unit
  mayEnd : Bool

/-- The fields of a record in their order, and how the record is made from what was found. -/
structure Fields (α : Type) where
  keys : List Key
  build : List (Option Reading) → Except Fault α

namespace Fields

variable {α β : Type}

def single (names : List String) (d : Decoder α) (mayEnd : Bool) (absent : Except Fault α) :
    Fields α where
  keys := [⟨names, fun r => (d r).map fun _ => (), mayEnd⟩]
  build
    | [some r] => d r
    | _ => absent

def required (name : String) (d : Decoder α) : Fields α :=
  single [name] d false (.error (.missing name))

def withDefault (name : String) (d : Decoder α) (default : α) : Fields α :=
  single [name] d true (.ok default)

def optional (name : String) (d : Decoder α) : Fields (Option α) :=
  single [name] (Decode.nullable d) false (.ok none)

/-- A field that may be null or absent, also at the end of an array of the fields. -/
def optionalTail (names : List String) (d : Decoder α) : Fields (Option α) :=
  single names (Decode.nullable d) true (.ok none)

def map (f : α → β) (x : Fields α) : Fields β where
  keys := x.keys
  build slots := (x.build slots).map f

def and (x : Fields α) (y : Fields β) : Fields (α × β) where
  keys := x.keys ++ y.keys
  build slots := do
    let a ← x.build (slots.take x.keys.length)
    let b ← y.build (slots.drop x.keys.length)
    return (a, b)

/-- Puts what was found into the slot of its key, which must be empty. -/
def fillSlot (name : String) (r : Reading) :
    List Key → List (Option Reading) → Except Fault (List (Option Reading))
  | key :: keys, slot :: slots =>
    if key.names.contains name then
      match slot with
      | some _ => .error .mismatch
      | none => do
        key.check r
        return some r :: slots
    else do
      let filled ← fillSlot name r keys slots
      return slot :: filled
  | _, slots => .ok slots

def fill (keys : List Key) :
    List (Option Reading) → List (Option String × Reading) → Except Fault (List (Option Reading))
  | slots, [] => .ok slots
  | _, (none, _) :: _ => .error Reading.illFormed.fault
  | slots, (some name, r) :: members => do
    let slots ← fillSlot name r keys slots
    fill keys slots members

/-- What was found for each key of an array, one after another. -/
def fillInOrder : List Key → List Reading → Except Fault (List (Option Reading))
  | [], [] => .ok []
  | [], _ :: _ => .error .mismatch
  | key :: keys, [] =>
    if key.mayEnd then do
      let slots ← fillInOrder keys []
      return none :: slots
    else .error .mismatch
  | key :: keys, r :: rs => do
    key.check r
    let slots ← fillInOrder keys rs
    return some r :: slots

def decode (x : Fields α) : Decoder α
  | .object members open? => do
    let slots ← fill x.keys (x.keys.map fun _ => none) members
    let slots ← whole slots open?
    x.build slots
  | .array items open? => do
    let slots ← fillInOrder x.keys items
    let slots ← whole slots open?
    x.build slots
  | r => .error r.fault

end Fields

/-- Reads one value with nothing but blanks around it. -/
def read {α : Type} (d : Decoder α) (b : Bytes) : Except Fault α := do
  let (r, after) := scan b
  let a ← d r
  match after with
  | .ok rest => if (skipSpace rest).isEmpty then return a else throw (.broken ⟨skipSpace rest⟩)
  | .error b => throw (.broken b)

end Json
end ContainerBuild
