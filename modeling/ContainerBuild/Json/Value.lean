import ContainerBuild.Bytes

/-!
# JSON values and their text

Values are written without blanks. Inside a string the quote, the backslash and the control
characters are escaped and every other character stands for itself; since all of these are ASCII, a
string is escaped byte by byte.
-/

namespace ContainerBuild

inductive Json
  | null
  | bool (b : Bool)
  | integer (n : Int)
  | text (s : String)
  | array (items : List Json)
  | object (members : List (String × Json))

namespace Json

def textOrNull (s : Option String) : Json :=
  match s with
  | some s => text s
  | none => null

def integerOrNull (n : Option Int) : Json :=
  match n with
  | some n => integer n
  | none => null

def nat (n : Nat) : Json := integer n

def texts (l : List String) : Json := array (l.map text)

def escapeByte (b : UInt8) : Bytes :=
  if b = 0x22 then [0x5C, 0x22]
  else if b = 0x5C then [0x5C, 0x5C]
  else if b = 0x08 then [0x5C, 0x62]
  else if b = 0x09 then [0x5C, 0x74]
  else if b = 0x0A then [0x5C, 0x6E]
  else if b = 0x0C then [0x5C, 0x66]
  else if b = 0x0D then [0x5C, 0x72]
  else if b < 0x20 then
    [0x5C, 0x75, 0x30, 0x30] ++ (Bytes.hexPair false b).map fun c => UInt8.ofNat c.toNat
  else [b]

def quote (s : String) : Bytes :=
  0x22 :: ((Utf8.encode s).flatMap escapeByte ++ [0x22])

def renderInteger (n : Int) : Bytes :=
  Utf8.encode (toString n)

mutual

def render : Json → Bytes
  | null => Utf8.encode "null"
  | bool true => Utf8.encode "true"
  | bool false => Utf8.encode "false"
  | integer n => renderInteger n
  | text s => quote s
  | array items => 0x5B :: (renderItems items ++ [0x5D])
  | object members => 0x7B :: (renderMembers members ++ [0x7D])

def renderItems : List Json → Bytes
  | [] => []
  | [item] => render item
  | item :: items => render item ++ 0x2C :: renderItems items

def renderMembers : List (String × Json) → Bytes
  | [] => []
  | [(key, value)] => quote key ++ 0x3A :: render value
  | (key, value) :: members => quote key ++ 0x3A :: (render value ++ 0x2C :: renderMembers members)

end

end Json
end ContainerBuild
