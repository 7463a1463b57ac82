import ContainerBuild.Bytes

/-!
# Percent encoding

In a request target, a text that comes from outside is written with unreserved characters only: every
other byte of it becomes a percent sign and two hexadecimal digits. So nothing in the text can be
taken for a separator of the target, and decoding gives the text back.
-/

namespace ContainerBuild
namespace Percent

/-- Letters, digits, hyphen, full stop, underscore and tilde. -/
def isUnreserved (b : UInt8) : Bool :=
  (0x41 ≤ b && b ≤ 0x5A) || (0x61 ≤ b && b ≤ 0x7A) || (0x30 ≤ b && b ≤ 0x39) ||
    b == 0x2D || b == 0x2E || b == 0x5F || b == 0x7E

def encodeByte (b : UInt8) : List Char :=
  if isUnreserved b then [Char.ofNat b.toNat] else '%' :: Bytes.hexPair true b

def encodeBytes (b : Bytes) : List Char :=
  b.flatMap encodeByte

@[simp] theorem encodeBytes_cons (x : UInt8) (b : Bytes) :
    encodeBytes (x :: b) = encodeByte x ++ encodeBytes b :=
  rfl

def encode (s : String) : String :=
  String.ofList (encodeBytes (Utf8.encode s))

def hexValue? (c : Char) : Option Nat :=
  if '0' ≤ c ∧ c ≤ '9' then some (c.toNat - '0'.toNat)
  else if 'a' ≤ c ∧ c ≤ 'f' then some (c.toNat - 'a'.toNat + 10)
  else if 'A' ≤ c ∧ c ≤ 'F' then some (c.toNat - 'A'.toNat + 10)
  else none

/-- The bytes of an encoded text. A percent sign without two digits stands for itself. -/
def decodeChars : List Char → Bytes
  | [] => []
  | '%' :: a :: b :: cs =>
    match hexValue? a, hexValue? b with
    | some h, some l => UInt8.ofNat (h * 16 + l) :: decodeChars cs
    | _, _ => 0x25 :: decodeChars (a :: b :: cs)
  | c :: cs => Utf8.encode (String.singleton c) ++ decodeChars cs

def decode? (s : String) : Option String :=
  Utf8.decode? (decodeChars s.toList)

/-- The question mark and the parameters of a query, their values encoded; nothing for no
parameter. -/
def query (params : List (String × String)) : String :=
  if params.isEmpty then ""
  else "?" ++ "&".intercalate (params.map fun (k, v) => k ++ "=" ++ encode v)

@[simp] theorem query_nil : query [] = "" := rfl

end Percent
end ContainerBuild
