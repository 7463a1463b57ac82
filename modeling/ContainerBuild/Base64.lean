import ContainerBuild.Bytes

/-!
# Base64

Three bytes are written as four characters of an alphabet of sixty-four; the end is padded with
equals signs. Two alphabets are in use, which differ in their last two characters. Reading is strict:
the padding must be there, and bits that hold nothing must be zero, so each byte string has exactly
one text in each alphabet.
-/

namespace ContainerBuild
namespace Base64

inductive Alphabet
  | standard
  | urlSafe
  deriving DecidableEq, Repr

namespace Alphabet

def char62 : Alphabet → Char
  | standard => '+'
  | urlSafe => '-'

def char63 : Alphabet → Char
  | standard => '/'
  | urlSafe => '_'

def char (a : Alphabet) (n : Nat) : Char :=
  if n < 26 then Char.ofNat ('A'.toNat + n)
  else if n < 52 then Char.ofNat ('a'.toNat + (n - 26))
  else if n < 62 then Char.ofNat ('0'.toNat + (n - 52))
  else if n = 62 then a.char62
  else a.char63

def value? (a : Alphabet) (c : Char) : Option Nat :=
  if 'A' ≤ c ∧ c ≤ 'Z' then some (c.toNat - 'A'.toNat)
  else if 'a' ≤ c ∧ c ≤ 'z' then some (c.toNat - 'a'.toNat + 26)
  else if '0' ≤ c ∧ c ≤ '9' then some (c.toNat - '0'.toNat + 52)
  else if c = a.char62 then some 62
  else if c = a.char63 then some 63
  else none

end Alphabet

def encodeChars (a : Alphabet) : Bytes → List Char
  | [] => []
  | [x] => [a.char (x.toNat / 4), a.char (x.toNat % 4 * 16), '=', '=']
  | [x, y] =>
    [a.char (x.toNat / 4), a.char (x.toNat % 4 * 16 + y.toNat / 16), a.char (y.toNat % 16 * 4), '=']
  | x :: y :: z :: rest =>
    a.char (x.toNat / 4) :: a.char (x.toNat % 4 * 16 + y.toNat / 16) ::
      a.char (y.toNat % 16 * 4 + z.toNat / 64) :: a.char (z.toNat % 64) :: encodeChars a rest

/-- One byte from the last two characters before the padding. -/
def decodeOne (a : Alphabet) (c d : Char) : Option Bytes := do
  let m ← a.value? c
  let n ← a.value? d
  if n % 16 = 0 then some [UInt8.ofNat (m * 4 + n / 16)] else none

/-- Two bytes from the last three characters before the padding. -/
def decodeTwo (a : Alphabet) (c d e : Char) : Option Bytes := do
  let m ← a.value? c
  let n ← a.value? d
  let o ← a.value? e
  if o % 4 = 0 then some [UInt8.ofNat (m * 4 + n / 16), UInt8.ofNat (n % 16 * 16 + o / 4)] else none

def decodeThree (a : Alphabet) (c d e f : Char) : Option Bytes := do
  let m ← a.value? c
  let n ← a.value? d
  let o ← a.value? e
  let p ← a.value? f
  return [UInt8.ofNat (m * 4 + n / 16), UInt8.ofNat (n % 16 * 16 + o / 4),
    UInt8.ofNat (o % 4 * 64 + p)]

def decodeChars (a : Alphabet) : List Char → Option Bytes
  | [] => some []
  | [c, d, '=', '='] => decodeOne a c d
  | [c, d, e, '='] => decodeTwo a c d e
  | c :: d :: e :: f :: rest => do
    let bytes ← decodeThree a c d e f
    let more ← decodeChars a rest
    return bytes ++ more
  | _ => none

def encode (a : Alphabet) (b : Bytes) : String :=
  String.ofList (encodeChars a b)

def decode? (a : Alphabet) (s : String) : Option Bytes :=
  decodeChars a s.toList

end Base64
end ContainerBuild
