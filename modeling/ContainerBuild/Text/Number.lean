/-!
# Numbers in texts

Digits are the ASCII digits of a base up to ten. A number is read exactly, and then compared with the
largest value its type can hold, so no length of text makes it wrap around.
-/

namespace ContainerBuild
namespace Text

def maxUnsigned64 : Nat := UInt64.size - 1

def maxSigned64 : Nat := UInt64.size / 2 - 1

def digitValue? (base : Nat) (c : Char) : Option Nat :=
  if '0' ≤ c ∧ c.toNat - '0'.toNat < base ∧ c ≤ '9' then some (c.toNat - '0'.toNat) else none

/-- The value of the digits after a number already read. -/
def digitsFrom (base : Nat) (n : Nat) : List Char → Option Nat
  | [] => some n
  | c :: cs =>
    match digitValue? base c with
    | some d => digitsFrom base (n * base + d) cs
    | none => none

def digits? (base : Nat) : List Char → Option Nat
  | [] => none
  | c :: cs => digitsFrom base 0 (c :: cs)

/-- One or more digits with at most one plus sign before them, no larger than the limit. -/
def unsigned? (base limit : Nat) (cs : List Char) : Option Nat :=
  let body := match cs with
    | '+' :: rest => rest
    | _ => cs
  (digits? base body).bind fun n => if n ≤ limit then some n else none

/-- One or more decimal digits with at most one sign before them, between the limits of signed
numbers of 64 bits. -/
def signed? (cs : List Char) : Option Int :=
  match cs with
  | '-' :: rest =>
    (digits? 10 rest).bind fun n => if n ≤ maxSigned64 + 1 then some (-(n : Int)) else none
  | _ => (unsigned? 10 maxSigned64 cs).map Int.ofNat

def octal (n : Nat) : String :=
  String.ofList (Nat.toDigits 8 n)

end Text
end ContainerBuild
