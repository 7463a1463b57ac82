/-!
# Byte strings and UTF-8

Byte strings are lists, so that everything said about lists can be said about them. Text becomes
bytes by `Utf8.encode`; bytes become text by `Utf8.decode?`, which refuses ill-formed bytes, or by
`Utf8.decodeLossy`, which puts U+FFFD in place of each longest ill-formed piece.
-/

namespace ContainerBuild

abbrev Bytes := List UInt8

namespace Bytes

def hexDigit (upper : Bool) (n : Nat) : Char :=
  if n < 10 then Char.ofNat ('0'.toNat + n)
  else Char.ofNat ((if upper then 'A'.toNat else 'a'.toNat) + (n - 10))

def hexPair (upper : Bool) (b : UInt8) : List Char :=
  [hexDigit upper (b.toNat / 16), hexDigit upper (b.toNat % 16)]

/-- The number whose digits to base 256 are the bytes, the first byte counting most. -/
def bigEndian (b : Bytes) : Nat :=
  b.foldl (fun n x => n * 256 + x.toNat) 0

/-- The last digits of a number to base 256, as many as `width` says. -/
def bigEndianDigits : Nat → Nat → Bytes
  | 0, _ => []
  | width + 1, n => bigEndianDigits width (n / 256) ++ [UInt8.ofNat (n % 256)]

/-- The number whose digits to base 256 are the bytes, the first byte counting least. -/
def littleEndian : Bytes → Nat
  | [] => 0
  | x :: b => x.toNat + 256 * littleEndian b

def untilNul (b : Bytes) : Bytes :=
  b.takeWhile (· != 0)

/-- The pieces between the separators, in order; there is one more piece than separators. -/
def split (sep : UInt8) (b : Bytes) : List Bytes :=
  let (pieces, last) := b.foldr (fun x (pieces, current) =>
    if x == sep then (current :: pieces, []) else (pieces, x :: current)) ([], [])
  last :: pieces

/-- The order of byte strings as words over the bytes. -/
def before : Bytes → Bytes → Bool
  | [], [] => false
  | [], _ :: _ => true
  | _ :: _, [] => false
  | a :: as, b :: bs => a < b || (a == b && before as bs)

end Bytes

namespace Utf8

def encode (s : String) : Bytes :=
  s.toByteArray.data.toList

def decode? (b : Bytes) : Option String :=
  String.fromUTF8? ⟨b.toArray⟩

theorem decode?_encode (s : String) : decode? (encode s) = some s := by
  have h : (⟨s.toByteArray.data.toList.toArray⟩ : ByteArray) = s.toByteArray := by simp
  simp only [decode?, encode, String.fromUTF8?, h]
  rw [dif_pos s.isValidUTF8]
  rfl

@[simp] theorem encode_append (s t : String) : encode (s ++ t) = encode s ++ encode t := by
  simp [encode]

/-- How many bytes follow a first byte, and the bounds of the byte right after it. -/
def followers (lead : UInt8) : Option (Nat × UInt8 × UInt8) :=
  if lead < 0xC2 then none
  else if lead < 0xE0 then some (1, 0x80, 0xBF)
  else if lead == 0xE0 then some (2, 0xA0, 0xBF)
  else if lead == 0xED then some (2, 0x80, 0x9F)
  else if lead < 0xF0 then some (2, 0x80, 0xBF)
  else if lead == 0xF0 then some (3, 0x90, 0xBF)
  else if lead < 0xF4 then some (3, 0x80, 0xBF)
  else if lead == 0xF4 then some (3, 0x80, 0x8F)
  else none

/-- Takes up to `count` bytes that go on with a character, the first of them within the bounds. -/
def takeFollowers : Nat → UInt8 → UInt8 → Bytes → Bytes × Bytes
  | 0, _, _, b => ([], b)
  | _ + 1, _, _, [] => ([], [])
  | count + 1, low, high, x :: b =>
    if low ≤ x && x ≤ high then
      let (taken, rest) := takeFollowers count 0x80 0xBF b
      (x :: taken, rest)
    else ([], x :: b)

theorem length_takeFollowers_le (count : Nat) (low high : UInt8) (b : Bytes) :
    (takeFollowers count low high b).2.length ≤ b.length := by
  induction count generalizing low high b with
  | zero => simp [takeFollowers]
  | succ count ih =>
    cases b with
    | nil => simp [takeFollowers]
    | cons x b =>
      simp only [takeFollowers]
      split
      · exact Nat.le_succ_of_le (ih ..)
      · exact Nat.le_refl _

def assemble (lead : UInt8) (follow : Bytes) : Char :=
  let start := match follow.length with
    | 1 => lead.toNat % 32
    | 2 => lead.toNat % 16
    | _ => lead.toNat % 8
  Char.ofNat (follow.foldl (fun n x => n * 64 + x.toNat % 64) start)

/-- The first character of some bytes, or nothing for a longest ill-formed piece; and the rest. -/
def nextChar (lead : UInt8) (b : Bytes) : Option Char × Bytes :=
  if lead < 0x80 then (some (Char.ofNat lead.toNat), b)
  else
    match followers lead with
    | none => (none, b)
    | some (count, low, high) =>
      let (follow, rest) := takeFollowers count low high b
      (if follow.length = count then some (assemble lead follow) else none, rest)

theorem length_nextChar_le (lead : UInt8) (b : Bytes) : (nextChar lead b).2.length ≤ b.length := by
  unfold nextChar
  split
  · exact Nat.le_refl _
  · split
    · exact Nat.le_refl _
    · exact length_takeFollowers_le ..

/-- The characters of some bytes in order, with nothing for each longest ill-formed piece. -/
def scan : Bytes → List (Option Char)
  | [] => []
  | lead :: b => (nextChar lead b).1 :: scan (nextChar lead b).2
termination_by b => b.length
decreasing_by exact Nat.lt_succ_of_le (length_nextChar_le lead b)

/-- The text of some bytes, with U+FFFD for each longest ill-formed piece. -/
def decodeLossy (b : Bytes) : String :=
  String.ofList ((scan b).map (·.getD '\uFFFD'))

end Utf8
end ContainerBuild
