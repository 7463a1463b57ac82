import ContainerBuild.Proofs.Bytes.Cuts
import ContainerBuild.Proofs.Container.MountSettings

/-!
# Sizes in words

A size is read here once more as a machine reads it: the text is cut at a place in its bytes, and each step
of the arithmetic is made in words of 64 bits with a sign and given up where it would overflow. The digits
alone may be too many for a word, and so may be the bytes that they stand for in their unit. Both limits
come to one, since no unit makes a number smaller; so the words hold just what exact numbers give.
-/

namespace ContainerBuild
namespace MountOptions

open Text (digitsFrom digits? maxSigned64)

variable {s : String} {cs : List Char} {m n d scale : Nat} {c : Char}

/-! ### Arithmetic in words -/

/-- What a step gives in words, which may have wrapped around, unless its exact result is no word. -/
def checked? (exact : Int) (word : Int64) : Option Int64 :=
  if Int64.minValue.toInt ≤ exact ∧ exact ≤ Int64.maxValue.toInt then some word else .none

def checkedAdd? (a b : Int64) : Option Int64 :=
  checked? (a.toInt + b.toInt) (a + b)

def checkedMul? (a b : Int64) : Option Int64 :=
  checked? (a.toInt * b.toInt) (a * b)

def wordOf? (n : Nat) : Option Int64 :=
  if n ≤ maxSigned64 then some (Int64.ofNat n) else .none

theorem toInt_ofNat (h : n ≤ maxSigned64) : (Int64.ofNat n).toInt = n :=
  Int64.toInt_ofNat_of_lt (Nat.lt_succ_of_le h)

theorem checked?_ofNat (n : Nat) : checked? n (Int64.ofNat n) = wordOf? n := by
  have least : Int64.minValue.toInt = -2 ^ 63 := by decide
  have most : Int64.maxValue.toInt = maxSigned64 := by decide
  unfold checked? wordOf?
  rw [least, most]
  congr 1
  rw [eq_iff_iff]
  omega

theorem checkedAdd?_ofNat (hm : m ≤ maxSigned64) (hn : n ≤ maxSigned64) :
    checkedAdd? (Int64.ofNat m) (Int64.ofNat n) = wordOf? (m + n) := by
  rw [← checked?_ofNat, checkedAdd?, toInt_ofNat hm, toInt_ofNat hn, Int64.ofNat_add]
  norm_cast

theorem checkedMul?_ofNat (hm : m ≤ maxSigned64) (hn : n ≤ maxSigned64) :
    checkedMul? (Int64.ofNat m) (Int64.ofNat n) = wordOf? (m * n) := by
  rw [← checked?_ofNat, checkedMul?, toInt_ofNat hm, toInt_ofNat hn, Int64.ofNat_mul]
  norm_cast

theorem wordOf?_of_le (h : n ≤ maxSigned64) : wordOf? n = some (Int64.ofNat n) :=
  if_pos h

theorem wordOf?_of_lt (h : maxSigned64 < n) : wordOf? n = .none :=
  if_neg (Nat.not_le_of_lt h)

/-! ### Digits -/

def wordFrom? (n : Int64) : List Char → Option Int64
  | [] => some n
  | c :: cs =>
    match Text.digitValue? 10 c with
    | .none => .none
    | some d => do
      let tens ← checkedMul? n 10
      let next ← checkedAdd? tens (Int64.ofNat d)
      wordFrom? next cs

def wordNumber? : List Char → Option Int64
  | [] => .none
  | c :: cs => wordFrom? 0 (c :: cs)

theorem le_of_digitsFrom (h : digitsFrom 10 n cs = some m) : n ≤ m := by
  induction cs generalizing n with
  | nil => exact Nat.le_of_eq (Option.some.inj h)
  | cons c cs ih =>
    rw [digitsFrom] at h
    split at h
    · have := ih h
      omega
    · cases h

/-- Once a number is too large it stays so, whatever digits follow. -/
theorem digitsFrom_bind_of_lt (h : maxSigned64 < n) : (digitsFrom 10 n cs).bind wordOf? = .none := by
  cases hd : digitsFrom 10 n cs with
  | none => rfl
  | some m => exact wordOf?_of_lt (Nat.lt_of_lt_of_le h (le_of_digitsFrom hd))

theorem digit_lt_ten (h : Text.digitValue? 10 c = some d) : d < 10 := by
  obtain ⟨⟨-, small, -⟩, rfl⟩ := Text.digitValue?_eq_some_iff.1 h
  exact small

/-- The words on the way are those of the exact numbers, up to the first that is too large for one. -/
theorem wordFrom?_ofNat (h : n ≤ maxSigned64) :
    wordFrom? (Int64.ofNat n) cs = (digitsFrom 10 n cs).bind wordOf? := by
  induction cs generalizing n with
  | nil => exact (wordOf?_of_le h).symm
  | cons c cs ih =>
    rw [wordFrom?, digitsFrom]
    cases hd : Text.digitValue? 10 c with
    | none => rfl
    | some d =>
      have hten : (10 : Nat) ≤ maxSigned64 := by decide
      have hdigit := digit_lt_ten hd
      have tens : checkedMul? (Int64.ofNat n) 10 = wordOf? (n * 10) := checkedMul?_ofNat h hten
      simp only [tens]
      by_cases fits : n * 10 ≤ maxSigned64
      · rw [wordOf?_of_le fits, Option.bind_eq_bind, Option.bind_some,
          checkedAdd?_ofNat fits (by omega)]
        by_cases fits' : n * 10 + d ≤ maxSigned64
        · rw [wordOf?_of_le fits', ← ih fits']
          rfl
        · rw [wordOf?_of_lt (by omega), digitsFrom_bind_of_lt (by omega)]
          rfl
      · rw [wordOf?_of_lt (by omega), digitsFrom_bind_of_lt (by omega)]
        rfl

theorem wordNumber?_eq (cs : List Char) : wordNumber? cs = (digits? 10 cs).bind wordOf? := by
  cases cs with
  | nil => rfl
  | cons c cs => exact wordFrom?_ofNat (Nat.zero_le maxSigned64)

/-! ### Sizes -/

/-- The place in the bytes of a text where the digits end that it begins with. -/
def digitsEnd (s : String) : Nat :=
  Utf8.width (s.toList.takeWhile Char.isDigit)

/-- The word for a size, if it has one; nothing at all if a character would be cut in two. -/
def sizeInWords? (s : String) : Option (Option Int64) :=
  (Utf8.cutAt? (digitsEnd s) s).map fun (digits, unit) => do
    let scale ← unitScale? unit.toList
    let count ← wordNumber? digits.toList
    checkedMul? count (Int64.ofNat scale)

theorem cutAt?_digitsEnd (s : String) : Utf8.cutAt? (digitsEnd s) s =
    some (String.ofList (s.toList.takeWhile Char.isDigit),
      String.ofList (s.toList.dropWhile Char.isDigit)) := by
  have cut := Utf8.cutAt?_width (s.toList.takeWhile Char.isDigit) (s.toList.dropWhile Char.isDigit)
  rwa [List.takeWhile_append_dropWhile, String.ofList_toList] at cut

/-- A unit stands for one byte or more, and for a number of bytes that is a word. -/
theorem scale_bounds {unit : List Char} (h : unitScale? unit = some scale) :
    0 < scale ∧ scale ≤ maxSigned64 := by
  have bounds : ∀ u ∈ units, 0 < u.2 ∧ u.2 ≤ maxSigned64 := by decide
  exact bounds _ (unitScale?_eq_some_iff.1 h)

theorem sizeInWords?_eq (s : String) : sizeInWords? s = some ((parseSize s).map Int64.ofNat) := by
  unfold sizeInWords? parseSize
  rw [cutAt?_digitsEnd, Option.map_some, Option.some.injEq]
  simp only [String.toList_ofList, wordNumber?_eq, Option.bind_eq_bind]
  cases hscale : unitScale? (s.toList.dropWhile Char.isDigit) with
  | none => rfl
  | some scale =>
    obtain ⟨positive, small⟩ := scale_bounds hscale
    cases digits? 10 (s.toList.takeWhile Char.isDigit) with
    | none => rfl
    | some count =>
      simp only [Option.bind_some]
      by_cases fits : count ≤ maxSigned64
      · rw [wordOf?_of_le fits, Option.bind_some, checkedMul?_ofNat fits small, wordOf?]
        split <;> rfl
      · have large : ¬count * scale ≤ maxSigned64 := by
          have := Nat.le_mul_of_pos_right count positive
          omega
        rw [wordOf?_of_lt (by omega), if_neg large]
        rfl

/-- A text has a size exactly if it is digits and a unit for no more bytes than a word can count, and then it
has one size. Read in words, no text is cut inside a character, and no step gives anything but the exact
number. -/
theorem sizes_of_text (s : String) :
    (∀ n, parseSize s = some n ↔ IsSize s n) ∧ (parseSize s = .none ↔ ∀ n, ¬IsSize s n) ∧
      ∃ word?, sizeInWords? s = some word? ∧
        word?.map Int64.toInt = (parseSize s).map Int.ofNat := by
  refine ⟨fun n => parseSize_eq_some_iff, ?_, _, sizeInWords?_eq s, ?_⟩
  · simp only [Option.eq_none_iff_forall_ne_some, ne_eq, parseSize_eq_some_iff]
  · cases h : parseSize s with
    | none => rfl
    | some n =>
      obtain ⟨-, -, -, -, -, -, -, -, small⟩ := parseSize_eq_some_iff.1 h
      exact congrArg some (toInt_ofNat small)

end MountOptions
end ContainerBuild
