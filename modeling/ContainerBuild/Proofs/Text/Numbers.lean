import ContainerBuild.Text.Number

/-!
# What numbers in texts stand for

Digits are read as a number exactly if there are any and all of them are digits of the base, and the number
is the one that the library reads from them. A digit is never a plus sign, so there is one way to take a
sign off.
-/

namespace ContainerBuild
namespace Text

variable {base limit d m n : Nat} {c : Char} {cs : List Char}

/-- A digit to a base up to ten. -/
def IsDigit (base : Nat) (c : Char) : Prop :=
  '0' ≤ c ∧ c.toNat - '0'.toNat < base ∧ c ≤ '9'

theorem isDigit_ten_iff : IsDigit 10 c ↔ c.isDigit = true := by
  rw [Char.isDigit_iff_toNat]
  change 48 ≤ c.toNat ∧ c.toNat - 48 < 10 ∧ c.toNat ≤ 57 ↔ 48 ≤ c.toNat ∧ c.toNat ≤ 57
  omega

theorem isDigit_digitChar (hb : base ≤ 10) (hd : d < base) : IsDigit base d.digitChar := by
  change 48 ≤ d.digitChar.toNat ∧ d.digitChar.toNat - 48 < base ∧ d.digitChar.toNat ≤ 57
  rw [Nat.toNat_digitChar_of_lt_ten (by omega)]
  omega

theorem isDigit_of_mem_toDigits (hb : 1 < base) (hb' : base ≤ 10) (h : c ∈ Nat.toDigits base n) :
    IsDigit base c := by
  induction n using Nat.strongRecOn with
  | ind n ih =>
    rw [Nat.toDigits_eq_if hb] at h
    split at h
    · rename_i hn
      obtain rfl := List.mem_singleton.1 h
      exact isDigit_digitChar hb' hn
    · rename_i hn
      rcases List.mem_append.1 h with h | h
      · exact ih (n / base) (Nat.div_lt_self (by omega) hb) h
      · obtain rfl := List.mem_singleton.1 h
        exact isDigit_digitChar hb' (Nat.mod_lt n (by omega))

theorem digitValue?_eq_some_iff :
    digitValue? base c = some d ↔ IsDigit base c ∧ d = c.toNat - '0'.toNat := by
  unfold digitValue?
  split
  · rename_i digit
    rw [Option.some.injEq, eq_comm]
    exact ⟨fun h => ⟨digit, h⟩, fun h => h.2⟩
  · rename_i other
    exact iff_of_false nofun fun h => other h.1

theorem digitsFrom_eq_some_iff :
    digitsFrom base n cs = some m ↔ (∀ c ∈ cs, IsDigit base c) ∧ m = Nat.ofDigitChars base cs n := by
  induction cs generalizing n with
  | nil =>
    rw [digitsFrom, Option.some.injEq, Nat.ofDigitChars_nil, eq_comm]
    simp
  | cons c cs ih =>
    rw [digitsFrom, Nat.ofDigitChars_cons, List.forall_mem_cons, and_assoc]
    cases hd : digitValue? base c with
    | none =>
      refine iff_of_false nofun fun h => ?_
      rw [digitValue?_eq_some_iff.2 ⟨h.1, rfl⟩] at hd
      cases hd
    | some d =>
      obtain ⟨digit, rfl⟩ := digitValue?_eq_some_iff.1 hd
      simp only
      rw [ih, Nat.mul_comm n base]
      exact ⟨fun h => ⟨digit, h⟩, fun h => h.2⟩

theorem digits?_eq_some_iff : digits? base cs = some n ↔
    cs ≠ [] ∧ (∀ c ∈ cs, IsDigit base c) ∧ n = Nat.ofDigitChars base cs 0 := by
  cases cs with
  | nil => exact iff_of_false nofun fun h => h.1 rfl
  | cons c cs =>
    rw [digits?, digitsFrom_eq_some_iff]
    exact ⟨fun h => ⟨nofun, h⟩, fun h => h.2⟩

theorem unsigned?_eq_some_iff : unsigned? base limit cs = some n ↔
    ∃ digits, (cs = digits ∨ cs = '+' :: digits) ∧ digits ≠ [] ∧ (∀ c ∈ digits, IsDigit base c) ∧
      n = Nat.ofDigitChars base digits 0 ∧ n ≤ limit := by
  have read (digits : List Char) :
      ((digits? base digits).bind fun n => if n ≤ limit then some n else none) = some n ↔
        digits ≠ [] ∧ (∀ c ∈ digits, IsDigit base c) ∧ n = Nat.ofDigitChars base digits 0 ∧ n ≤ limit := by
    rw [Option.bind_eq_some_iff]
    constructor
    · rintro ⟨m, hm, small⟩
      split at small
      · obtain rfl := Option.some.inj small
        obtain ⟨any, all, value⟩ := digits?_eq_some_iff.1 hm
        exact ⟨any, all, value, by assumption⟩
      · cases small
    · rintro ⟨any, all, value, small⟩
      exact ⟨n, digits?_eq_some_iff.2 ⟨any, all, value⟩, if_pos small⟩
  have unsignable {digits : List Char} (h : ∀ c ∈ '+' :: digits, IsDigit base c) : False :=
    absurd (h '+' List.mem_cons_self).1 (by decide)
  unfold unsigned?
  split
  · rename_i rest
    rw [read]
    constructor
    · exact fun h => ⟨rest, .inr rfl, h⟩
    · rintro ⟨digits, rfl | split, h⟩
      · exact absurd h.2.1 unsignable
      · rwa [(List.cons.inj split).2]
  · rename_i plain
    rw [read]
    constructor
    · exact fun h => ⟨cs, .inl rfl, h⟩
    · rintro ⟨digits, rfl | split, h⟩
      · exact h
      · exact absurd split (plain digits)

end Text
end ContainerBuild
