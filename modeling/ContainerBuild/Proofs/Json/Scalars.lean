import ContainerBuild.Json.Value
import ContainerBuild.Proofs.Bytes.Characters
import ContainerBuild.Proofs.Json.ScalarRecognition

/-!
# Strings and numbers of JSON as they are written

A written string is escaped byte by byte, and each byte is a part of its own; so it does not matter
what characters the bytes belong to. A written number has no sign but a minus, no zero before its other
digits and neither fraction nor exponent.
-/

namespace ContainerBuild
namespace Json

variable {x : UInt8} {n : Nat}

/-! ### Strings -/

theorem hexUnit?_hexPair (h : x < 0x20) :
    hexUnit? 0x30 0x30 (UInt8.ofNat (Bytes.hexDigit false (x.toNat / 16)).toNat)
      (UInt8.ofNat (Bytes.hexDigit false (x.toNat % 16)).toNat) = some x.toNat := by
  have table : ∀ n < 32, hexUnit? 0x30 0x30 (UInt8.ofNat (Bytes.hexDigit false (n / 16)).toNat)
      (UInt8.ofNat (Bytes.hexDigit false (n % 16)).toNat) = some n := by
    decide
  exact table x.toNat h

/-- Each byte is a part of its own, although characters have up to four; a control byte without a
letter is escaped as a unit. -/
theorem exists_part (x : UInt8) : ∃ part, SpellsPart (escapeByte x) part ∧
    ∀ parts, content (part :: parts) = (content parts).map ([x] ++ ·) := by
  unfold escapeByte
  -- Seven bytes have a letter of their own.
  iterate 7
    split
    · subst x
      exact ⟨_, .letter rfl, fun _ => rfl⟩
  split
  · rename_i hc
    have hx : x.toNat < 32 := hc
    refine ⟨.unit x.toNat, .unit (hexUnit?_hexPair hc), fun parts => ?_⟩
    have high : ¬IsHigh x.toNat := by
      unfold IsHigh
      omega
    have low : ¬IsLow x.toNat := by
      unfold IsLow
      omega
    have hbytes : charBytes x.toNat = [x] := by
      rw [charBytes, Utf8.encode_singleton_ascii (by omega)]
    rw [content_unit high low, hbytes]
  · exact ⟨_, .plain ‹_› ‹_› ‹_›, fun _ => rfl⟩

theorem exists_parts_escaped (b : Bytes) :
    ∃ parts, SpellsParts (b.flatMap escapeByte) parts ∧ content parts = some b := by
  induction b with
  | nil => exact ⟨[], .nil, rfl⟩
  | cons x b ih =>
    obtain ⟨part, hpart, hcons⟩ := exists_part x
    obtain ⟨parts, hparts, hcontent⟩ := ih
    refine ⟨part :: parts, ?_, ?_⟩
    · rw [List.flatMap_cons]
      exact .cons hpart hparts
    · rw [hcons, hcontent]
      rfl

theorem spellsString_quote (s : String) : SpellsString (quote s) (some s) := by
  obtain ⟨parts, hparts, hcontent⟩ := exists_parts_escaped (Utf8.encode s)
  have htext : (content parts).bind Utf8.decode? = some s := by
    rw [hcontent, Option.bind_some, Utf8.decode?_encode]
  rw [← htext]
  exact .intro hparts

/-! ### Digits -/

def decimal (n : Nat) : Bytes :=
  (Nat.toDigits 10 n).map fun c => UInt8.ofNat c.toNat

theorem digitChar_toNat (h : n < 10) : (Nat.digitChar n).toNat = 0x30 + n := by
  have table : ∀ n < 10, (Nat.digitChar n).toNat = 0x30 + n := by
    decide
  exact table n h

theorem decimal_of_lt_ten (h : n < 10) : decimal n = [UInt8.ofNat (0x30 + n)] := by
  rw [decimal, Nat.toDigits_of_lt_base h, List.map_singleton, digitChar_toNat h]

theorem decimal_of_ten_le (h : 10 ≤ n) :
    decimal n = decimal (n / 10) ++ [UInt8.ofNat (0x30 + n % 10)] := by
  rw [decimal, decimal, Nat.toDigits_of_base_le (by decide) h, List.map_append, List.map_singleton,
    digitChar_toNat (Nat.mod_lt n (by decide))]

theorem toNat_ofNat_digit (h : n < 10) : (UInt8.ofNat (0x30 + n)).toNat = 0x30 + n := by
  rw [UInt8.toNat_ofNat']
  omega

theorem isDigit_of_mem_decimal (h : x ∈ decimal n) : isDigit x = true := by
  have digit (m : Nat) (hm : m < 10) : isDigit (UInt8.ofNat (0x30 + m)) = true := by
    have hn := toNat_ofNat_digit hm
    simp only [isDigit, Bool.and_eq_true, decide_eq_true_eq, UInt8.le_iff_toNat_le, hn]
    change 48 ≤ 48 + m ∧ 48 + m ≤ 57
    omega
  induction n using Nat.strongRecOn with
  | ind n ih =>
    by_cases hn : n < 10
    · rw [decimal_of_lt_ten hn, List.mem_singleton] at h
      exact h ▸ digit n hn
    · rw [decimal_of_ten_le (Nat.le_of_not_lt hn), List.mem_append, List.mem_singleton] at h
      obtain h | rfl := h
      · exact ih (n / 10) (by omega) h
      · exact digit _ (Nat.mod_lt n (by decide))

theorem digitsValue_decimal (n : Nat) : digitsValue (decimal n) = n := by
  induction n using Nat.strongRecOn with
  | ind n ih =>
    by_cases hn : n < 10
    · rw [decimal_of_lt_ten hn, digitsValue, List.foldl_cons, List.foldl_nil, toNat_ofNat_digit hn]
      omega
    · rw [decimal_of_ten_le (Nat.le_of_not_lt hn), digitsValue, List.foldl_append,
        ← digitsValue, ih (n / 10) (by omega), List.foldl_cons, List.foldl_nil,
        toNat_ofNat_digit (Nat.mod_lt n (by decide))]
      omega

/-- Zero is the only number whose first digit is zero. -/
theorem exists_decimal (n : Nat) :
    ∃ d more, decimal n = d :: more ∧ (d = 0x30 → more = [] ∧ n = 0) := by
  induction n using Nat.strongRecOn with
  | ind n ih =>
    by_cases hn : n < 10
    · refine ⟨_, _, decimal_of_lt_ten hn, fun hd => ⟨rfl, ?_⟩⟩
      have h := congrArg UInt8.toNat hd
      rw [toNat_ofNat_digit hn] at h
      change 48 + n = 48 at h
      omega
    · obtain ⟨d, more, hd, hz⟩ := ih (n / 10) (by omega)
      rw [decimal_of_ten_le (Nat.le_of_not_lt hn), hd]
      refine ⟨d, _, rfl, fun h0 => ?_⟩
      have h := (hz h0).2
      omega

theorem encode_toString_nat (n : Nat) : Utf8.encode (toString n) = decimal n := by
  rw [Nat.toString_eq_ofList_toDigits, Utf8.encode_ofList_ascii]
  · rfl
  · intro c hc
    have hd := Char.isDigit_iff_toNat.1 (Nat.isDigit_of_mem_toDigits (by decide) (by decide) hc)
    exact Nat.lt_of_le_of_lt hd.2 (by decide)

theorem renderInteger_natCast (n : Nat) : renderInteger (n : Int) = decimal n := by
  exact encode_toString_nat n

theorem renderInteger_negSucc (n : Nat) :
    renderInteger (Int.negSucc n) = 0x2D :: decimal (n + 1) := by
  have h : toString (Int.negSucc n) = "-" ++ toString (n + 1) := rfl
  rw [renderInteger, h, Utf8.encode_append, encode_toString_nat]
  rfl

/-! ### Numbers -/

theorem isWhole_decimal (n : Nat) : IsWhole (decimal n) := by
  obtain ⟨d, more, hd, hz⟩ := exists_decimal n
  refine ⟨⟨?_, fun x hx => isDigit_of_mem_decimal hx⟩, fun h0 => ?_⟩
  · rw [hd]
    exact List.cons_ne_nil _ _
  · rw [hd] at h0 ⊢
    obtain rfl : d = 0x30 := Option.some.inj h0
    rw [(hz rfl).1]

theorem spellsUnsigned_decimal (negative : Bool) (n : Nat) :
    SpellsUnsigned negative (decimal n) (numberReading negative false false n) := by
  have h : SpellsUnsigned negative (decimal n ++ [] ++ [])
      (numberReading negative false false (digitsValue (decimal n))) :=
    .intro (isWhole_decimal n) .absent .absent
  rwa [List.append_nil, List.append_nil, digitsValue_decimal] at h

/-- A written number is read as that number. Zero has no minus, which would make it a fraction. -/
theorem spellsNumber_renderInteger (n : Int) : SpellsNumber (renderInteger n) (.integer n) := by
  cases n with
  | ofNat n =>
    rw [Int.ofNat_eq_natCast, renderInteger_natCast]
    exact .plain (spellsUnsigned_decimal false n)
  | negSucc n =>
    rw [renderInteger_negSucc]
    exact .negative (spellsUnsigned_decimal true (n + 1))

end Json
end ContainerBuild
