import ContainerBuild.Proofs.Bytes.Characters
import ContainerBuild.Proofs.Text.Numbers
import ContainerBuild.Proofs.Text.Splitting
import ContainerBuild.Tar.Header

/-!
# Numbers in headers

A number is read back from its field as it was written: in octal digits with zeros before them, and
in binary where it has more digits than the field has room for. The fields have a fixed length, so a
number never moves what stands after it.
-/

namespace ContainerBuild

namespace Text

def IsOctal (c : Char) : Prop := '0'.toNat ≤ c.toNat ∧ c.toNat < '8'.toNat

theorem IsOctal.isBlank {c : Char} (h : IsOctal c) : isBlank c = false := by
  obtain ⟨h1, h2⟩ := h
  change 48 ≤ c.toNat at h1
  change c.toNat < 56 at h2
  simp only [Text.isBlank, Bool.or_eq_false_iff, Bool.and_eq_false_iff, decide_eq_false_iff_not,
    beq_eq_false_iff_ne]
  omega

theorem isOctal_iff {c : Char} : IsOctal c ↔ IsDigit 8 c := by
  change 48 ≤ c.toNat ∧ c.toNat < 56 ↔ 48 ≤ c.toNat ∧ c.toNat - 48 < 8 ∧ c.toNat ≤ 57
  omega

end Text

namespace Bytes

theorem untilNul_of_notMem {b : Bytes} (h : 0 ∉ b) : untilNul b = b := by
  induction b with
  | nil => rfl
  | cons x b ih =>
    rw [List.mem_cons, not_or] at h
    obtain ⟨hx, hb⟩ := h
    rw [untilNul, List.takeWhile_cons, if_pos (by simpa using Ne.symm hx)]
    exact congrArg _ (ih hb)

theorem untilNul_append_nul {b : Bytes} (h : 0 ∉ b) (rest : Bytes) : untilNul (b ++ 0 :: rest) = b := by
  induction b with
  | nil => rfl
  | cons x b ih =>
    rw [List.mem_cons, not_or] at h
    obtain ⟨hx, hb⟩ := h
    rw [List.cons_append, untilNul, List.takeWhile_cons, if_pos (by simpa using Ne.symm hx)]
    exact congrArg _ (ih hb)

@[simp] theorem length_bigEndianDigits (width n : Nat) :
    (bigEndianDigits width n).length = width := by
  induction width generalizing n with
  | zero => rfl
  | succ width ih => rw [bigEndianDigits, List.length_append, ih, List.length_singleton]

theorem bigEndian_bigEndianDigits (width n : Nat) :
    bigEndian (bigEndianDigits width n) = n % 1 <<< (8 * width) := by
  induction width generalizing n with
  | zero => exact (Nat.mod_one n).symm
  | succ width ih =>
    have scale : 1 <<< (8 * (width + 1)) = 256 * 1 <<< (8 * width) := by
      rw [Nat.mul_succ, Nat.shiftLeft_add, Nat.shiftLeft_eq, Nat.mul_comm]
    have last : (UInt8.ofNat (n % 256)).toNat = n % 256 := by
      rw [UInt8.toNat_ofNat']
      exact Nat.mod_eq_of_lt (Nat.mod_lt _ (by decide))
    unfold bigEndian at ih ⊢
    rw [bigEndianDigits, List.foldl_append, List.foldl_cons, List.foldl_nil, ih, last, scale,
      Nat.mod_mul, Nat.mul_comm, Nat.add_comm]

end Bytes

namespace Tar

/-- The digits of a number in a field, with zeros before them. -/
def octalDigits (width n : Nat) : List Char :=
  List.replicate (width - 1 - (Nat.toDigits 8 n).length) '0' ++ Nat.toDigits 8 n

variable {width n : Nat}

theorem isOctal_of_mem_octalDigits {c : Char} (h : c ∈ octalDigits width n) : Text.IsOctal c := by
  rcases List.mem_append.1 h with h | h
  · obtain rfl := (List.mem_replicate.1 h).2
    exact ⟨Nat.le_refl _, by decide⟩
  · exact Text.isOctal_iff.2 (Text.isDigit_of_mem_toDigits (by decide) (by decide) h)

theorem octalDigits_ne_nil : octalDigits width n ≠ [] :=
  List.append_ne_nil_of_right_ne_nil _ Nat.toDigits_ne_nil

theorem ofDigitChars_octalDigits : Nat.ofDigitChars 8 (octalDigits width n) 0 = n := by
  have zeros (k : Nat) : Nat.ofDigitChars 8 (List.replicate k '0') 0 = 0 := by
    induction k with
    | zero => rfl
    | succ k ih => exact ih
  unfold octalDigits
  rw [Nat.ofDigitChars, List.foldl_append]
  change Nat.ofDigitChars 8 (Nat.toDigits 8 n) (Nat.ofDigitChars 8 (List.replicate _ '0') 0) = n
  rw [zeros, Nat.ofDigitChars_toDigits (by decide) (by decide)]

theorem encode_octalDigits : Utf8.encode (String.ofList (octalDigits width n)) =
    (octalDigits width n).map fun c => UInt8.ofNat c.toNat :=
  Utf8.encode_ofList_ascii fun _ hc => Nat.lt_trans (isOctal_of_mem_octalDigits hc).2 (by decide)

theorem octalField_eq :
    octalField width n = Utf8.encode (String.ofList (octalDigits width n)) ++ [0] := by
  rw [encode_octalDigits, octalDigits, List.map_append, List.map_replicate]
  simp only [octalField, List.length_map]
  rfl

/-- The bytes of octal digits lie between those that mean something else in a field. -/
theorem bounds_of_mem_octalDigits {x : UInt8}
    (h : x ∈ Utf8.encode (String.ofList (octalDigits width n))) : x ≠ 0 ∧ x < 0x80 := by
  rw [encode_octalDigits] at h
  obtain ⟨c, hc, rfl⟩ := List.mem_map.1 h
  obtain ⟨h1, h2⟩ := isOctal_of_mem_octalDigits hc
  change 48 ≤ c.toNat at h1
  change c.toNat < 56 at h2
  have value : (UInt8.ofNat c.toNat).toNat = c.toNat := by
    rw [UInt8.toNat_ofNat']
    exact Nat.mod_eq_of_lt (by omega)
  constructor
  · intro h0
    rw [h0] at value
    change 0 = c.toNat at value
    omega
  · rw [UInt8.lt_iff_toNat_lt, value]
    exact Nat.lt_trans h2 (by decide)

theorem octal?_octalField (hn : n ≤ Text.maxUnsigned64) :
    Block.octal? (octalField width n) = some n := by
  have digits (c : Char) (hc : c ∈ octalDigits width n) := isOctal_of_mem_octalDigits hc
  rw [octalField_eq, Block.octal?,
    Bytes.untilNul_append_nul fun h => (bounds_of_mem_octalDigits h).1 rfl,
    Utf8.decode?_encode]
  simp only [Option.bind_eq_bind, Option.bind_some, String.toList_ofList]
  rw [Text.trimChars_of_no_blank fun c hc => (digits c hc).isBlank, Text.unsigned?_eq_some_iff]
  exact ⟨_, .inl rfl, octalDigits_ne_nil, fun c hc => Text.isOctal_iff.1 (digits c hc),
    ofDigitChars_octalDigits.symm, hn⟩

theorem length_octalField (hw : 2 ≤ width) (hn : n < octalLimit width) :
    (octalField width n).length = width := by
  rw [octalLimit, Nat.one_shiftLeft, Nat.pow_mul] at hn
  have := (Nat.length_toDigits_le_iff (b := 8) (by decide) (by omega)).2 hn
  simp only [octalField, List.length_append, List.length_replicate, List.length_map,
    List.length_singleton]
  omega

/-- A number is read back from its field, however it is written there. -/
theorem number?_numberField (hw : 9 ≤ width) (hn : n ≤ Text.maxUnsigned64) :
    Block.number? (numberField width n) = some n := by
  unfold numberField
  split
  · have octal : Block.octal? (octalField width n) = some n := octal?_octalField hn
    rw [octalField_eq] at octal ⊢
    cases hd : Utf8.encode (String.ofList (octalDigits width n)) with
    | nil =>
      rw [encode_octalDigits] at hd
      exact absurd (List.map_eq_nil_iff.1 hd) octalDigits_ne_nil
    | cons x rest =>
      have small : x < 0x80 := (bounds_of_mem_octalDigits (hd ▸ List.mem_cons_self)).2
      rw [hd] at octal
      rw [List.cons_append, Block.number?, if_pos small]
      exact octal
  · have last : (0x80 :: (List.replicate (width - 9) (0 : UInt8) ++ Bytes.bigEndianDigits 8 n)).drop
        (width - 8) = Bytes.bigEndianDigits 8 n := by
      rw [← List.cons_append, List.drop_append_of_le_length, List.drop_eq_nil_of_le, List.nil_append]
      · simp
        omega
      · simp
        omega
    have marked : ¬(0x80 : UInt8) < 0x80 := by decide
    rw [Block.number?, if_neg marked]
    have hl : (0x80 :: (List.replicate (width - 9) (0 : UInt8) ++ Bytes.bigEndianDigits 8 n)).length =
        width := by
      simp
      omega
    rw [hl, last, Bytes.bigEndian_bigEndianDigits, Nat.mod_eq_of_lt]
    exact Nat.lt_of_le_of_lt hn (by decide)

theorem length_numberField (hw : 9 ≤ width) : (numberField width n).length = width := by
  unfold numberField
  split
  · rename_i hn
    exact length_octalField (by omega) hn
  · simp only [List.length_cons, List.length_append, List.length_replicate,
      Bytes.length_bigEndianDigits]
    omega

end Tar
end ContainerBuild
