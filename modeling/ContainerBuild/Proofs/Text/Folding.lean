import ContainerBuild.Text

/-!
# Folded letters

Folding leaves no capital letter of ASCII in a text, and a text without any is left as it is.
-/

namespace ContainerBuild
namespace Text

variable {c : Char} {s : String}

theorem isUpper_iff : c.isUpper = true ↔ 65 ≤ c.toNat ∧ c.toNat ≤ 90 := by
  change decide (65 ≤ c.val ∧ c.val ≤ 90) = true ↔ _
  rw [decide_eq_true_iff, UInt32.le_iff_toNat_le, UInt32.le_iff_toNat_le]
  exact Iff.rfl

theorem toNat_toLower (h : c.isUpper = true) : c.toLower.toNat = c.toNat + 32 := by
  have bound := isUpper_iff.1 h
  unfold Char.toLower
  rw [dif_pos (of_decide_eq_true h)]
  change (c.val + 32).toNat = c.val.toNat + 32
  change 65 ≤ c.val.toNat ∧ c.val.toNat ≤ 90 at bound
  rw [UInt32.toNat_add]
  change (c.val.toNat + 32) % 2 ^ 32 = c.val.toNat + 32
  omega

theorem toLower_of_not_isUpper (h : c.isUpper = false) : c.toLower = c := by
  unfold Char.toLower
  exact dif_neg (of_decide_eq_false h)

theorem isUpper_toLower (c : Char) : c.toLower.isUpper = false := by
  cases h : c.isUpper with
  | false => rw [toLower_of_not_isUpper h, h]
  | true =>
    apply Bool.eq_false_iff.2
    rw [Ne, isUpper_iff, toNat_toLower h]
    have := isUpper_iff.1 h
    omega

theorem isUpper_of_mem_lowerAscii : ∀ c ∈ (lowerAscii s).toList, c.isUpper = false := by
  intro c hc
  rw [lowerAscii, String.toList_ofList] at hc
  obtain ⟨c', -, rfl⟩ := List.mem_map.1 hc
  exact isUpper_toLower c'

theorem lowerAscii_of_no_capital (h : ∀ c ∈ s.toList, c.isUpper = false) : lowerAscii s = s := by
  have same : s.toList.map Char.toLower = s.toList :=
    (List.map_congr_left fun c hc => toLower_of_not_isUpper (h c hc)).trans (List.map_id _)
  rw [lowerAscii, same, String.ofList_toList]

/-- A character is folded from itself, or a letter from the capital 32 places before it. -/
theorem eq_of_toLower {d : Char} (h : c.toLower = d) :
    c = d ∨ 97 ≤ d.toNat ∧ c = Char.ofNat (d.toNat - 32) := by
  cases hup : c.isUpper with
  | false => exact .inl ((toLower_of_not_isUpper hup).symm.trans h)
  | true =>
    right
    have bound := isUpper_iff.1 hup
    rw [← h, toNat_toLower hup, Nat.add_sub_cancel, Char.ofNat_toNat]
    exact ⟨by omega, rfl⟩

@[simp] theorem lowerAscii_lowerAscii (s : String) : lowerAscii (lowerAscii s) = lowerAscii s :=
  lowerAscii_of_no_capital isUpper_of_mem_lowerAscii

theorem notMem_lowerAscii (hc : c.toNat < 97) (h : c ∉ s.toList) :
    c ∉ (lowerAscii s).toList := by
  rw [lowerAscii, String.toList_ofList]
  intro hm
  obtain ⟨c', hc', rfl⟩ := List.mem_map.1 hm
  cases hup : c'.isUpper with
  | false =>
    rw [toLower_of_not_isUpper hup] at h
    exact h hc'
  | true =>
    have bound := isUpper_iff.1 hup
    rw [toNat_toLower hup] at hc
    omega

end Text
end ContainerBuild
