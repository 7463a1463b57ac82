import ContainerBuild.Proofs.Text.Folding
import ContainerBuild.Proofs.Text.Splitting

/-!
# Trimmed text

What trimming leaves neither begins nor ends with a blank, and a text that does neither is left as it is.
Folding letters makes no blanks. So a piece at an end of a trimmed text can be folded, and put back, and
still nothing is trimmed.
-/

namespace ContainerBuild
namespace Text

variable {cs before after : List Char}

/-- Text that begins with a character which is no blank. -/
def StartsPlain (cs : List Char) : Prop :=
  ∃ c rest, cs = c :: rest ∧ isBlank c = false

def EndsPlain (cs : List Char) : Prop :=
  StartsPlain cs.reverse

namespace StartsPlain

theorem dropWhile (h : StartsPlain cs) : cs.dropWhile isBlank = cs := by
  obtain ⟨c, rest, rfl, hc⟩ := h
  rw [List.dropWhile_cons, hc, if_neg Bool.false_ne_true]

theorem append (h : StartsPlain before) (after : List Char) : StartsPlain (before ++ after) := by
  obtain ⟨c, rest, rfl, hc⟩ := h
  exact ⟨c, rest ++ after, rfl, hc⟩

theorem of_append (h : StartsPlain (before ++ after)) (nonempty : before ≠ []) :
    StartsPlain before := by
  obtain ⟨c, rest, rfl⟩ := List.exists_cons_of_ne_nil nonempty
  obtain ⟨d, more, hcut, hd⟩ := h
  obtain ⟨rfl, -⟩ := List.cons.inj hcut
  exact ⟨c, rest, rfl, hd⟩

end StartsPlain

theorem EndsPlain.append (h : EndsPlain after) (before : List Char) : EndsPlain (before ++ after) := by
  rw [EndsPlain, List.reverse_append]
  exact StartsPlain.append h before.reverse

theorem EndsPlain.of_append (h : EndsPlain (before ++ after)) (nonempty : after ≠ []) :
    EndsPlain after := by
  rw [EndsPlain, List.reverse_append] at h
  exact h.of_append (by simpa using nonempty)

theorem startsPlain_dropWhile (nonempty : cs.dropWhile isBlank ≠ []) :
    StartsPlain (cs.dropWhile isBlank) := by
  obtain ⟨c, rest, hcs⟩ := List.exists_cons_of_ne_nil nonempty
  refine ⟨c, rest, hcs, ?_⟩
  have first := List.head?_dropWhile_not isBlank cs
  rwa [hcs] at first

/-- A text that has blanks at neither end is what trimming leaves of it. -/
theorem trimChars_of_plain (hs : StartsPlain cs) (he : EndsPlain cs) : trimChars cs = cs := by
  rw [trimChars, trimStartChars, hs.dropWhile, trimEndChars, StartsPlain.dropWhile he,
    List.reverse_reverse]

theorem startsPlain_trimChars (nonempty : trimChars cs ≠ []) : StartsPlain (trimChars cs) := by
  have cut : trimStartChars cs =
      trimChars cs ++ ((trimStartChars cs).reverse.takeWhile isBlank).reverse := by
    rw [trimChars, trimEndChars, ← List.reverse_append, List.takeWhile_append_dropWhile,
      List.reverse_reverse]
  have rest : trimStartChars cs ≠ [] := by
    rw [cut]
    exact List.append_ne_nil_of_left_ne_nil nonempty _
  have plain := startsPlain_dropWhile rest
  change StartsPlain (trimStartChars cs) at plain
  rw [cut] at plain
  exact plain.of_append nonempty

theorem endsPlain_trimChars (nonempty : trimChars cs ≠ []) : EndsPlain (trimChars cs) := by
  rw [trimChars, trimEndChars, EndsPlain, List.reverse_reverse]
  refine startsPlain_dropWhile fun h => nonempty ?_
  rw [trimChars, trimEndChars, h, List.reverse_nil]

theorem mem_of_mem_trimChars {c : Char} (h : c ∈ trimChars cs) : c ∈ cs := by
  have start : c ∈ trimStartChars cs := by
    rw [trimChars, trimEndChars, List.mem_reverse] at h
    exact List.mem_reverse.1 ((List.dropWhile_sublist _).mem h)
  exact (List.dropWhile_sublist _).mem start

/-! ### Folded letters -/

theorem isBlank_of_letter {c : Char} (h : 65 ≤ c.toNat) (h' : c.toNat ≤ 122) : isBlank c = false := by
  simp only [isBlank, Bool.or_eq_false_iff, Bool.and_eq_false_iff, decide_eq_false_iff_not,
    beq_eq_false_iff_ne]
  omega

theorem isBlank_toLower (c : Char) : isBlank c.toLower = isBlank c := by
  cases h : c.isUpper with
  | false => rw [toLower_of_not_isUpper h]
  | true =>
    have bound := isUpper_iff.1 h
    have lower := toNat_toLower h
    rw [isBlank_of_letter bound.1 (by omega), isBlank_of_letter (by omega) (by omega)]

theorem StartsPlain.map_toLower (h : StartsPlain cs) : StartsPlain (cs.map Char.toLower) := by
  obtain ⟨c, rest, rfl, hc⟩ := h
  exact ⟨c.toLower, rest.map Char.toLower, rfl, by rw [isBlank_toLower, hc]⟩

theorem EndsPlain.map_toLower (h : EndsPlain cs) : EndsPlain (cs.map Char.toLower) := by
  rw [EndsPlain, ← List.map_reverse]
  exact StartsPlain.map_toLower h

/-! ### Pieces -/

theorem join_split {sep : Char} {sepText : String} (hs : sepText.toList = [sep]) (s : String) :
    join sepText (split sep s) = s := by
  rw [← String.toList_inj, join, String.toList_intercalate, hs, split, List.map_map,
    splitChars_eq_splitOn]
  simp [Function.comp_def, List.intercalate_splitOn]

end Text
end ContainerBuild
