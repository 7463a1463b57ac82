import ContainerBuild.Base64
import ContainerBuild.Text

/-!
# Reading base64

A text written in one alphabet reads back as its bytes. In the other alphabet it either has a
character that stands for nothing there, or it has none of the four characters in which the two
differ and reads back as the same bytes; so what is read never depends on the alphabet that was
tried.
-/

namespace ContainerBuild
namespace Base64

/-- Nothing other than `v` was found, and `v` itself was found if that is certain. -/
def Finds {α : Type} (certain : Prop) (found : Option α) (v : α) : Prop :=
  found = some v ∨ ¬certain ∧ found = none

namespace Finds

variable {α β : Type} {certain : Prop} {found : Option α} {v : α} {w : β} {f : α → Option β}

theorem of_some (v : α) : Finds certain (some v) v :=
  Or.inl rfl

theorem bind (h : Finds certain found v) (hf : Finds certain (f v) w) :
    Finds certain (found >>= f) w := by
  obtain rfl | ⟨hc, rfl⟩ := h
  · exact hf
  · exact Or.inr ⟨hc, rfl⟩

theorem eq_some (h : Finds certain found v) (hc : certain) : found = some v :=
  h.resolve_right fun hn => hn.1 hc

end Finds

variable {a a' : Alphabet} {c d e f : Char} {cs : List Char} {n : Nat} {x y z : UInt8} {b : Bytes}

/-! ### Characters -/

namespace Alphabet

theorem finds_char (a a' : Alphabet) (h : n < 64) : Finds (a' = a) (a'.value? (a.char n)) n := by
  have table : ∀ n < 64, a'.value? (a.char n) = some n ∨ ¬a' = a ∧ a'.value? (a.char n) = none := by
    cases a <;> cases a' <;> decide
  exact table n h

theorem char_ne_pad (a : Alphabet) (h : n < 64) : a.char n ≠ '=' := by
  have table : ∀ n < 64, a.char n ≠ '=' := by
    cases a <;> decide
  exact table n h

theorem isBlank_char (a : Alphabet) (h : n < 64) : Text.isBlank (a.char n) = false := by
  have table : ∀ n < 64, Text.isBlank (a.char n) = false := by
    cases a <;> decide
  exact table n h

end Alphabet

/-! ### Groups of four characters -/

/-- The first six bits of a byte and the last two make the byte. -/
theorem ofNat_first (x : UInt8) (h : n / 16 = x.toNat % 4) :
    UInt8.ofNat (x.toNat / 4 * 4 + n / 16) = x := by
  have hx : x.toNat / 4 * 4 + n / 16 = x.toNat := by omega
  rw [hx, UInt8.ofNat_toNat]

theorem ofNat_second (m : Nat) (y : UInt8) (h : n / 4 = y.toNat % 16) :
    UInt8.ofNat ((m * 16 + y.toNat / 16) % 16 * 16 + n / 4) = y := by
  have hb : y.toNat < 256 := y.toNat_lt
  have hy : (m * 16 + y.toNat / 16) % 16 * 16 + n / 4 = y.toNat := by omega
  rw [hy, UInt8.ofNat_toNat]

theorem ofNat_third (m : Nat) (z : UInt8) :
    UInt8.ofNat ((m * 4 + z.toNat / 64) % 4 * 64 + z.toNat % 64) = z := by
  have hb : z.toNat < 256 := z.toNat_lt
  have hz : (m * 4 + z.toNat / 64) % 4 * 64 + z.toNat % 64 = z.toNat := by omega
  rw [hz, UInt8.ofNat_toNat]

theorem finds_decodeOne (a a' : Alphabet) (x : UInt8) :
    Finds (a' = a) (decodeOne a' (a.char (x.toNat / 4)) (a.char (x.toNat % 4 * 16))) [x] := by
  have hx : x.toNat < 256 := x.toNat_lt
  apply Finds.bind (a.finds_char a' (by omega))
  apply Finds.bind (a.finds_char a' (by omega))
  rw [if_pos (by omega), ofNat_first x (by omega)]
  exact Finds.of_some _

theorem finds_decodeTwo (a a' : Alphabet) (x y : UInt8) :
    Finds (a' = a) (decodeTwo a' (a.char (x.toNat / 4)) (a.char (x.toNat % 4 * 16 + y.toNat / 16))
      (a.char (y.toNat % 16 * 4))) [x, y] := by
  have hx : x.toNat < 256 := x.toNat_lt
  have hy : y.toNat < 256 := y.toNat_lt
  apply Finds.bind (a.finds_char a' (by omega))
  apply Finds.bind (a.finds_char a' (by omega))
  apply Finds.bind (a.finds_char a' (by omega))
  rw [if_pos (by omega), ofNat_first x (by omega), ofNat_second _ y (by omega)]
  exact Finds.of_some _

theorem finds_decodeThree (a a' : Alphabet) (x y z : UInt8) :
    Finds (a' = a) (decodeThree a' (a.char (x.toNat / 4))
      (a.char (x.toNat % 4 * 16 + y.toNat / 16)) (a.char (y.toNat % 16 * 4 + z.toNat / 64))
      (a.char (z.toNat % 64))) [x, y, z] := by
  have hx : x.toNat < 256 := x.toNat_lt
  have hy : y.toNat < 256 := y.toNat_lt
  have hz : z.toNat < 256 := z.toNat_lt
  apply Finds.bind (a.finds_char a' (by omega))
  apply Finds.bind (a.finds_char a' (by omega))
  apply Finds.bind (a.finds_char a' (by omega))
  apply Finds.bind (a.finds_char a' (by omega))
  rw [ofNat_first x (by omega), ofNat_second _ y (by omega), ofNat_third _ z]
  exact Finds.of_some _

/-! ### Whole texts -/

theorem decodeChars_two (h : e ≠ '=') : decodeChars a [c, d, e, '='] = decodeTwo a c d e := by
  rw [decodeChars]
  exact h

theorem decodeChars_three (h : f ≠ '=') : decodeChars a (c :: d :: e :: f :: cs) =
    (do
      let bytes ← decodeThree a c d e f
      let more ← decodeChars a cs
      return bytes ++ more) := by
  rw [decodeChars]
  · rintro - hf -
    exact h hf
  · rintro hf -
    exact h hf

/-- A text of one alphabet read in either. -/
theorem finds_decodeChars (a a' : Alphabet) (b : Bytes) :
    Finds (a' = a) (decodeChars a' (encodeChars a b)) b := by
  induction b using encodeChars.induct with
  | case1 => exact Finds.of_some []
  | case2 x => exact finds_decodeOne a a' x
  | case3 x y =>
    have hy : y.toNat < 256 := y.toNat_lt
    rw [encodeChars, decodeChars_two (a.char_ne_pad (by omega))]
    exact finds_decodeTwo a a' x y
  | case4 x y z rest ih =>
    have hz : z.toNat < 256 := z.toNat_lt
    rw [encodeChars, decodeChars_three (a.char_ne_pad (by omega))]
    apply Finds.bind (finds_decodeThree a a' x y z)
    apply Finds.bind ih
    exact Finds.of_some _

theorem finds_decode? (a a' : Alphabet) (b : Bytes) :
    Finds (a' = a) (decode? a' (encode a b)) b := by
  rw [decode?, encode, String.toList_ofList]
  exact finds_decodeChars a a' b

theorem decode?_encode (a : Alphabet) (b : Bytes) : decode? a (encode a b) = some b :=
  (finds_decode? a a b).eq_some rfl

theorem of_mem_encodeChars (h : c ∈ encodeChars a b) : c = '=' ∨ ∃ n < 64, c = a.char n := by
  induction b using encodeChars.induct with
  | case1 => cases h
  | case2 x =>
    have hx : x.toNat < 256 := x.toNat_lt
    simp only [encodeChars, List.mem_cons, List.not_mem_nil, or_false, or_self] at h
    obtain rfl | rfl | h := h
    · exact Or.inr ⟨_, by omega, rfl⟩
    · exact Or.inr ⟨_, by omega, rfl⟩
    · exact Or.inl h
  | case3 x y =>
    have hx : x.toNat < 256 := x.toNat_lt
    have hy : y.toNat < 256 := y.toNat_lt
    simp only [encodeChars, List.mem_cons, List.not_mem_nil, or_false] at h
    obtain rfl | rfl | rfl | h := h
    · exact Or.inr ⟨_, by omega, rfl⟩
    · exact Or.inr ⟨_, by omega, rfl⟩
    · exact Or.inr ⟨_, by omega, rfl⟩
    · exact Or.inl h
  | case4 x y z rest ih =>
    have hx : x.toNat < 256 := x.toNat_lt
    have hy : y.toNat < 256 := y.toNat_lt
    have hz : z.toNat < 256 := z.toNat_lt
    rw [encodeChars] at h
    simp only [List.mem_cons] at h
    obtain rfl | rfl | rfl | rfl | h := h
    · exact Or.inr ⟨_, by omega, rfl⟩
    · exact Or.inr ⟨_, by omega, rfl⟩
    · exact Or.inr ⟨_, by omega, rfl⟩
    · exact Or.inr ⟨_, by omega, rfl⟩
    · exact ih h

theorem isBlank_of_mem_encodeChars (h : c ∈ encodeChars a b) : Text.isBlank c = false := by
  obtain rfl | ⟨n, hn, rfl⟩ := of_mem_encodeChars h
  · rfl
  · exact a.isBlank_char hn

theorem encodeChars_eq_nil_iff : encodeChars a b = [] ↔ b = [] := by
  cases b using encodeChars.fun_cases <;> simp [encodeChars]

end Base64
end ContainerBuild
