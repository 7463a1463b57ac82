import Mathlib.Data.List.Forall2
import Mathlib.Data.List.Induction

/-!
# Work that may fail

Work in two parts is done when both are. A function that may fail is applied to the elements of a list
from left to right. Either every element has what the function needs, and the results stand beside the
elements; or there is a first element that lacks it, and the work ends with the error of that one. Where
later elements take the place of earlier ones, it is the last one with a property that counts.
-/

namespace ContainerBuild

variable {α β ε : Type}

theorem bind_eq_ok_iff {c : Except ε α} {f : α → Except ε β} {b : β} :
    c >>= f = .ok b ↔ ∃ a, c = .ok a ∧ f a = .ok b := by
  cases c with
  | error e => simp [bind, Except.bind]
  | ok a => simp [bind, Except.bind]

theorem bind_ne_error {c : Except ε α} {f : α → Except ε β} {e : ε} (hc : c ≠ .error e)
    (hf : ∀ a, f a ≠ .error e) : c >>= f ≠ .error e := by
  cases c with
  | error e' => simpa [bind, Except.bind] using hc
  | ok a => exact hf a

theorem map_eq_ok_iff {c : Except ε α} {f : α → β} {b : β} :
    c.map f = .ok b ↔ ∃ a, c = .ok a ∧ f a = b := by
  cases c <;> simp [Except.map]

theorem mapError_ok {ε' : Type} (f : ε → ε') (a : α) : (Except.ok a).mapError f = .ok a := rfl

theorem mapError_eq_ok_iff {ε' : Type} {c : Except ε α} {f : ε → ε'} {a : α} :
    c.mapError f = .ok a ↔ c = .ok a := by
  cases c with
  | error e => exact ⟨nofun, nofun⟩
  | ok b => rw [mapError_ok, Except.ok.injEq, Except.ok.injEq]

/-- The first element of a list that lacks a property. -/
def FirstWithout (P : α → Prop) (l : List α) (a : α) : Prop :=
  ∃ before after, l = before ++ a :: after ∧ (∀ x ∈ before, P x) ∧ ¬P a

namespace FirstWithout

variable {P : α → Prop} {l : List α} {a : α}

theorem lacks (h : FirstWithout P l a) : ¬P a := by
  obtain ⟨-, -, -, -, bad⟩ := h
  exact bad

theorem not_all (h : FirstWithout P l a) : ¬∀ x ∈ l, P x := by
  obtain ⟨before, after, rfl, -, bad⟩ := h
  intro all
  exact bad (all a (by simp))

theorem head (h : ¬P a) : FirstWithout P (a :: l) a :=
  ⟨[], l, rfl, by simp, h⟩

theorem cons {b : α} (hb : P b) (h : FirstWithout P l a) : FirstWithout P (b :: l) a := by
  obtain ⟨before, after, rfl, fine, bad⟩ := h
  refine ⟨b :: before, after, rfl, ?_, bad⟩
  rw [List.forall_mem_cons]
  exact ⟨hb, fine⟩

theorem append (h : FirstWithout P l a) (more : List α) : FirstWithout P (l ++ more) a := by
  obtain ⟨before, after, rfl, fine, bad⟩ := h
  exact ⟨before, after ++ more, by rw [List.append_assoc, List.cons_append], fine, bad⟩

theorem all_or_exists (P : α → Prop) (l : List α) :
    (∀ x ∈ l, P x) ∨ ∃ a, FirstWithout P l a := by
  induction l with
  | nil => exact .inl (by simp)
  | cons b l ih =>
    by_cases hb : P b
    · rcases ih with all | ⟨a, first⟩
      · exact .inl (List.forall_mem_cons.2 ⟨hb, all⟩)
      · exact .inr ⟨a, first.cons hb⟩
    · exact .inr ⟨b, head hb⟩

end FirstWithout

/-! ### The last of a list -/

section Last

variable {P : α → Prop} {l : List α} {a b : α}

def LastWith (P : α → Prop) (l : List α) (a : α) : Prop :=
  ∃ before after, l = before ++ a :: after ∧ P a ∧ ∀ x ∈ after, ¬P x

theorem LastWith.mem (h : LastWith P l a) : a ∈ l := by
  obtain ⟨before, after, rfl, -⟩ := h
  simp

theorem LastWith.has (h : LastWith P l a) : P a := by
  obtain ⟨-, -, -, has, -⟩ := h
  exact has

theorem not_lastWith_nil : ¬LastWith P [] a := by
  rintro ⟨before, after, split, -⟩
  simp at split

theorem lastWith_concat_iff : LastWith P (l ++ [b]) a ↔ P b ∧ a = b ∨ ¬P b ∧ LastWith P l a := by
  constructor
  · rintro ⟨before, after, split, has, none⟩
    rcases List.eq_nil_or_concat after with rfl | ⟨after, last, rfl⟩
    · obtain ⟨-, hb⟩ := List.append_inj' split rfl
      obtain rfl : b = a := (List.cons.inj hb).1
      exact .inl ⟨has, rfl⟩
    · rw [List.concat_eq_append] at split none
      rw [← List.cons_append, ← List.append_assoc] at split
      obtain ⟨rfl, hb⟩ := List.append_inj' split rfl
      obtain rfl : b = last := (List.cons.inj hb).1
      exact .inr ⟨none b (by simp), before, after, rfl, has, fun x hx => none x (by simp [hx])⟩
  · rintro (⟨has, rfl⟩ | ⟨lacks, before, after, rfl, has, none⟩)
    · exact ⟨l, [], rfl, has, by simp⟩
    · refine ⟨before, after ++ [b], by simp, has, fun x hx => ?_⟩
      rcases List.mem_append.1 hx with hx | hx
      · exact none x hx
      · rwa [List.mem_singleton.1 hx]

theorem exists_lastWith (hm : a ∈ l) (ha : P a) : ∃ x, LastWith P l x := by
  induction l using List.reverseRecOn with
  | nil => cases hm
  | append_singleton l b ih =>
    by_cases hb : P b
    · exact ⟨b, lastWith_concat_iff.2 (.inl ⟨hb, rfl⟩)⟩
    · have earlier : a ∈ l := by
        rcases List.mem_append.1 hm with hm | hm
        · exact hm
        · exact absurd (List.mem_singleton.1 hm ▸ ha) hb
      obtain ⟨x, hx⟩ := ih earlier
      exact ⟨x, lastWith_concat_iff.2 (.inr ⟨hb, hx⟩)⟩

theorem LastWith.unique (h : LastWith P l a) (h' : LastWith P l b) : a = b := by
  induction l using List.reverseRecOn with
  | nil => exact absurd h not_lastWith_nil
  | append_singleton l x ih =>
    rcases lastWith_concat_iff.1 h with ⟨hx, rfl⟩ | ⟨hx, h⟩
    · rcases lastWith_concat_iff.1 h' with ⟨-, rfl⟩ | ⟨hn, -⟩
      · rfl
      · exact absurd hx hn
    · rcases lastWith_concat_iff.1 h' with ⟨hp, -⟩ | ⟨-, h'⟩
      · exact absurd hp hx
      · exact ih h h'

/-- Each element with a property has the value of the last one, exactly if all of them have one value. -/
theorem forall_lastWith_iff (f : α → β) :
    (∀ x ∈ l, P x → ∃ y, LastWith P l y ∧ f y = f x) ↔
      ∀ x ∈ l, ∀ y ∈ l, P x → P y → f x = f y := by
  constructor
  · intro h x hx y hy px py
    obtain ⟨z, hz, same⟩ := h x hx px
    obtain ⟨z', hz', same'⟩ := h y hy py
    rw [← same, ← same', hz.unique hz']
  · intro h x hx px
    obtain ⟨y, hy⟩ := exists_lastWith hx px
    exact ⟨y, hy, h y hy.mem x hx hy.has px⟩

end Last

/-! ### A function that may fail -/

theorem exists_mapM {R : α → β → Prop} {f : α → Except ε β} {l : List α}
    (h : ∀ a ∈ l, ∃ b, f a = .ok b ∧ R a b) : ∃ bs, l.mapM f = .ok bs ∧ List.Forall₂ R l bs := by
  induction l with
  | nil => exact ⟨[], rfl, .nil⟩
  | cons a l ih =>
    obtain ⟨ha, hl⟩ := List.forall_mem_cons.1 h
    obtain ⟨b, hb, hR⟩ := ha
    obtain ⟨bs, hbs, hall⟩ := ih hl
    refine ⟨b :: bs, ?_, .cons hR hall⟩
    rw [List.mapM_cons, hb, hbs]
    rfl

/-- A list is had back from what a function makes of it if each element is had back. -/
theorem mapM_map_of_inverse {g : α → β} {f : β → Except ε α} {l : List α}
    (h : ∀ a ∈ l, f (g a) = .ok a) : (l.map g).mapM f = .ok l := by
  induction l with
  | nil => rfl
  | cons a l ih =>
    obtain ⟨ha, hl⟩ := List.forall_mem_cons.1 h
    rw [List.map_cons, List.mapM_cons, ha, ih hl]
    rfl

theorem mapM_of_firstWithout {P : α → Prop} {f : α → Except ε β} {l : List α} {a : α} {e : ε}
    (fine : ∀ x, P x → ∃ b, f x = .ok b) (first : FirstWithout P l a) (h : f a = .error e) :
    l.mapM f = .error e := by
  obtain ⟨before, after, rfl, hP, -⟩ := first
  induction before with
  | nil =>
    rw [List.nil_append, List.mapM_cons, h]
    rfl
  | cons x before ih =>
    obtain ⟨hx, hP⟩ := List.forall_mem_cons.1 hP
    obtain ⟨b, hb⟩ := fine x hx
    rw [List.cons_append, List.mapM_cons, hb]
    change (do
      let bs ← (before ++ a :: after).mapM f
      pure (b :: bs)) = Except.error e
    rw [ih hP]
    rfl

end ContainerBuild
