import ContainerBuild.Dialogue

/-!
# The ways a dialogue can go

A way of a dialogue is a list of exchanges that it can make, with the result that they lead to. Every
run goes one of these ways. The ways of dialogues that are put together are put together of theirs, so
what a dialogue can ask is read off its parts.
-/

namespace ContainerBuild
namespace Dialogue

variable {Q Q' : Type} {A : Q → Type} {A' : Q' → Type} {α β : Type}

inductive Way : Dialogue Q A α → List (Exchange Q A) → α → Prop
  | done (a : α) : Way (.done a) [] a
  | ask {q : Q} {next : A q → Dialogue Q A α} {xs : List (Exchange Q A)} {b : α} (a : A q)
      (h : Way (next a) xs b) : Way (.ask q next) (⟨q, a⟩ :: xs) b

theorem way_run {σ : Type} (answer : (q : Q) → σ → A q × σ) (d : Dialogue Q A α) (s : σ) :
    Way d (d.transcript answer s) (d.run answer s).1 := by
  induction d generalizing s with
  | done a => exact .done a
  | ask q next ih => exact .ask _ (ih _ _)

variable {d : Dialogue Q A α} {f : α → Dialogue Q A β} {xs : List (Exchange Q A)} {b : β}

theorem way_done_iff {a a' : α} : Way (done a : Dialogue Q A α) xs a' ↔ xs = [] ∧ a' = a := by
  constructor
  · intro h
    cases h
    exact ⟨rfl, rfl⟩
  · rintro ⟨rfl, rfl⟩
    exact .done a'

theorem way_bind_iff :
    Way (d >>= f) xs b ↔ ∃ ys a zs, Way d ys a ∧ Way (f a) zs b ∧ xs = ys ++ zs := by
  constructor
  · intro h
    induction d generalizing xs with
    | done a => exact ⟨[], a, xs, .done a, h, rfl⟩
    | ask q next ih =>
      cases h with
      | ask answer h =>
        obtain ⟨ys, a, zs, hd, hf, rfl⟩ := ih answer h
        exact ⟨_, a, zs, .ask answer hd, hf, rfl⟩
  · rintro ⟨ys, a, zs, hd, hf, rfl⟩
    induction hd with
    | done a => exact hf
    | ask answer _ ih => exact .ask answer (ih hf)

theorem way_question_iff {q : Q} {a : A q} :
    Way (question q : Dialogue Q A (A q)) xs a ↔ xs = [⟨q, a⟩] := by
  constructor
  · intro h
    cases h with
    | ask answer h =>
      obtain ⟨rfl, rfl⟩ := way_done_iff.1 h
      rfl
  · rintro rfl
    exact .ask a (.done a)

/-- What holds of every exchange of the dialogues that questions are replaced by holds of the whole. -/
theorem Way.forall_of_interpret {f : (q : Q) → Dialogue Q' A' (A q)} {P : Exchange Q' A' → Prop}
    (hf : ∀ q ys b, Way (f q) ys b → ∀ y ∈ ys, P y) {d : Dialogue Q A α}
    {xs : List (Exchange Q' A')} {a : α} (h : Way (d.interpret f) xs a) : ∀ x ∈ xs, P x := by
  induction d generalizing xs with
  | done b =>
    obtain ⟨rfl, -⟩ := way_done_iff.1 h
    exact List.forall_mem_nil _
  | ask q next ih =>
    obtain ⟨ys, b, zs, hq, hnext, rfl⟩ := way_bind_iff.1 h
    intro x hx
    rcases List.mem_append.1 hx with hx | hx
    · exact hf q ys b hq x hx
    · exact ih b hnext x hx

end Dialogue
end ContainerBuild
