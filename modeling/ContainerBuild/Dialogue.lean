/-!
# Dialogues

A computation that talks to its surroundings is a `Dialogue`: a finite-depth tree whose inner nodes
ask a question and go on with the answer, and whose leaves hold the result. What the answers are is
left open, so a statement about a dialogue holds for every way its surroundings may behave.

`run` plays a dialogue against an answerer with a state, `transcript` collects the exchanges of such
a run, and `interpret` replaces every question by a dialogue over other questions.
-/

namespace ContainerBuild

/-- Questions `Q`, with answers of type `A q` to a question `q`, that lead to a result. -/
inductive Dialogue (Q : Type) (A : Q → Type) (α : Type) : Type
  | done (a : α)
  | ask (q : Q) (next : A q → Dialogue Q A α)

namespace Dialogue

variable {Q : Type} {A : Q → Type} {α β γ : Type}

protected def bind : Dialogue Q A α → (α → Dialogue Q A β) → Dialogue Q A β
  | done a, f => f a
  | ask q next, f => ask q fun answer => (next answer).bind f

instance : Monad (Dialogue Q A) where
  pure := done
  bind := Dialogue.bind

@[simp] theorem done_bind (a : α) (f : α → Dialogue Q A β) : (done a : Dialogue Q A α) >>= f = f a :=
  rfl

@[simp] theorem pure_eq_done (a : α) : (pure a : Dialogue Q A α) = done a := rfl

@[simp] theorem ask_bind (q : Q) (next : A q → Dialogue Q A α) (f : α → Dialogue Q A β) :
    ask q next >>= f = ask q fun answer => next answer >>= f :=
  rfl

theorem bind_done (d : Dialogue Q A α) : d >>= done = d := by
  induction d with
  | done a => rfl
  | ask q next ih => simp only [ask_bind, ih]

theorem bind_assoc' (d : Dialogue Q A α) (f : α → Dialogue Q A β) (g : β → Dialogue Q A γ) :
    d >>= f >>= g = d >>= fun a => f a >>= g := by
  induction d with
  | done a => rfl
  | ask q next ih => simp only [ask_bind, ih]

instance : LawfulMonad (Dialogue Q A) :=
  LawfulMonad.mk' _ bind_done (fun _ _ => rfl) bind_assoc'

def question (q : Q) : Dialogue Q A (A q) :=
  ask q done

/-- Plays the dialogue against an answerer that keeps a state. -/
def run {σ : Type} (answer : (q : Q) → σ → A q × σ) : Dialogue Q A α → σ → α × σ
  | done a, s => (a, s)
  | ask q next, s =>
    let (a, s') := answer q s
    (next a).run answer s'

theorem run_bind {σ : Type} (answer : (q : Q) → σ → A q × σ) (d : Dialogue Q A α)
    (f : α → Dialogue Q A β) (s : σ) :
    (d >>= f).run answer s = (f (d.run answer s).1).run answer (d.run answer s).2 := by
  induction d generalizing s with
  | done a => rfl
  | ask q next ih => simp only [ask_bind, run, ih]

def play {M : Type → Type} [Monad M] (answer : (q : Q) → M (A q)) : Dialogue Q A α → M α
  | done a => pure a
  | ask q next => do
    let a ← answer q
    (next a).play answer

/-- Replaces every question by a dialogue over other questions. -/
def interpret {Q' : Type} {A' : Q' → Type} (f : (q : Q) → Dialogue Q' A' (A q)) :
    Dialogue Q A α → Dialogue Q' A' α
  | done a => done a
  | ask q next => (f q).bind fun answer => (next answer).interpret f

theorem interpret_bind {Q' : Type} {A' : Q' → Type} (f : (q : Q) → Dialogue Q' A' (A q))
    (d : Dialogue Q A α) (g : α → Dialogue Q A β) :
    (d >>= g).interpret f = d.interpret f >>= fun a => (g a).interpret f := by
  induction d with
  | done a => rfl
  | ask q next ih =>
    simp only [ask_bind, interpret, ih]
    exact (bind_assoc' (f q) _ _).symm

structure Exchange (Q : Type) (A : Q → Type) where
  question : Q
  answer : A question

def transcript {σ : Type} (answer : (q : Q) → σ → A q × σ) :
    Dialogue Q A α → σ → List (Exchange Q A)
  | done _, _ => []
  | ask q next, s =>
    let (a, s') := answer q s
    ⟨q, a⟩ :: (next a).transcript answer s'

@[simp] theorem transcript_done {σ : Type} (answer : (q : Q) → σ → A q × σ) (a : α) (s : σ) :
    (done a : Dialogue Q A α).transcript answer s = [] :=
  rfl

theorem transcript_bind {σ : Type} (answer : (q : Q) → σ → A q × σ) (d : Dialogue Q A α)
    (f : α → Dialogue Q A β) (s : σ) :
    (d >>= f).transcript answer s =
      d.transcript answer s ++ (f (d.run answer s).1).transcript answer (d.run answer s).2 := by
  induction d generalizing s with
  | done a => rfl
  | ask q next ih => simp only [ask_bind, run, transcript, ih, List.cons_append]

end Dialogue
end ContainerBuild
