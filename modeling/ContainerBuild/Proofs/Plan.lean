import ContainerBuild.Dialogue

/-!
# Dialogues that follow a plan

Much work is a plan: questions to be asked one after another, the first answer that is a failure ending
the work. `Course` says how such a plan goes, and `Follows` that a dialogue goes that way whatever its
surroundings answer. Dialogues that follow plans one after the other follow the joined plan, so a
dialogue is read off its parts.
-/

namespace ContainerBuild
namespace Dialogue

variable {Q : Type} {A : Q → Type} {ε α β : Type}

/-- How a plan goes: the exchanges made, and the error that the last of them ended it with, if there is
one. `trouble` is the error that an exchange ends the work with. -/
inductive Course (trouble : Exchange Q A → Option ε) :
    List Q → List (Exchange Q A) → Option ε → Prop
  | completed : Course trouble [] [] none
  | stopped {x : Exchange Q A} {plan : List Q} {e : ε} (bad : trouble x = some e) :
      Course trouble (x.question :: plan) [x] (some e)
  | next {x : Exchange Q A} {plan : List Q} {xs : List (Exchange Q A)} {o : Option ε}
      (fine : trouble x = none) (rest : Course trouble plan xs o) :
      Course trouble (x.question :: plan) (x :: xs) o

namespace Course

variable {trouble : Exchange Q A → Option ε} {plan more : List Q} {xs ys : List (Exchange Q A)}

theorem append {o : Option ε} (h : Course trouble plan xs none) (g : Course trouble more ys o) :
    Course trouble (plan ++ more) (xs ++ ys) o := by
  induction xs generalizing plan with
  | nil =>
    cases h
    exact g
  | cons x xs ih =>
    cases h with
    | next fine rest => exact .next fine (ih rest)

/-- What would have come later does not matter to a plan that was stopped. -/
theorem append_of_stopped {e : ε} (h : Course trouble plan xs (some e)) (more : List Q) :
    Course trouble (plan ++ more) xs (some e) := by
  induction xs generalizing plan with
  | nil => cases h
  | cons x xs ih =>
    cases h with
    | stopped bad => exact .stopped bad
    | next fine rest => exact .next fine (ih rest)

theorem questions_isPrefix {o : Option ε} (h : Course trouble plan xs o) :
    xs.map Exchange.question <+: plan := by
  induction h with
  | completed => exact List.prefix_rfl
  | stopped bad => exact (List.prefix_cons_inj _).2 (List.nil_prefix)
  | next fine rest ih => exact (List.prefix_cons_inj _).2 ih

theorem of_completed (h : Course trouble plan xs none) :
    xs.map Exchange.question = plan ∧ ∀ x ∈ xs, trouble x = none := by
  induction xs generalizing plan with
  | nil =>
    cases h
    simp
  | cons x xs ih =>
    cases h with
    | next fine rest =>
      obtain ⟨hq, hall⟩ := ih rest
      exact ⟨by simp [hq], List.forall_mem_cons.2 ⟨fine, hall⟩⟩

/-- A plan that was stopped was stopped by its last exchange, the only one that went wrong. -/
theorem of_stopped {e : ε} (h : Course trouble plan xs (some e)) :
    ∃ (before : List (Exchange Q A)) (last : Exchange Q A),
      xs = before ++ [last] ∧ (∀ x ∈ before, trouble x = none) ∧ trouble last = some e := by
  induction xs generalizing plan with
  | nil => cases h
  | cons x xs ih =>
    cases h with
    | stopped bad => exact ⟨[], x, rfl, by simp, bad⟩
    | next fine rest =>
      obtain ⟨before, last, rfl, hall, hlast⟩ := ih rest
      exact ⟨x :: before, last, rfl, List.forall_mem_cons.2 ⟨fine, hall⟩, hlast⟩

end Course

/-- A single question, of whose answer something is made: it is all that is asked, and its answer is all
that the result has. -/
theorem question_map {q : Q} (read : A q → Except ε α) (f : α → β) {σ : Type}
    (answer : (q : Q) → σ → A q × σ) (s : σ) :
    let c := ExceptT.mk (question q >>= fun a => pure (read a)) >>= fun r => Pure.pure (f r)
    c.run.transcript answer s = [⟨q, (answer q s).1⟩] ∧
      (c.run.run answer s).1 = (read (answer q s).1).map f := by
  intro c
  have once : c = ExceptT.mk (ask q fun a => done ((read a).map f)) := by
    apply congrArg (ask q)
    funext a
    change (ExceptT.bindCont _ (read a) : Dialogue Q A (Except ε β)) = done ((read a).map f)
    cases read a with
    | ok r => rfl
    | error e => rfl
  rw [once]
  exact ⟨rfl, rfl⟩

/-- A dialogue that may fail asks the questions of a plan up to the first that goes wrong, and reports
the error of that one. If none goes wrong, `value` says what the exchanges make of the result. -/
def Follows (trouble : Exchange Q A → Option ε) (plan : List Q)
    (value : List (Exchange Q A) → α → Prop) (c : ExceptT ε (Dialogue Q A) α) : Prop :=
  ∀ (σ : Type) (answer : (q : Q) → σ → A q × σ) (s : σ),
    (∀ a, (c.run.run answer s).1 = .ok a →
      Course trouble plan (c.run.transcript answer s) none ∧ value (c.run.transcript answer s) a) ∧
    ∀ e, (c.run.run answer s).1 = .error e → Course trouble plan (c.run.transcript answer s) (some e)

namespace Follows

variable {trouble : Exchange Q A → Option ε} {plan more : List Q}

theorem pure {value : List (Exchange Q A) → α → Prop} {a : α} (h : value [] a) :
    Follows trouble [] value (Pure.pure a) := by
  intro σ answer s
  refine ⟨fun b hb => ?_, fun e he => ?_⟩
  · cases hb
    exact ⟨.completed, h⟩
  · cases he

theorem ask {q : Q} {f : A q → Except ε α} {value : List (Exchange Q A) → α → Prop}
    (bad : ∀ a e, f a = .error e → trouble ⟨q, a⟩ = some e)
    (good : ∀ a r, f a = .ok r → trouble ⟨q, a⟩ = none ∧ value [⟨q, a⟩] r) :
    Follows trouble [q] value (ExceptT.mk (Dialogue.ask q fun a => done (f a))) := by
  intro σ answer s
  refine ⟨fun r (hr : f (answer q s).1 = .ok r) => ?_, fun e (he : f (answer q s).1 = .error e) => ?_⟩
  · obtain ⟨fine, hv⟩ := good _ r hr
    exact ⟨.next (x := ⟨q, _⟩) fine .completed, hv⟩
  · exact .stopped (x := ⟨q, _⟩) (bad _ e he)

theorem askReported {q : Q} (read : A q → Except ε α) (report : ε → ε)
    {value : List (Exchange Q A) → α → Prop}
    (bad : ∀ a e, read a = .error e → trouble ⟨q, a⟩ = some (report e))
    (good : ∀ a r, read a = .ok r → trouble ⟨q, a⟩ = none ∧ value [⟨q, a⟩] r) :
    Follows trouble [q] value
      (ExceptT.mk (Dialogue.ask q fun a => done ((read a).mapError report))) := by
  apply Follows.ask
  · intro a e h
    cases hr : read a with
    | ok r =>
      rw [hr] at h
      cases h
    | error e' =>
      rw [hr] at h
      cases h
      exact bad a _ hr
  · intro a r h
    cases hr : read a with
    | ok r' =>
      rw [hr] at h
      cases h
      exact good a _ hr
    | error e =>
      rw [hr] at h
      cases h

/-- Plans are followed one after the other. -/
theorem bind {c : ExceptT ε (Dialogue Q A) α} {f : α → ExceptT ε (Dialogue Q A) β}
    {value : List (Exchange Q A) → α → Prop} {result : α → List (Exchange Q A) → β → Prop}
    {both : List (Exchange Q A) → β → Prop} (hc : Follows trouble plan value c)
    (hf : ∀ a, Follows trouble more (result a) (f a))
    (join : ∀ xs ys a b, value xs a → result a ys b → both (xs ++ ys) b) :
    Follows trouble (plan ++ more) both (c >>= f) := by
  intro σ answer s
  obtain ⟨ok, error⟩ := hc σ answer s
  have hrun : (c >>= f).run = c.run >>= fun
      | .ok a => (f a).run
      | .error e => done (.error e) := rfl
  rw [hrun, run_bind, transcript_bind]
  cases hr : (c.run.run answer s).1 with
  | error e =>
    refine ⟨fun b hb => ?_, fun e' he => ?_⟩
    · cases hb
    · cases he
      simpa using (error e hr).append_of_stopped more
  | ok a =>
    obtain ⟨course, hv⟩ := ok a hr
    obtain ⟨ok', error'⟩ := hf a σ answer (c.run.run answer s).2
    refine ⟨fun b hb => ?_, fun e he => ?_⟩
    · obtain ⟨course', hv'⟩ := ok' b hb
      exact ⟨course.append course', join _ _ a b hv hv'⟩
    · exact course.append (error' e he)

theorem map {c : ExceptT ε (Dialogue Q A) α} {f : α → β} {value : List (Exchange Q A) → α → Prop}
    {result : List (Exchange Q A) → β → Prop} (hc : Follows trouble plan value c)
    (hf : ∀ xs a, value xs a → result xs (f a)) :
    Follows trouble plan result (c >>= fun a => Pure.pure (f a)) := by
  have h : Follows trouble (plan ++ []) result (c >>= fun a => Pure.pure (f a)) := by
    have last (a : α) : Follows trouble [] (fun xs b => xs = [] ∧ b = f a) (Pure.pure (f a)) :=
      .pure ⟨rfl, rfl⟩
    refine hc.bind last ?_
    rintro xs ys a b hv ⟨rfl, rfl⟩
    rw [List.append_nil]
    exact hf xs a hv
  rwa [List.append_nil] at h

/-- What a dialogue that follows a plan comes to. It asks the questions of the plan in their order. If
nothing goes wrong it asks them all and has a result; what goes wrong is the last that it asks, and gives
the error. -/
theorem outcome {value : List (Exchange Q A) → α → Prop} {c : ExceptT ε (Dialogue Q A) α}
    (h : Follows trouble plan value c) {σ : Type} (answer : (q : Q) → σ → A q × σ) (s : σ) :
    let xs := c.run.transcript answer s
    let result := (c.run.run answer s).1
    xs.map Exchange.question <+: plan ∧
      ((∀ x ∈ xs, trouble x = none) → xs.map Exchange.question = plan ∧
        ∃ a, result = .ok a ∧ value xs a) ∧
      ∀ x ∈ xs, ∀ e, trouble x = some e → xs.getLast? = some x ∧
        (∀ y ∈ xs.dropLast, trouble y = none) ∧ result = .error e := by
  intro xs result
  obtain ⟨ok, error⟩ := h σ answer s
  cases hr : result with
  | ok a =>
    obtain ⟨course, hv⟩ := ok a hr
    obtain ⟨hq, fine⟩ := course.of_completed
    refine ⟨course.questions_isPrefix, fun _ => ⟨hq, a, rfl, hv⟩, fun x hx e bad => ?_⟩
    rw [fine x hx] at bad
    cases bad
  | error e =>
    have course := error e hr
    obtain ⟨before, last, hxs, fine, bad⟩ := course.of_stopped
    change xs = _ at hxs
    refine ⟨course.questions_isPrefix, fun none_failed => ?_, fun x hx e' bad' => ?_⟩
    · have hlast : last ∈ xs := by simp [hxs]
      rw [none_failed last hlast] at bad
      cases bad
    · rw [hxs, List.mem_append, List.mem_singleton] at hx
      rcases hx with hx | rfl
      · rw [fine x hx] at bad'
        cases bad'
      · rw [bad'] at bad
        obtain rfl := Option.some.inj bad
        exact ⟨by simp [hxs], by rwa [hxs, List.dropLast_concat], rfl⟩

end Follows
end Dialogue
end ContainerBuild
