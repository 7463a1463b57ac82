import ContainerBuild.Proofs.Scheduler.Plan

/-!
# What one move does

`Run.Step` lists what a move can do, each case with the whole state after it. A run that is not over
has a possible move, and a sequence of moves is no longer than the work at its start, so every run
comes to its end whichever moves are chosen.
-/

namespace ContainerBuild
namespace Scheduler

namespace Task

def error? (t : Task) : Option String :=
  t.ending.error?

/-- What the end of a task makes of the outcome of its step. -/
def close (t : Task) (now : Nat) (o : StepOutcome) : StepOutcome :=
  match t.ending.result with
  | .ok artifact => o.finish .completed artifact now
  | .error _ => o.finish .failed none now

end Task

namespace Run

variable {C : Type}

theorem record_eq (r : Run C) (t : Task) :
    r.record t = { r with outcomes := r.outcomes.modify t.index (t.close r.now) } := by
  have hc : t.close r.now = fun o => t.close r.now o := rfl
  rw [hc]
  unfold record Task.close
  cases t.ending.result <;> rfl

/-- What a move makes of a run. -/
inductive Step : Run C → Run C → Prop
  | skip {r : Run C} {e : Registered C} {rest : List (Registered C)} (hi : r.inline = none)
      (hp : r.pending = e :: rest) (ha : e.step.applies r.config = false) :
      Step r { r with pending := rest, now := r.now + 1 }
  | dispatchInline {r : Run C} {e : Registered C} {rest : List (Registered C)}
      (hi : r.inline = none) (hp : r.pending = e :: rest) (ha : e.step.applies r.config = true)
      (hm : e.mode = .sync) :
      Step r { r with
        pending := rest
        outcomes := r.outcomes ++ [(StepOutcome.pending e.step.name e.mode).start (r.now + 1)]
        inline := some (e.task r.config r.outcomes.length)
        happenings := r.happenings ++ [.started r.outcomes.length e.step.name .sync]
        now := r.now + 1 }
  | dispatchTask {r : Run C} {e : Registered C} {rest : List (Registered C)}
      (hi : r.inline = none) (hp : r.pending = e :: rest) (ha : e.step.applies r.config = true)
      (hm : e.mode = .async) :
      Step r { r with
        pending := rest
        outcomes := r.outcomes ++ [(StepOutcome.pending e.step.name e.mode).start (r.now + 1)]
        waiting := r.waiting ++ [e.task r.config r.outcomes.length]
        now := r.now + 1 }
  | inlineDone {r : Run C} {t : Task} (hi : r.inline = some t) (he : t.error? = none) :
      Step r { r with
        outcomes := r.outcomes.modify t.index (t.close r.now)
        inline := none
        happenings := r.happenings ++ [.ended t.index t.name]
        now := r.now + 1 }
  | inlineFailed {r : Run C} {t : Task} {reason : String} (hi : r.inline = some t)
      (he : t.error? = some reason) :
      Step r { r with
        outcomes := r.outcomes.modify t.index (t.close r.now)
        inline := none
        pending := []
        failure := some (t.name, reason)
        happenings := r.happenings ++ [.ended t.index t.name]
        now := r.now + 1 }
  | begin {r : Run C} {t : Task} {l l' : List Task} (hw : r.waiting = l ++ t :: l') :
      Step r { r with
        waiting := l ++ l'
        running := r.running ++ [t]
        happenings := r.happenings ++ [.started t.index t.name t.mode]
        now := r.now + 1 }
  | finish {r : Run C} {t : Task} {l l' : List Task} (hr : r.running = l ++ t :: l') :
      Step r { r with
        running := l ++ l'
        ended := r.ended ++ [t]
        happenings := r.happenings ++ [.ended t.index t.name]
        now := r.now + 1 }
  | joinDone {r : Run C} {t : Task} {l l' : List Task} (hi : r.inline = none)
      (hp : r.pending = []) (hd : r.ended = l ++ t :: l') (he : t.error? = none) :
      Step r { r with
        outcomes := r.outcomes.modify t.index (t.close r.now)
        ended := l ++ l'
        now := r.now + 1 }
  | joinFailed {r : Run C} {t : Task} {l l' : List Task} {reason : String} (hi : r.inline = none)
      (hp : r.pending = []) (hd : r.ended = l ++ t :: l') (he : t.error? = some reason) :
      Step r { r with
        outcomes := r.outcomes.modify t.index (t.close r.now)
        ended := l ++ l'
        taskFailures := (t.index, t.name, reason) :: r.taskFailures
        now := r.now + 1 }

theorem split_of_getElem? {α : Type} {l : List α} {k : Nat} {a : α} (h : l[k]? = some a) :
    l = l.take k ++ a :: l.drop (k + 1) ∧ l.eraseIdx k = l.take k ++ l.drop (k + 1) := by
  obtain ⟨hk, rfl⟩ := List.getElem?_eq_some_iff.1 h
  refine ⟨?_, List.eraseIdx_eq_take_drop_succ l k⟩
  rw [← List.drop_eq_getElem_cons hk, List.take_append_drop]

theorem step_of_advance {r r' : Run C} (h : r.advance? = some r') : Step r r' := by
  unfold advance? at h
  split at h
  · rename_i t hi
    obtain rfl := Option.some.inj h
    unfold endInline
    rw [record_eq]
    cases hr : t.ending.result with
    | ok artifact => exact .inlineDone hi (by simp [Task.error?, Ending.error?, hr])
    | error reason => exact .inlineFailed hi (by simp [Task.error?, Ending.error?, hr])
  · rename_i e rest hi hp
    obtain rfl := Option.some.inj h
    split
    · rename_i ha
      unfold dispatch
      cases hm : e.mode with
      | sync => simpa [hm, Registered.task] using Step.dispatchInline hi hp ha hm
      | async => simpa [hm, Registered.task] using Step.dispatchTask hi hp ha hm
    · rename_i ha
      exact .skip hi hp (by simpa using ha)
  · simp at h

theorem step_of_begin {r r' : Run C} {k : Nat} (h : r.begin? k = some r') : Step r r' := by
  obtain ⟨t, ht, rfl⟩ := Option.map_eq_some_iff.1 h
  obtain ⟨hw, he⟩ := split_of_getElem? ht
  rw [he]
  exact .begin hw

theorem step_of_finish {r r' : Run C} {k : Nat} (h : r.finish? k = some r') : Step r r' := by
  obtain ⟨t, ht, rfl⟩ := Option.map_eq_some_iff.1 h
  obtain ⟨hw, he⟩ := split_of_getElem? ht
  rw [he]
  exact .finish hw

theorem step_of_join {r r' : Run C} {k : Nat} (h : r.join? k = some r') : Step r r' := by
  unfold join? at h
  split at h
  · rename_i hc
    obtain ⟨hi, hp⟩ : r.inline = none ∧ r.pending = [] := by simpa using hc
    obtain ⟨t, ht, rfl⟩ := Option.map_eq_some_iff.1 h
    obtain ⟨hd, he⟩ := split_of_getElem? ht
    unfold joinTask
    rw [record_eq, he]
    cases hr : t.ending.result with
    | ok artifact => exact .joinDone hi hp hd (by simp [Task.error?, Ending.error?, hr])
    | error reason => exact .joinFailed hi hp hd (by simp [Task.error?, Ending.error?, hr])
  · simp at h

theorem step_of_move {r r' : Run C} {c : Choice} (h : r.move c = some r') : Step r r' := by
  cases c with
  | advance => exact step_of_advance h
  | begin k => exact step_of_begin h
  | finish k => exact step_of_finish h
  | join k => exact step_of_join h

/-- The run after some choices, if each is possible in its turn. -/
def moves (r : Run C) : List Choice → Option (Run C)
  | [] => some r
  | c :: choices => (r.move c).bind fun next => next.moves choices

theorem moves_cons_iff {r r' : Run C} {c : Choice} {choices : List Choice} :
    r.moves (c :: choices) = some r' ↔
      ∃ next, r.move c = some next ∧ next.moves choices = some r' :=
  Option.bind_eq_some_iff

/-- What every step preserves holds after every sequence of moves. -/
theorem moves_induction {motive : Run C → Prop} (hstep : ∀ r r', Step r r' → motive r → motive r')
    {r r' : Run C} {choices : List Choice} (h : r.moves choices = some r') (hr : motive r) :
    motive r' := by
  induction choices generalizing r with
  | nil => exact Option.some.inj h ▸ hr
  | cons c choices ih =>
    obtain ⟨next, hm, hn⟩ := moves_cons_iff.1 h
    exact ih hn (hstep r next (step_of_move hm) hr)

/-- A run makes no more moves than it has work. -/
theorem length_add_work_le {r r' : Run C} {choices : List Choice}
    (h : r.moves choices = some r') : choices.length + r'.work ≤ r.work := by
  induction choices generalizing r with
  | nil => simp [Option.some.inj h]
  | cons c choices ih =>
    obtain ⟨next, hm, hn⟩ := moves_cons_iff.1 h
    have hw := work_move_lt hm
    have := ih hn
    simp only [List.length_cons]
    omega

/-- As long as a run is not over, the first choice is possible. -/
theorem isSome_move_firstChoice {r : Run C} (h : r.isOver = false) :
    (r.move r.firstChoice).isSome = true := by
  unfold firstChoice
  by_cases ha : (r.inline.isSome || !r.pending.isEmpty) = true
  · rw [if_pos ha]
    simp only [move, advance?]
    split
    · rfl
    · rfl
    · rename_i hi hp
      simp [hi, hp] at ha
  · obtain ⟨hi, hp⟩ : r.inline = none ∧ r.pending = [] := by simpa using ha
    rw [if_neg ha]
    cases hw : r.waiting with
    | cons t l => simp [move, begin?, hw]
    | nil =>
      cases hr : r.running with
      | cons t l => simp [move, finish?, hr]
      | nil =>
        cases he : r.ended with
        | cons t l => simp [move, join?, hi, hp, he]
        | nil => simp [isOver, hi, hp, hw, hr, he] at h

/-- Making the first choice again and again is one of the ways to the end. -/
theorem exists_moves_complete (r : Run C) :
    ∃ choices, r.moves choices = some r.complete ∧ r.complete.isOver = true := by
  fun_induction complete r with
  | case1 r next h ih =>
    obtain ⟨choices, hm, ho⟩ := ih
    exact ⟨r.firstChoice :: choices, moves_cons_iff.2 ⟨next, h, hm⟩, ho⟩
  | case2 r h =>
    refine ⟨[], rfl, ?_⟩
    cases ho : r.isOver with
    | true => rfl
    | false =>
      have := isSome_move_firstChoice ho
      simp [h] at this

end Run
end Scheduler
end ContainerBuild
