import ContainerBuild.Proofs.Scheduler.Moves

/-!
# The ledger of a run

At any time the steps that were dispatched are a first part of the plan, and the rest of the plan can be
read off the steps that were not looked at yet. Each dispatched step is either settled, so that its
outcome is recorded, or it is the inline step or one of the tasks. `Run.Ledger` says this of a state,
naming the dispatched steps and the settled ones, and every move leaves it true of the next state.
-/

namespace ContainerBuild
namespace Scheduler

theorem perm_added {α : Type} {a b b' l : List α} {x : α} (h : (a ++ b).Perm l)
    (hb : b'.Perm (x :: b)) : (a ++ b').Perm (l ++ [x]) := by
  have hx : (x :: (a ++ b)).Perm (l ++ [x]) :=
    (h.cons x).trans (List.perm_append_singleton x l).symm
  exact ((hb.append_left a).trans List.perm_middle).trans hx

/-- What passes from one of two lists to the other stays in both together. -/
theorem perm_moved {α : Type} {a b b' l : List α} {x : α} (h : (a ++ b).Perm l)
    (hb : b.Perm (x :: b')) : (a ++ [x] ++ b').Perm l := by
  rw [List.append_assoc]
  exact (hb.symm.append_left a).trans h

theorem perm_middle_between {α : Type} (a l l' b : List α) (x : α) :
    (a ++ (l ++ x :: l') ++ b).Perm (x :: (a ++ (l ++ l') ++ b)) := by
  have h : ((a ++ l) ++ x :: (l' ++ b)).Perm (x :: ((a ++ l) ++ (l' ++ b))) := List.perm_middle
  simpa only [List.append_assoc, List.cons_append] using h

theorem perm_passed {α : Type} (l l' m : List α) (x : α) :
    (l ++ l' ++ (m ++ [x])).Perm (l ++ x :: l' ++ m) := by
  have hput : (l ++ l' ++ (m ++ [x])).Perm (x :: (l ++ l' ++ m)) := by
    rw [← List.append_assoc]
    exact List.perm_append_singleton x _
  exact hput.trans (perm_middle_between [] l l' m x).symm

variable {C : Type}

namespace Task

def failure? (t : Task) : Option (String × String) :=
  t.error?.map (t.name, ·)

def failureIn (mode : StepMode) (t : Task) : Option (String × String) :=
  if t.mode = mode then t.failure? else none

/-- The outcome of a step that was dispatched and is not settled. -/
def opened (t : Task) : StepOutcome :=
  ⟨t.name, t.mode, .running, none, none, none⟩

/-- The outcome of a step that is settled. -/
def outcome (t : Task) : StepOutcome :=
  ⟨t.name, t.mode, if t.error?.isSome then .failed else .completed, t.ending.artifact?, none, none⟩

/-- The outcome of a step when some are settled. -/
def standing (settled : List Task) (t : Task) : StepOutcome :=
  if t ∈ settled then t.outcome else t.opened

theorem untimed_close {t : Task} {o : StepOutcome} (h : o.untimed = t.opened) (now : Nat) :
    (t.close now o).untimed = t.outcome := by
  simp only [StepOutcome.untimed, opened, StepOutcome.mk.injEq, and_true] at h
  obtain ⟨hn, hm, -⟩ := h
  unfold close outcome error? Ending.error? Ending.artifact?
  cases t.ending.result <;> simp [StepOutcome.finish, StepOutcome.untimed, hn, hm]

end Task

/-- Steps as they are dispatched one after another. -/
def tasksOf (config : C) (done : List (Registered C)) : List Task :=
  done.mapIdx fun i e => e.task config i

@[simp] theorem tasksOf_concat (config : C) (done : List (Registered C)) (e : Registered C) :
    tasksOf config (done ++ [e]) = tasksOf config done ++ [e.task config done.length] :=
  List.mapIdx_concat

@[simp] theorem length_tasksOf (config : C) (done : List (Registered C)) :
    (tasksOf config done).length = done.length :=
  List.length_mapIdx

theorem map_tasksOf {β : Type} (g : Task → β) (config : C) (done : List (Registered C)) :
    (tasksOf config done).map g = done.mapIdx fun i e => g (e.task config i) := by
  apply List.ext_getElem?
  intro i
  rw [tasksOf, List.getElem?_map, List.getElem?_mapIdx, List.getElem?_mapIdx, Option.map_map]
  rfl

theorem map_tasksOf_concat {β : Type} (g : Task → β) (config : C) (done : List (Registered C))
    (e : Registered C) :
    (tasksOf config (done ++ [e])).map g =
      (tasksOf config done).map g ++ [g (e.task config done.length)] := by
  rw [tasksOf_concat, List.map_append]
  rfl

theorem index_of_getElem? {config : C} {done : List (Registered C)} {i : Nat} {t : Task}
    (h : (tasksOf config done)[i]? = some t) : t.index = i := by
  rw [tasksOf, List.getElem?_mapIdx] at h
  obtain ⟨e, -, rfl⟩ := Option.map_eq_some_iff.1 h
  rfl

theorem getElem?_of_mem {config : C} {done : List (Registered C)} {t : Task}
    (h : t ∈ tasksOf config done) : (tasksOf config done)[t.index]? = some t := by
  obtain ⟨i, hi⟩ := List.mem_iff_getElem?.1 h
  rwa [index_of_getElem? hi]

theorem index_lt_of_mem {config : C} {done : List (Registered C)} {t : Task}
    (h : t ∈ tasksOf config done) : t.index < done.length := by
  have := (List.getElem?_eq_some_iff.1 (getElem?_of_mem h)).1
  rwa [length_tasksOf] at this

theorem nodup_tasksOf (config : C) (done : List (Registered C)) : (tasksOf config done).Nodup := by
  refine List.pairwise_iff_getElem.2 fun i j hi hj hij heq => ?_
  have hti := index_of_getElem? (List.getElem?_eq_getElem hi)
  have htj := index_of_getElem? (List.getElem?_eq_getElem hj)
  rw [heq] at hti
  omega

/-- Recording what one task comes to settles the outcome of its step and no other. -/
theorem map_untimed_modify {config : C} {done : List (Registered C)} {settled : List Task}
    {outcomes : List StepOutcome} {t : Task}
    (h : outcomes.map StepOutcome.untimed = (tasksOf config done).map (Task.standing settled))
    (ht : t ∈ tasksOf config done) (hs : t ∉ settled) (now : Nat) :
    (outcomes.modify t.index (t.close now)).map StepOutcome.untimed =
      (tasksOf config done).map (Task.standing (t :: settled)) := by
  apply List.ext_getElem?
  intro i
  have hi : (outcomes[i]?).map StepOutcome.untimed =
      ((tasksOf config done)[i]?).map (Task.standing settled) := by
    simpa using congrArg (fun l : List StepOutcome => l[i]?) h
  rw [List.getElem?_map, List.getElem?_map, List.getElem?_modify]
  by_cases hti : t.index = i
  · subst hti
    rw [getElem?_of_mem ht] at hi ⊢
    obtain ⟨o, ho, hu⟩ := Option.map_eq_some_iff.1 hi
    have hopened : o.untimed = t.opened := by simpa [Task.standing, hs] using hu
    simp [ho, Task.untimed_close hopened, Task.standing]
  · cases hu : (tasksOf config done)[i]? with
    | none => simpa [hu, hti] using hi
    | some u =>
      have hne : u ≠ t := fun hut => hti (hut ▸ index_of_getElem? hu)
      simpa [hu, hti, Task.standing, hne] using hi

namespace Run

/-- The inline step and the tasks, whose results are not recorded yet. -/
def unsettled (r : Run C) : List Task :=
  r.inline.toList ++ r.waiting ++ r.running ++ r.ended

/-- The failure that keeps later steps from being dispatched, also while its step still runs. -/
def failing (r : Run C) : Option (String × String) :=
  r.failure.or (r.inline.bind Task.failure?)

def ahead (r : Run C) : List (Registered C) :=
  if r.failing.isSome then []
  else throughFailure r.config (r.pending.filter fun e => e.step.applies r.config)

theorem isOver_iff (r : Run C) :
    r.isOver = true ↔ r.inline = none ∧ r.pending = [] ∧ r.unsettled = [] := by
  simp only [isOver, unsettled, Bool.and_eq_true, Option.isNone_iff_eq_none, List.isEmpty_iff,
    List.append_eq_nil_iff]
  constructor
  · rintro ⟨⟨⟨⟨hi, hp⟩, hw⟩, hr⟩, he⟩
    exact ⟨hi, hp, ⟨⟨by simp [hi], hw⟩, hr⟩, he⟩
  · rintro ⟨hi, hp, ⟨⟨-, hw⟩, hr⟩, he⟩
    exact ⟨⟨⟨⟨hi, hp⟩, hw⟩, hr⟩, he⟩

theorem unsettled_of_inline {r : Run C} {t : Task} (h : r.inline = some t) :
    r.unsettled = t :: (r.waiting ++ r.running ++ r.ended) := by
  simp [unsettled, h]

theorem unsettled_of_ended {r : Run C} {t : Task} {l l' : List Task} (h : r.ended = l ++ t :: l') :
    r.unsettled.Perm (t :: (r.inline.toList ++ r.waiting ++ r.running ++ (l ++ l'))) := by
  have := perm_middle_between (r.inline.toList ++ r.waiting ++ r.running) l l' [] t
  simpa [unsettled, h] using this

/-- How a run stands to a plan when some steps were dispatched and some of them are settled. -/
structure Ledger (config : C) (plan done : List (Registered C)) (settled : List Task) (r : Run C) :
    Prop where
  config_eq : r.config = config
  plan_eq : plan = done ++ r.ahead
  perm : (settled ++ r.unsettled).Perm (tasksOf config done)
  inline_mode : ∀ t, r.inline = some t → t.mode = .sync
  task_mode : ∀ t ∈ r.waiting ++ r.running ++ r.ended, t.mode = .async
  outcomes_eq : r.outcomes.map StepOutcome.untimed =
    (tasksOf config done).map (Task.standing settled)
  failing_eq : (tasksOf config done).findSome? (Task.failureIn .sync) = r.failing
  stopped : r.failure.isSome = true → r.inline = none ∧ r.pending = []
  taskFailures_iff : ∀ i name reason, (i, name, reason) ∈ r.taskFailures ↔
    ∃ t ∈ settled, t.mode = .async ∧ t.index = i ∧ t.name = name ∧ t.error? = some reason

namespace Ledger

variable {config : C} {plan done : List (Registered C)} {settled : List Task} {r : Run C}

theorem length_outcomes (h : Ledger config plan done settled r) :
    r.outcomes.length = done.length := by
  have := congrArg List.length h.outcomes_eq
  simpa using this

theorem mem_tasksOf (h : Ledger config plan done settled r) {t : Task} (ht : t ∈ r.unsettled) :
    t ∈ tasksOf config done :=
  h.perm.mem_iff.1 (List.mem_append_right _ ht)

theorem not_mem_settled (h : Ledger config plan done settled r) {t : Task} (ht : t ∈ r.unsettled) :
    t ∉ settled := by
  intro hs
  have hn := h.perm.nodup_iff.2 (nodup_tasksOf config done)
  exact (List.nodup_append.1 hn).2.2 t hs t ht rfl

theorem start (config : C) (steps : List (Registered C)) (only : Option String) :
    Ledger config (throughFailure config (steps.filter fun e =>
      only.all (· == e.step.name) && e.step.applies config)) [] [] (Run.start config steps only) where
  config_eq := rfl
  plan_eq := by
    simp only [ahead, failing, Run.start, List.filter_filter, Bool.and_comm, List.nil_append]
    rfl
  perm := .refl _
  inline_mode := by simp [Run.start]
  task_mode := by simp [Run.start]
  outcomes_eq := rfl
  failing_eq := rfl
  stopped := by simp [Run.start]
  taskFailures_iff := by simp [Run.start]

theorem skip (h : Ledger config plan done settled r) {e : Registered C} {rest : List (Registered C)}
    (hp : r.pending = e :: rest) (ha : e.step.applies r.config = false) :
    Ledger config plan done settled { r with pending := rest, now := r.now + 1 } :=
  { h with
    plan_eq := by
      have := h.plan_eq
      simp only [ahead, failing, hp, List.filter_cons, ha] at this ⊢
      exact this
    stopped := fun hf => by
      have := (h.stopped hf).2
      simp [hp] at this }

theorem failure_eq_none (h : Ledger config plan done settled r) {e : Registered C}
    {rest : List (Registered C)} (hp : r.pending = e :: rest) : r.failure = none := by
  cases hf : r.failure with
  | none => rfl
  | some x =>
    have := (h.stopped (by simp [hf])).2
    simp [hp] at this

theorem task_not_mem (h : Ledger config plan done settled r) (e : Registered C) :
    e.task config done.length ∉ settled := by
  intro hs
  have := index_lt_of_mem (h.perm.mem_iff.1 (List.mem_append_left _ hs))
  simp at this

theorem outcomes_dispatch (h : Ledger config plan done settled r) (e : Registered C) (now : Nat) :
    (r.outcomes ++ [(StepOutcome.pending e.step.name e.mode).start now]).map StepOutcome.untimed =
      (tasksOf config (done ++ [e])).map (Task.standing settled) := by
  rw [List.map_append, h.outcomes_eq, map_tasksOf_concat, Task.standing,
    if_neg (h.task_not_mem e)]
  rfl

theorem plan_dispatch (h : Ledger config plan done settled r) {e : Registered C}
    {rest : List (Registered C)} (hi : r.inline = none) (hp : r.pending = e :: rest)
    (ha : e.step.applies r.config = true) :
    plan = done ++ [e] ++
      if e.stops config then []
      else throughFailure config (rest.filter fun e => e.step.applies config) := by
  have hplan := h.plan_eq
  obtain rfl := h.config_eq
  have hn : r.failing = none := by simp [failing, hi, h.failure_eq_none hp]
  rw [hplan, ahead, hn, hp]
  simp only [Option.isSome_none, Bool.false_eq_true, if_false, List.filter_cons, ha, if_true,
    throughFailure]
  split <;> simp

theorem failing_dispatch (h : Ledger config plan done settled r) {e : Registered C}
    {rest : List (Registered C)} (hi : r.inline = none) (hp : r.pending = e :: rest) :
    (tasksOf config (done ++ [e])).findSome? (Task.failureIn .sync) =
      Task.failureIn .sync (e.task config done.length) := by
  have hn : r.failing = none := by simp [failing, hi, h.failure_eq_none hp]
  rw [tasksOf_concat, List.findSome?_append, h.failing_eq, hn]
  simp

theorem isSome_failureIn_task (e : Registered C) (config : C) (i : Nat) :
    (Task.failureIn .sync (e.task config i)).isSome = e.stops config := by
  unfold Task.failureIn Task.failure? Task.error? Registered.stops
  cases hm : e.mode <;> simp [hm]

theorem dispatchInline (h : Ledger config plan done settled r) {e : Registered C}
    {rest : List (Registered C)} (hi : r.inline = none) (hp : r.pending = e :: rest)
    (ha : e.step.applies r.config = true) (hm : e.mode = .sync) :
    Ledger config plan (done ++ [e]) settled { r with
      pending := rest
      outcomes := r.outcomes ++ [(StepOutcome.pending e.step.name e.mode).start (r.now + 1)]
      inline := some (e.task r.config r.outcomes.length)
      happenings := r.happenings ++ [.started r.outcomes.length e.step.name .sync]
      now := r.now + 1 } := by
  have hl := h.length_outcomes
  have hf := h.failure_eq_none hp
  have hfail := h.failing_dispatch hi hp
  have hstop := isSome_failureIn_task e config done.length
  have hplan := h.plan_dispatch hi hp ha
  have hperm := h.perm
  obtain rfl := h.config_eq
  have hin : Task.failureIn .sync (e.task r.config done.length) =
      (e.task r.config done.length).failure? := by simp [Task.failureIn, hm]
  refine { h with
    plan_eq := ?_, perm := ?_, inline_mode := ?_, outcomes_eq := h.outcomes_dispatch e _,
    failing_eq := ?_, stopped := ?_ }
  · simpa [ahead, failing, hf, hl, ← hin, hstop] using hplan
  · rw [tasksOf_concat]
    refine perm_added hperm ?_
    simp [unsettled, hi, hl]
  · rintro t ⟨⟩
    exact hm
  · rw [hfail, hin]
    simp [failing, hf, hl]
  · simp [hf]

theorem dispatchTask (h : Ledger config plan done settled r) {e : Registered C}
    {rest : List (Registered C)} (hi : r.inline = none) (hp : r.pending = e :: rest)
    (ha : e.step.applies r.config = true) (hm : e.mode = .async) :
    Ledger config plan (done ++ [e]) settled { r with
      pending := rest
      outcomes := r.outcomes ++ [(StepOutcome.pending e.step.name e.mode).start (r.now + 1)]
      waiting := r.waiting ++ [e.task r.config r.outcomes.length]
      now := r.now + 1 } := by
  have hl := h.length_outcomes
  have hf := h.failure_eq_none hp
  have hfail := h.failing_dispatch hi hp
  have hplan := h.plan_dispatch hi hp ha
  have hperm := h.perm
  have hmode := h.task_mode
  obtain rfl := h.config_eq
  have hstop : e.stops r.config = false := by simp [Registered.stops, hm]
  have hin : Task.failureIn .sync (e.task r.config done.length) = none := by
    simp [Task.failureIn, hm]
  refine { h with
    plan_eq := ?_, perm := ?_, task_mode := ?_, outcomes_eq := h.outcomes_dispatch e _,
    failing_eq := ?_, stopped := ?_ }
  · simpa [ahead, failing, hf, hi, hstop] using hplan
  · rw [tasksOf_concat, ← hl]
    refine perm_added hperm ?_
    have := perm_middle_between r.inline.toList r.waiting [] (r.running ++ r.ended)
      (e.task r.config r.outcomes.length)
    simpa [unsettled] using this
  · intro t ht
    simp only [List.mem_append, List.mem_singleton] at ht hmode
    rcases ht with (((ht | rfl) | ht) | ht)
    · exact hmode t (.inl (.inl ht))
    · exact hm
    · exact hmode t (.inl (.inr ht))
    · exact hmode t (.inr ht)
  · rw [hfail, hin]
    simp [failing, hf, hi]
  · simp [hf]

theorem failure_eq_none_of_inline (h : Ledger config plan done settled r) {t : Task}
    (hi : r.inline = some t) : r.failure = none := by
  cases hf : r.failure with
  | none => rfl
  | some x =>
    have := (h.stopped (by simp [hf])).1
    simp [hi] at this

theorem perm_settle (h : Ledger config plan done settled r) {t : Task} {rest : List Task}
    (hu : r.unsettled.Perm (t :: rest)) : (t :: settled ++ rest).Perm (tasksOf config done) := by
  have hm := perm_moved h.perm hu
  exact ((List.perm_append_singleton t settled).symm.append_right rest).trans hm

theorem outcomes_settle (h : Ledger config plan done settled r) {t : Task} (ht : t ∈ r.unsettled)
    (now : Nat) :
    (r.outcomes.modify t.index (t.close now)).map StepOutcome.untimed =
      (tasksOf config done).map (Task.standing (t :: settled)) :=
  map_untimed_modify h.outcomes_eq (h.mem_tasksOf ht) (h.not_mem_settled ht) now

/-- The inline step is settled: with a failure nothing is dispatched any more, and else what is still to
be dispatched stays. -/
theorem settleInline (h : Ledger config plan done settled r) {t : Task} (hi : r.inline = some t)
    {pending : List (Registered C)} {failure : Option (String × String)} (hf : failure = t.failure?)
    (hp : pending = if failure.isSome then [] else r.pending) :
    Ledger config plan done (t :: settled) { r with
      outcomes := r.outcomes.modify t.index (t.close r.now)
      inline := none
      pending := pending
      failure := failure
      happenings := r.happenings ++ [.ended t.index t.name]
      now := r.now + 1 } := by
  have hr := h.failure_eq_none_of_inline hi
  have hm := h.inline_mode t hi
  have hplan := h.plan_eq
  have hfail := h.failing_eq
  have same : r.failing = failure := by simp [failing, hr, hi, hf]
  refine { h with
    plan_eq := ?_, perm := h.perm_settle (.of_eq (unsettled_of_inline hi)), inline_mode := ?_,
    outcomes_eq := h.outcomes_settle (by simp [unsettled, hi]) _, failing_eq := ?_, stopped := ?_,
    taskFailures_iff := ?_ }
  · rw [hplan, ahead, same, ahead, hp]
    simp only [failing, Option.bind_none, Option.or_none]
    split <;> rfl
  · simp
  · rw [hfail, same]
    simp [failing]
  · intro stopped
    rw [hp, if_pos stopped]
    exact ⟨rfl, rfl⟩
  · intro i name reason
    rw [h.taskFailures_iff]
    simp [hm]

/-- Tasks may pass from one list to another as long as each is in one of them. -/
theorem reorder (h : Ledger config plan done settled r) {waiting running ended : List Task}
    (hp : (waiting ++ running ++ ended).Perm (r.waiting ++ r.running ++ r.ended))
    (happenings : List Happening) (now : Nat) :
    Ledger config plan done settled { r with
      waiting := waiting
      running := running
      ended := ended
      happenings := happenings
      now := now } :=
  { h with
    perm := by
      refine List.Perm.trans (List.Perm.append_left settled ?_) h.perm
      simp only [unsettled, List.append_assoc] at hp ⊢
      exact List.Perm.append_left _ hp
    task_mode := fun t ht => h.task_mode t (hp.mem_iff.1 ht) }

theorem begin (h : Ledger config plan done settled r) {t : Task} {l l' : List Task}
    (hw : r.waiting = l ++ t :: l') :
    Ledger config plan done settled { r with
      waiting := l ++ l'
      running := r.running ++ [t]
      happenings := r.happenings ++ [.started t.index t.name t.mode]
      now := r.now + 1 } := by
  apply h.reorder
  rw [hw]
  exact (perm_passed l l' r.running t).append_right r.ended

theorem finish (h : Ledger config plan done settled r) {t : Task} {l l' : List Task}
    (hr : r.running = l ++ t :: l') :
    Ledger config plan done settled { r with
      running := l ++ l'
      ended := r.ended ++ [t]
      happenings := r.happenings ++ [.ended t.index t.name]
      now := r.now + 1 } := by
  apply h.reorder
  rw [hr]
  simpa only [List.append_assoc] using (perm_passed l l' r.ended t).append_left r.waiting

theorem mode_settle_joined (h : Ledger config plan done settled r) {t : Task} {l l' : List Task}
    (hd : r.ended = l ++ t :: l') :
    t.mode = .async ∧ ∀ u ∈ r.waiting ++ r.running ++ (l ++ l'), u.mode = .async := by
  have hmode := h.task_mode
  simp only [hd, List.mem_append, List.mem_cons] at hmode ⊢
  refine ⟨hmode t (by simp), ?_⟩
  rintro u (hu | hu | hu)
  · exact hmode u (.inl hu)
  · exact hmode u (.inr (.inl hu))
  · exact hmode u (.inr (.inr (.inr hu)))

theorem joinDone (h : Ledger config plan done settled r) {t : Task} {l l' : List Task}
    (hd : r.ended = l ++ t :: l') (he : t.error? = none) :
    Ledger config plan done (t :: settled) { r with
      outcomes := r.outcomes.modify t.index (t.close r.now)
      ended := l ++ l'
      now := r.now + 1 } := by
  obtain ⟨-, hmode⟩ := h.mode_settle_joined hd
  refine { h with
    perm := h.perm_settle (unsettled_of_ended hd), task_mode := hmode,
    outcomes_eq := h.outcomes_settle (by simp [unsettled, hd]) _, taskFailures_iff := ?_ }
  intro i name reason
  rw [h.taskFailures_iff]
  simp [he]

theorem joinFailed (h : Ledger config plan done settled r) {t : Task} {l l' : List Task}
    {reason : String} (hd : r.ended = l ++ t :: l') (he : t.error? = some reason) :
    Ledger config plan done (t :: settled) { r with
      outcomes := r.outcomes.modify t.index (t.close r.now)
      ended := l ++ l'
      taskFailures := (t.index, t.name, reason) :: r.taskFailures
      now := r.now + 1 } := by
  obtain ⟨hm, hmode⟩ := h.mode_settle_joined hd
  refine { h with
    perm := h.perm_settle (unsettled_of_ended hd), task_mode := hmode,
    outcomes_eq := h.outcomes_settle (by simp [unsettled, hd]) _, taskFailures_iff := ?_ }
  intro i name reason'
  rw [List.mem_cons, h.taskFailures_iff]
  simp only [List.mem_cons, Prod.mk.injEq]
  constructor
  · rintro (⟨rfl, rfl, rfl⟩ | ⟨u, hu, hrest⟩)
    · exact ⟨t, .inl rfl, hm, rfl, rfl, he⟩
    · exact ⟨u, .inr hu, hrest⟩
  · rintro ⟨u, rfl | hu, hum, rfl, rfl, hue⟩
    · exact .inl ⟨rfl, rfl, Option.some.inj (hue.symm.trans he)⟩
    · exact .inr ⟨u, hu, hum, rfl, rfl, hue⟩

/-- A run that is over has dispatched all of its plan and settled each step of it. -/
theorem complete_of_isOver (h : Ledger config plan done settled r) (ho : r.isOver = true) :
    done = plan ∧ settled.Perm (tasksOf config plan) := by
  obtain ⟨-, hp, hu⟩ := (isOver_iff r).1 ho
  have hplan : done = plan := by
    have := h.plan_eq
    simp only [ahead, hp, List.filter_nil, throughFailure, ite_self, List.append_nil] at this
    exact this.symm
  have hperm := h.perm
  rw [hu, List.append_nil, hplan] at hperm
  exact ⟨hplan, hperm⟩

end Ledger

end Run
end Scheduler
end ContainerBuild
