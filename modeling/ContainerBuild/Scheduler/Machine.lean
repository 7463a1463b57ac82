import ContainerBuild.BuildError
import ContainerBuild.Scheduler.Step

/-!
# The moves of a scheduler

A scheduler goes through its steps in order. A step that others wait for runs inline; a step that runs
beside the others becomes a task. When the steps are through, or an inline step has failed, the tasks
are joined one after another. A task may begin at any time after it was made and end at any time after
it began, and the tasks that have ended may be joined in any order.

`Run.move` makes one move of all those that are possible at a time, so the sequences of moves are the
ways in which a run may go. Every move brings the end nearer, which `Run.work` measures.
-/

namespace ContainerBuild
namespace Scheduler

structure Registered (C : Type) where
  step : BuildStep C
  mode : StepMode

/-- A dispatched step with its place among the outcomes and what its run comes to. -/
structure Task where
  index : Nat
  name : String
  mode : StepMode
  ending : Ending
  deriving DecidableEq, Repr

def Registered.task {C : Type} (e : Registered C) (config : C) (index : Nat) : Task :=
  ⟨index, e.step.name, e.mode, e.step.run config⟩

@[simp] theorem index_task {C : Type} (e : Registered C) (config : C) (index : Nat) :
    (e.task config index).index = index :=
  rfl

@[simp] theorem name_task {C : Type} (e : Registered C) (config : C) (index : Nat) :
    (e.task config index).name = e.step.name :=
  rfl

@[simp] theorem mode_task {C : Type} (e : Registered C) (config : C) (index : Nat) :
    (e.task config index).mode = e.mode :=
  rfl

@[simp] theorem ending_task {C : Type} (e : Registered C) (config : C) (index : Nat) :
    (e.task config index).ending = e.step.run config :=
  rfl

/-- What can be seen of a run. -/
inductive Happening
  | started (index : Nat) (name : String) (mode : StepMode)
  | ended (index : Nat) (name : String)
  deriving DecidableEq, Repr

structure Run (C : Type) where
  config : C
  /-- The steps that were not looked at yet. -/
  pending : List (Registered C)
  outcomes : List StepOutcome
  /-- The inline step that is running. -/
  inline : Option Task
  /-- Tasks that have not begun. -/
  waiting : List Task
  /-- Tasks that have begun and not ended. -/
  running : List Task
  /-- Tasks that have ended and are not joined. -/
  ended : List Task
  failure : Option (String × String)
  /-- The tasks that failed, each with its place, its name and its error, latest first. -/
  taskFailures : List (Nat × String × String)
  happenings : List Happening
  now : Nat

/-- A choice among the possible moves. -/
inductive Choice
  | advance
  /-- A waiting task begins, given by its place among them. -/
  | begin (k : Nat)
  | finish (k : Nat)
  | join (k : Nat)
  deriving DecidableEq, Repr

namespace Run

variable {C : Type}

def start (config : C) (steps : List (Registered C)) (only : Option String) : Run C where
  config := config
  pending := steps.filter fun r => only.all (· == r.step.name)
  outcomes := []
  inline := none
  waiting := []
  running := []
  ended := []
  failure := none
  taskFailures := []
  happenings := []
  now := 0

def record (r : Run C) (t : Task) : Run C :=
  match t.ending.result with
  | .ok artifact =>
    { r with outcomes := r.outcomes.modify t.index fun o => o.finish .completed artifact r.now }
  | .error _ => { r with outcomes := r.outcomes.modify t.index fun o => o.finish .failed none r.now }

/-- The inline step ends. When it fails, the steps that were not looked at are dropped. -/
def endInline (r : Run C) (t : Task) : Run C :=
  let r : Run C := { r.record t with
    inline := none
    happenings := r.happenings ++ [.ended t.index t.name] }
  match t.ending.result with
  | .ok _ => r
  | .error reason => { r with failure := some (t.name, reason), pending := [] }

/-- Dispatches a step whose configuration calls for it. A step that later steps wait for starts at
once. -/
def dispatch (r : Run C) (e : Registered C) : Run C :=
  let task := e.task r.config r.outcomes.length
  let r : Run C := { r with
    outcomes := r.outcomes ++ [(StepOutcome.pending e.step.name e.mode).start r.now] }
  match e.mode with
  | .sync =>
    { r with
      inline := some task
      happenings := r.happenings ++ [.started task.index task.name .sync] }
  | .async => { r with waiting := r.waiting ++ [task] }

def joinTask (r : Run C) (t : Task) : Run C :=
  let r := r.record t
  match t.ending.result with
  | .ok _ => r
  | .error reason => { r with taskFailures := (t.index, t.name, reason) :: r.taskFailures }

def advance? (r : Run C) : Option (Run C) :=
  match r.inline, r.pending with
  | some t, _ => some { r.endInline t with now := r.now + 1 }
  | none, e :: rest =>
    let r := { r with pending := rest, now := r.now + 1 }
    some (if e.step.applies r.config then r.dispatch e else r)
  | none, [] => none

def begin? (r : Run C) (k : Nat) : Option (Run C) :=
  r.waiting[k]?.map fun t =>
    { r with
      waiting := r.waiting.eraseIdx k
      running := r.running ++ [t]
      happenings := r.happenings ++ [.started t.index t.name t.mode]
      now := r.now + 1 }

def finish? (r : Run C) (k : Nat) : Option (Run C) :=
  r.running[k]?.map fun t =>
    { r with
      running := r.running.eraseIdx k
      ended := r.ended ++ [t]
      happenings := r.happenings ++ [.ended t.index t.name]
      now := r.now + 1 }

/-- The task at a place among the ended ones is joined, once the steps are through. -/
def join? (r : Run C) (k : Nat) : Option (Run C) :=
  if r.inline.isNone && r.pending.isEmpty then
    r.ended[k]?.map fun t =>
      { r.joinTask t with ended := r.ended.eraseIdx k, now := r.now + 1 }
  else none

/-- One move, if the choice is a possible one. -/
def move (r : Run C) : Choice → Option (Run C)
  | .advance => r.advance?
  | .begin k => r.begin? k
  | .finish k => r.finish? k
  | .join k => r.join? k

/-- A bound for the number of moves that are still possible. -/
def work (r : Run C) : Nat :=
  4 * r.pending.length + r.inline.toList.length + 3 * r.waiting.length + 2 * r.running.length +
    r.ended.length

def isOver (r : Run C) : Bool :=
  r.inline.isNone && r.pending.isEmpty && r.waiting.isEmpty && r.running.isEmpty && r.ended.isEmpty

/-- The result of a run that is over. An inline failure comes first, then the failure of the task that
was dispatched first. -/
def result (r : Run C) : Outcome (List StepOutcome) :=
  match r.failure with
  | some (name, reason) => .error (.stepFailed name reason)
  | none =>
    match r.taskFailures.mergeSort (fun a b => a.1 ≤ b.1) with
    | (_, name, reason) :: _ => .error (.stepFailed name reason)
    | [] => .ok r.outcomes

@[simp] theorem work_record (r : Run C) (t : Task) : (r.record t).work = r.work := by
  unfold record
  split <;> rfl

theorem work_endInline (r : Run C) (t : Task) (h : r.inline = some t) :
    (r.endInline t).work < r.work := by
  have hw := r.work_record t
  unfold record at hw
  unfold endInline record
  cases t.ending.result <;> simp [work, h]

theorem work_joinTask (r : Run C) (t : Task) : (r.joinTask t).work = r.work := by
  unfold joinTask
  cases h : t.ending.result <;> simp [work, record, h]

theorem work_dispatch (r : Run C) (e : Registered C) (h : r.inline = none) :
    (r.dispatch e).work ≤ r.work + 3 := by
  unfold dispatch
  cases e.mode <;> simp [work, h] <;> omega

theorem ended_joinTask (r : Run C) (t : Task) : (r.joinTask t).ended = r.ended := by
  unfold joinTask record
  cases t.ending.result <;> rfl

theorem work_advance_lt {r r' : Run C} (h : r.advance? = some r') : r'.work < r.work := by
  unfold advance? at h
  split at h
  · rename_i t hi
    obtain rfl := Option.some.inj h
    simpa [work] using r.work_endInline t hi
  · rename_i e rest hi hp
    obtain rfl := Option.some.inj h
    have hw : ({ r with pending := rest, now := r.now + 1 } : Run C).work + 4 = r.work := by
      simp [work, hp]
      omega
    split
    · have := work_dispatch { r with pending := rest, now := r.now + 1 } e hi
      omega
    · omega
  · simp at h

theorem work_begin_lt {r r' : Run C} {k : Nat} (h : r.begin? k = some r') :
    r'.work < r.work := by
  obtain ⟨t, ht, rfl⟩ := Option.map_eq_some_iff.1 h
  obtain ⟨hk, -⟩ := List.getElem?_eq_some_iff.1 ht
  simp [work, List.length_eraseIdx, hk]
  omega

theorem work_finish_lt {r r' : Run C} {k : Nat} (h : r.finish? k = some r') :
    r'.work < r.work := by
  obtain ⟨t, ht, rfl⟩ := Option.map_eq_some_iff.1 h
  obtain ⟨hk, -⟩ := List.getElem?_eq_some_iff.1 ht
  simp [work, List.length_eraseIdx, hk]
  omega

theorem work_join_lt {r r' : Run C} {k : Nat} (h : r.join? k = some r') : r'.work < r.work := by
  unfold join? at h
  split at h
  · obtain ⟨t, ht, rfl⟩ := Option.map_eq_some_iff.1 h
    obtain ⟨hk, -⟩ := List.getElem?_eq_some_iff.1 ht
    have hj := r.work_joinTask t
    have he := r.ended_joinTask t
    simp only [work, he, List.length_eraseIdx, hk, if_true] at hj ⊢
    omega
  · simp at h

/-- Every move leaves less to do. -/
theorem work_move_lt {r r' : Run C} {c : Choice} (h : r.move c = some r') : r'.work < r.work := by
  cases c with
  | advance => exact work_advance_lt h
  | begin k => exact work_begin_lt h
  | finish k => exact work_finish_lt h
  | join k => exact work_join_lt h

/-- A choice that is possible as long as the run is not over: the scheduler goes on as long as it can,
then the first task begins, ends or is joined. -/
def firstChoice (r : Run C) : Choice :=
  if r.inline.isSome || !r.pending.isEmpty then .advance
  else if !r.waiting.isEmpty then .begin 0
  else if !r.running.isEmpty then .finish 0
  else .join 0

/-- The end of a run in which every choice is the first one. -/
def complete (r : Run C) : Run C :=
  match _h : r.move r.firstChoice with
  | some next => complete next
  | none => r
termination_by r.work
decreasing_by exact work_move_lt _h

end Run
end Scheduler
end ContainerBuild
