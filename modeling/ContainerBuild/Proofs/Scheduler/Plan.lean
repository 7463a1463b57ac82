import ContainerBuild.Scheduler

/-!
# What a scheduler is to run

The steps that a filter lets through and the configuration calls for are run in the order of their
registration, up to and with the first inline one that fails. `Scheduler.plan` lists them without
running anything, and `Scheduler.verdict` says what a run of them comes to: the error of that inline
step, else the error of the first task that fails, else one outcome for each step.
-/

namespace ContainerBuild

namespace Ending

/-- The reason why there is no artifact. -/
def error? (e : Ending) : Option String :=
  match e.result with
  | .ok _ => none
  | .error reason => some reason

def artifact? (e : Ending) : Option String :=
  match e.result with
  | .ok name => name
  | .error _ => none

end Ending

/-- An outcome without its moments, which depend on when tasks begin and end. -/
def StepOutcome.untimed (o : StepOutcome) : StepOutcome :=
  { o with startedAt := none, finishedAt := none }

namespace Scheduler

variable {C : Type}

namespace Registered

/-- Whether later steps are not run because of this one. -/
def stops (e : Registered C) (config : C) : Bool :=
  e.mode == .sync && (e.step.run config).error?.isSome

def failure? (mode : StepMode) (config : C) (e : Registered C) : Option BuildError :=
  if e.mode = mode then (e.step.run config).error?.map (.stepFailed e.step.name) else none

def outcome (config : C) (e : Registered C) : StepOutcome :=
  ⟨e.step.name, e.mode, .completed, (e.step.run config).artifact?, none, none⟩

end Registered

/-- The steps that a filter lets through and the configuration calls for. -/
def accepted (s : Scheduler C) (only : Option String) : List (Registered C) :=
  s.steps.filter fun e => only.all (· == e.step.name) && e.step.applies s.config

/-- Steps up to and with the first one that stops the others. -/
def throughFailure (config : C) : List (Registered C) → List (Registered C)
  | [] => []
  | e :: rest => if e.stops config then [e] else e :: throughFailure config rest

/-- The steps that are run, in the order of their registration. -/
def plan (s : Scheduler C) (only : Option String) : List (Registered C) :=
  throughFailure s.config (s.accepted only)

/-- What running planned steps comes to. -/
def verdictOn (config : C) (plan : List (Registered C)) : Outcome (List StepOutcome) :=
  match plan.findSome? (Registered.failure? .sync config) with
  | some e => .error e
  | none =>
    match plan.findSome? (Registered.failure? .async config) with
    | some e => .error e
    | none => .ok (plan.map (Registered.outcome config))

def verdict (s : Scheduler C) (only : Option String) : Outcome (List StepOutcome) :=
  verdictOn s.config (s.plan only)

end Scheduler
end ContainerBuild
