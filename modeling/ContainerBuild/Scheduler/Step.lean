/-!
# Build steps

A step is a named piece of work that a configuration may call for. Running it ends with an artifact,
with an error or with a panic. A panic counts as an error that repeats its payload, if that is a text.
-/

namespace ContainerBuild

inductive PanicPayload
  | text (message : String)
  | other
  deriving DecidableEq, Repr

/-- How the run of a step ends. -/
inductive Ending
  | artifact (name : Option String)
  | failure (reason : String)
  | panic (payload : PanicPayload)
  deriving DecidableEq, Repr

namespace Ending

def panicText : PanicPayload → String
  | .text message => message
  | .other => "unknown panic"

def result : Ending → Except String (Option String)
  | artifact name => .ok name
  | failure reason => .error reason
  | panic payload => .error ("step panicked: " ++ panicText payload)

end Ending

structure BuildStep (C : Type) where
  name : String
  /-- Whether a configuration calls for the step. -/
  applies : C → Bool
  run : C → Ending
  images : C → List String

def BuildStep.always {C : Type} (name : String) (run : C → Ending) : BuildStep C :=
  ⟨name, fun _ => true, run, fun _ => []⟩

/-- How a step is dispatched: later steps wait for it, or it runs beside them. -/
inductive StepMode
  | sync
  | async
  deriving DecidableEq, Repr

instance : Inhabited StepMode := ⟨.sync⟩

inductive StepStatus
  | pending
  | running
  | completed
  | failed
  deriving DecidableEq, Repr

def StepStatus.text : StepStatus → String
  | pending => "pending"
  | running => "running"
  | completed => "completed"
  | failed => "failed"

/-- What is recorded of a step that was dispatched. Moments are counted in moves of the scheduler. -/
structure StepOutcome where
  name : String
  mode : StepMode
  status : StepStatus
  artifact : Option String
  startedAt : Option Nat
  finishedAt : Option Nat
  deriving DecidableEq, Repr

namespace StepOutcome

def pending (name : String) (mode : StepMode) : StepOutcome :=
  ⟨name, mode, .pending, none, none, none⟩

def start (o : StepOutcome) (now : Nat) : StepOutcome :=
  { o with status := .running, startedAt := some now }

def finish (o : StepOutcome) (status : StepStatus) (artifact : Option String) (now : Nat) :
    StepOutcome :=
  { o with status := status, artifact := artifact, finishedAt := some now }

/-- Whether the step has started, and has finished no earlier. -/
def isTimed (o : StepOutcome) : Bool :=
  match o.startedAt, o.finishedAt with
  | some s, some f => s ≤ f
  | _, _ => false

end StepOutcome
end ContainerBuild
