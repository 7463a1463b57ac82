import ContainerBuild.Scheduler.Machine

/-!
# Schedulers

A scheduler holds the registered steps and the configuration they share. Running it gives one outcome
for each step that ran, in the order of registration, or the error of the step that failed first.
-/

namespace ContainerBuild

structure Scheduler (C : Type) where
  config : C
  steps : List (Scheduler.Registered C)

namespace Scheduler

variable {C : Type}

def new (config : C) : Scheduler C := ⟨config, []⟩

def register (s : Scheduler C) (step : BuildStep C) (mode : StepMode) : Scheduler C :=
  { s with steps := s.steps ++ [⟨step, mode⟩] }

def isInitialized (s : Scheduler C) : Bool :=
  !s.steps.isEmpty

def stepNames (s : Scheduler C) : List String :=
  s.steps.map fun r => r.step.name

/-- The start of a run of all steps, or of those with one name. -/
def start (s : Scheduler C) (only : Option String) : Run C :=
  Run.start s.config s.steps only

def run (s : Scheduler C) (only : Option String) : Outcome (List StepOutcome) :=
  (s.start only).complete.result

def addImage (images : List String) (image : String) : List String :=
  if images.contains image then images else images ++ [image]

def imagesFor (s : Scheduler C) (config : C) : List String :=
  (s.steps.filter fun r => r.step.applies config).flatMap fun r => r.step.images config

/-- The images that the steps use for several configurations, each where it comes first. -/
def images (s : Scheduler C) (groups : List C) : List String :=
  groups.foldl (fun images group => (s.imagesFor group).foldl addImage images) []

end Scheduler
end ContainerBuild
