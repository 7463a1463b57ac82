import ContainerBuild.BuildError
import ContainerBuild.Dialogue
import ContainerBuild.Probe.Endpoint
import ContainerBuild.Text.Number
import ContainerBuild.Text.Visible

/-!
# Readiness probes

A container is ready once its endpoint gives a response that the probe accepts. The endpoint is asked
again and again, with a pause after each failure, as long as another pause ends before the deadline.

Time is told by the answers: the clock says which moment it is at the start, each attempt says how long it
took and each pause how long it lasted, which is at least as long as asked. So a pause always brings the
deadline nearer, and the probe ends. The clock has a last moment, and work that needs a later one, for the
deadline or for the end of the next pause, is abandoned where it needs it.
-/

namespace ContainerBuild

structure ReadinessProbe where
  endpoint : String
  /-- How long the container may take; zero stands for the default. -/
  timeout : Duration
  /-- Which responses are accepted, by status and body; without it, those of success. -/
  validator : Option (Nat → Bytes → Bool)

namespace ReadinessProbe

def accepts (p : ReadinessProbe) (status : Nat) (body : Bytes) : Bool :=
  match p.validator with
  | some validator => validator status body
  | none => 200 ≤ status && status < 300

def text (p : ReadinessProbe) : String :=
  "ReadinessProbe \x7b endpoint: " ++ Text.shown p.endpoint ++ ", timeout: " ++ p.timeout.text ++
    ", validator: " ++ (if p.validator.isSome then "true" else "false") ++ " \x7d"

def interval : Duration := Duration.ofMillis 500

def defaultTimeout : Duration := Duration.ofSecs 60

def patience (p : ReadinessProbe) : Duration :=
  if p.timeout = Duration.zero then defaultTimeout else p.timeout

/-- The last moment that the clock can tell, whose seconds are a number of 64 bits with a sign. -/
def lastMoment : Duration := Duration.ofSecs Text.maxSigned64 + ⟨999999999⟩

end ReadinessProbe

inductive ProbeResult
  | response (status : Nat) (body : Bytes)
  | failed (reason : String)
  deriving DecidableEq, Repr

/-- Whether an attempt can come to a result: there is no response where no request can be written. -/
def ProbeEndpoint.MayGive (e : ProbeEndpoint) : ProbeResult → Prop
  | .response _ _ => e.request?.isSome = true
  | .failed _ => True

inductive ProbeQuestion
  /-- The moment it is, from the start of the clock. -/
  | moment
  | attempt (endpoint : ProbeEndpoint)
  | pause (length : Duration)

/-- An attempt is answered by its length and its result, a pause by its length. -/
def ProbeQuestion.Answer : ProbeQuestion → Type
  | moment => Duration
  | attempt e => Duration × { result : ProbeResult // e.MayGive result }
  | pause length => { lasted : Duration // length ≤ lasted }

def ProbeQuestion.failing (e : ProbeEndpoint) (reason : String) : (attempt e).Answer :=
  (Duration.zero, ⟨.failed reason, trivial⟩)

def ProbeQuestion.onTime (length : Duration) : (pause length).Answer :=
  ⟨length, Nat.le_refl length.nanos⟩

/-- How a wait ends that does not fail. -/
inductive Readiness
  | ready
  /-- In the middle of the work, which needs a moment that the clock cannot tell. -/
  | abandoned
  deriving DecidableEq, Repr

namespace ReadinessProbe

abbrev Waiting := Dialogue ProbeQuestion ProbeQuestion.Answer (Outcome Readiness)

def isReady (p : ReadinessProbe) : ProbeResult → Bool
  | .response status body => p.accepts status body
  | .failed _ => false

theorem nearer {limit now took lasted : Duration} (early : ¬limit < now + took + interval)
    (long : interval ≤ lasted) :
    limit.nanos - (now + took + lasted).nanos < limit.nanos - now.nanos := by
  have early : ¬limit.nanos < now.nanos + took.nanos + 500000000 := early
  have long : 500000000 ≤ lasted.nanos := long
  change limit.nanos - (now.nanos + took.nanos + lasted.nanos) < _
  omega

/-- Attempts from a moment on, which is counted from the start. -/
def waitFrom (p : ReadinessProbe) (e : ProbeEndpoint) (start now : Duration) : Waiting :=
  .ask (.attempt e) fun (answer : Duration × { result : ProbeResult // e.MayGive result }) =>
    if p.isReady answer.2.1 then .done (.ok .ready)
    else if _far : lastMoment < start + (now + answer.1 + interval) then .done (.ok .abandoned)
    else if _late : p.patience < now + answer.1 + interval then
      .done (.error (.timeout ("readiness probe " ++ p.endpoint) p.patience))
    else
      .ask (.pause interval) fun (lasted : { lasted : Duration // interval ≤ lasted }) =>
        p.waitFrom e start (now + answer.1 + lasted.1)
termination_by p.patience.nanos - now.nanos
decreasing_by exact nearer _late lasted.2

/-- Attempts at a start, if the clock can tell the deadline. -/
def waitAt (p : ReadinessProbe) (e : ProbeEndpoint) (start : Duration) : Waiting :=
  if lastMoment < start + p.patience then .done (.ok .abandoned)
  else p.waitFrom e start Duration.zero

def usableEndpoint (p : ReadinessProbe) : Outcome ProbeEndpoint :=
  match ProbeEndpoint.ofBytes (Utf8.encode p.endpoint) with
  | .error flaw => .error (.invalidProbeEndpoint p.endpoint flaw.reason)
  | .ok e =>
    if e.scheme.all (· == "http") then .ok e
    else
      .error (.notSupported ("probe scheme in '" ++ p.endpoint ++ "' (only http is supported)"))

def wait (p : ReadinessProbe) : Waiting :=
  match p.usableEndpoint with
  | .error e => .done (.error e)
  | .ok e => .ask .moment fun (start : Duration) => p.waitAt e start

end ReadinessProbe
end ContainerBuild
