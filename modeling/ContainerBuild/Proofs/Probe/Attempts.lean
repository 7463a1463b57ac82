import ContainerBuild.Probe

/-!
# The attempts of a probe

What a probe asks is told as its attempts, each with the moment at which it began, counted from the start of
the probe. `Polls` says which attempts can follow one another from a moment on. An attempt that is accepted
is the last, and so is one after which no pause ends before the deadline. Every other attempt is followed by
a pause and one more attempt, so each attempt but the first uses up a pause of the time there was, and
there are no more of them than pauses in that time.

The law of a probe says that it makes an attempt and ends ready or with its timeout. A clock that has not
got so far breaks it in two places: at the start, where it cannot tell the deadline, and after an attempt,
where it cannot tell the end of a pause.
-/

namespace ContainerBuild

namespace Duration

variable {a b : Duration}

@[simp] theorem nanos_add (a b : Duration) : (a + b).nanos = a.nanos + b.nanos := rfl

theorem lt_iff : a < b ↔ a.nanos < b.nanos := Iff.rfl

theorem not_lt : ¬a < b ↔ b ≤ a := Nat.not_lt

end Duration

namespace ReadinessProbe

open Dialogue (Exchange)

/-- An attempt: whom it asked, when it began, how long it took, and what came of it. -/
structure Attempt where
  endpoint : ProbeEndpoint
  began : Duration
  took : Duration
  result : ProbeResult
  deriving DecidableEq, Repr

def Attempt.ended (a : Attempt) : Duration :=
  a.began + a.took

/-- The clock of a probe that began at a moment can tell when a pause after the attempt ends. -/
def Attempt.Told (start : Duration) (a : Attempt) : Prop :=
  start + (a.ended + interval) ≤ lastMoment

def attemptsFrom : Duration → List (Exchange ProbeQuestion ProbeQuestion.Answer) → List Attempt
  | _, [] => []
  | now, ⟨.moment, _⟩ :: xs => attemptsFrom now xs
  | now, ⟨.attempt e, answer⟩ :: xs =>
    ⟨e, now, answer.1, answer.2.1⟩ :: attemptsFrom (now + answer.1) xs
  | now, ⟨.pause _, lasted⟩ :: xs => attemptsFrom (now + lasted.1) xs

/-- An attempt whose response makes the container ready. -/
def Accepts (p : ReadinessProbe) (a : Attempt) : Prop :=
  ∃ status body, a.result = .response status body ∧ p.accepts status body = true

theorem accepts_iff {p : ReadinessProbe} {a : Attempt} : p.Accepts a ↔ p.isReady a.result = true := by
  unfold Accepts isReady
  cases a.result with
  | response status body =>
    constructor
    · rintro ⟨_, _, ⟨⟩, accepted⟩
      exact accepted
    · intro accepted
      exact ⟨status, body, rfl, accepted⟩
  | failed reason => exact iff_of_false nofun nofun

/-- The error of a probe that was given up. -/
abbrev givenUp (p : ReadinessProbe) (limit : Duration) : BuildError :=
  .timeout ("readiness probe " ++ p.endpoint) limit

/-- The attempts that can follow one another from a moment on, and what they come to. -/
inductive Polls (p : ReadinessProbe) (e : ProbeEndpoint) (start : Duration) :
    Duration → List Attempt → Outcome Readiness → Prop
  | ready {now took : Duration} {result : ProbeResult} (accepted : p.Accepts ⟨e, now, took, result⟩) :
      Polls p e start now [⟨e, now, took, result⟩] (.ok .ready)
  | lost {now took : Duration} {result : ProbeResult} (refused : ¬p.Accepts ⟨e, now, took, result⟩)
      (untold : ¬Attempt.Told start ⟨e, now, took, result⟩) :
      Polls p e start now [⟨e, now, took, result⟩] (.ok .abandoned)
  | late {now took : Duration} {result : ProbeResult} (refused : ¬p.Accepts ⟨e, now, took, result⟩)
      (told : Attempt.Told start ⟨e, now, took, result⟩) (spent : p.patience < now + took + interval) :
      Polls p e start now [⟨e, now, took, result⟩] (.error (p.givenUp p.patience))
  | again {now took lasted : Duration} {result : ProbeResult} {attempts : List Attempt}
      {r : Outcome Readiness} (refused : ¬p.Accepts ⟨e, now, took, result⟩)
      (told : Attempt.Told start ⟨e, now, took, result⟩)
      (early : now + took + interval ≤ p.patience) (long : interval ≤ lasted)
      (rest : Polls p e start (now + took + lasted) attempts r) :
      Polls p e start now (⟨e, now, took, result⟩ :: attempts) r

variable {p : ReadinessProbe} {e : ProbeEndpoint} {start now : Duration} {attempts : List Attempt}
  {r : Outcome Readiness}

/-- What a probe does from a moment on: its attempts, and what they come to. -/
def trace {σ : Type} (answer : (q : ProbeQuestion) → σ → q.Answer × σ) (p : ReadinessProbe)
    (e : ProbeEndpoint) (start now : Duration) (s : σ) : List Attempt × Outcome Readiness :=
  (attemptsFrom now ((p.waitFrom e start now).transcript answer s),
    ((p.waitFrom e start now).run answer s).1)

section

variable {σ : Type} {answer : (q : ProbeQuestion) → σ → q.Answer × σ} {took : Duration}
  {result : { result : ProbeResult // e.MayGive result }} {s s' s'' : σ}

/-- The first attempt decides whether a pause and the attempts after that follow it. -/
theorem trace_eq (hq : answer (.attempt e) s = ((took, result), s')) :
    trace answer p e start now s =
      if p.isReady result.1 then ([⟨e, now, took, result⟩], .ok .ready)
      else if lastMoment < start + (now + took + interval) then
        ([⟨e, now, took, result⟩], .ok .abandoned)
      else if p.patience < now + took + interval then
        ([⟨e, now, took, result⟩], .error (p.givenUp p.patience))
      else
        let pause : { lasted : Duration // interval ≤ lasted } × σ := answer (.pause interval) s'
        let rest := trace answer p e start (now + took + pause.1.1) pause.2
        (⟨e, now, took, result⟩ :: rest.1, rest.2) := by
  unfold trace
  rw [waitFrom]
  simp only [Dialogue.transcript, Dialogue.run, hq]
  split
  · rfl
  · split
    · rfl
    · split <;> rfl

theorem trace_of_accepted (hq : answer (.attempt e) s = ((took, result), s'))
    (accepted : p.Accepts ⟨e, now, took, result⟩) :
    trace answer p e start now s = ([⟨e, now, took, result⟩], .ok .ready) := by
  rw [trace_eq hq, if_pos (accepts_iff.1 accepted)]

theorem trace_of_untold (hq : answer (.attempt e) s = ((took, result), s'))
    (refused : ¬p.Accepts ⟨e, now, took, result⟩)
    (untold : ¬Attempt.Told start ⟨e, now, took, result⟩) :
    trace answer p e start now s = ([⟨e, now, took, result⟩], .ok .abandoned) := by
  have far : lastMoment < start + (now + took + interval) := Nat.lt_of_not_le untold
  rw [trace_eq hq, if_neg fun h => refused (accepts_iff.2 h), if_pos far]

theorem trace_of_late (hq : answer (.attempt e) s = ((took, result), s'))
    (refused : ¬p.Accepts ⟨e, now, took, result⟩) (told : Attempt.Told start ⟨e, now, took, result⟩)
    (spent : p.patience < now + took + interval) :
    trace answer p e start now s =
      ([⟨e, now, took, result⟩], .error (p.givenUp p.patience)) := by
  have near : ¬lastMoment < start + (now + took + interval) := Nat.not_lt_of_le told
  rw [trace_eq hq, if_neg fun h => refused (accepts_iff.2 h), if_neg near, if_pos spent]

theorem trace_of_early {lasted : { lasted : Duration // interval ≤ lasted }}
    (hq : answer (.attempt e) s = ((took, result), s'))
    (refused : ¬p.Accepts ⟨e, now, took, result⟩) (told : Attempt.Told start ⟨e, now, took, result⟩)
    (early : ¬p.patience < now + took + interval)
    (hp : answer (.pause interval) s' = (lasted, s'')) :
    trace answer p e start now s =
      (⟨e, now, took, result⟩ :: (trace answer p e start (now + took + lasted.1) s'').1,
        (trace answer p e start (now + took + lasted.1) s'').2) := by
  have near : ¬lastMoment < start + (now + took + interval) := Nat.not_lt_of_le told
  rw [trace_eq hq, if_neg fun h => refused (accepts_iff.2 h), if_neg near, if_neg early, hp]

/-- The attempt at a moment is the last, or a pause and the attempts after that follow it. -/
theorem trace_cases (answer : (q : ProbeQuestion) → σ → q.Answer × σ) (p : ReadinessProbe)
    (e : ProbeEndpoint) (start now : Duration) (s : σ) :
    (∃ a r, a.began = now ∧ Polls p e start now [a] r ∧
        trace answer p e start now s = ([a], r)) ∨
      ∃ took, ∃ result : { result : ProbeResult // e.MayGive result }, ∃ s' s'',
        ∃ lasted : { lasted : Duration // interval ≤ lasted },
        ¬p.Accepts ⟨e, now, took, result⟩ ∧ Attempt.Told start ⟨e, now, took, result⟩ ∧
        ¬p.patience < now + took + interval ∧ answer (.pause interval) s' = (lasted, s'') ∧
        trace answer p e start now s =
          (⟨e, now, took, result⟩ :: (trace answer p e start (now + took + lasted.1) s'').1,
            (trace answer p e start (now + took + lasted.1) s'').2) := by
  rcases hq : answer (.attempt e) s with ⟨⟨took, result⟩, s'⟩
  by_cases accepted : p.Accepts ⟨e, now, took, result⟩
  · exact .inl ⟨_, _, rfl, .ready accepted, trace_of_accepted hq accepted⟩
  by_cases told : Attempt.Told start ⟨e, now, took, result⟩
  · by_cases spent : p.patience < now + took + interval
    · exact .inl ⟨_, _, rfl, .late accepted told spent, trace_of_late hq accepted told spent⟩
    · rcases hp : answer (.pause interval) s' with ⟨lasted, s''⟩
      exact .inr ⟨took, result, s', s'', lasted, accepted, told, spent, hp,
        trace_of_early hq accepted told spent hp⟩
  · exact .inl ⟨_, _, rfl, .lost accepted told, trace_of_untold hq accepted told⟩

end

theorem polls_trace {σ : Type} (p : ReadinessProbe) (e : ProbeEndpoint)
    (answer : (q : ProbeQuestion) → σ → q.Answer × σ) (start now : Duration) (s : σ) :
    Polls p e start now (trace answer p e start now s).1 (trace answer p e start now s).2 := by
  induction now using waitFrom.induct p e generalizing s with
  | case1 now ih =>
    rcases trace_cases answer p e start now s with ⟨a, r, -, last, same⟩ |
      ⟨took, result, s', s'', lasted, refused, told, early, -, same⟩
    · rwa [same]
    · rw [same]
      exact .again refused told (Duration.not_lt.1 early) lasted.2 (ih (took, result) early lasted s'')

namespace Polls

theorem ne_nil (h : Polls p e start now attempts r) : attempts ≠ [] := by
  cases h <;> exact List.cons_ne_nil _ _

theorem endpoint (h : Polls p e start now attempts r) : ∀ a ∈ attempts, a.endpoint = e := by
  induction h with
  | ready accepted => exact List.forall_mem_singleton.2 rfl
  | lost refused untold => exact List.forall_mem_singleton.2 rfl
  | late refused told spent => exact List.forall_mem_singleton.2 rfl
  | again refused told early long rest ih => exact List.forall_mem_cons.2 ⟨rfl, ih⟩

/-- Each attempt but the first takes a pause of the time that is left. -/
theorem pauses_le (h : Polls p e start now attempts r) :
    (attempts.length - 1) * interval.nanos ≤ p.patience.nanos - now.nanos := by
  induction h with
  | ready accepted => simp
  | lost refused untold => simp
  | late refused told spent => simp
  | @again now took lasted result attempts r refused told early long rest ih =>
    have one : 0 < attempts.length := List.length_pos_iff.2 rest.ne_nil
    have all : attempts.length * interval.nanos =
        (attempts.length - 1) * interval.nanos + interval.nanos := by
      rw [← Nat.succ_mul, Nat.succ_eq_add_one, Nat.sub_add_cancel one]
    have early : now.nanos + took.nanos + interval.nanos ≤ p.patience.nanos := early
    have long : interval.nanos ≤ lasted.nanos := long
    rw [List.length_cons, Nat.add_sub_cancel, all]
    simp only [Duration.nanos_add] at ih
    omega

/-- The last attempt is accepted, or it leaves no time for one more, on the clock or before the deadline.
All attempts before it are refused and leave the time for the pause after them. -/
theorem ends (h : Polls p e start now attempts r) : ∃ before a, attempts = before ++ [a] ∧
    (∀ b ∈ before, ¬p.Accepts b ∧ b.Told start ∧ b.ended + interval ≤ p.patience) ∧
    (p.Accepts a ∧ r = .ok .ready ∨
      ¬p.Accepts a ∧ ¬a.Told start ∧ r = .ok .abandoned ∨
      ¬p.Accepts a ∧ a.Told start ∧ p.patience < a.ended + interval ∧
        r = .error (p.givenUp p.patience)) := by
  induction h with
  | ready accepted => exact ⟨[], _, rfl, List.forall_mem_nil _, .inl ⟨accepted, rfl⟩⟩
  | lost refused untold => exact ⟨[], _, rfl, List.forall_mem_nil _, .inr (.inl ⟨refused, untold, rfl⟩)⟩
  | late refused told spent =>
    exact ⟨[], _, rfl, List.forall_mem_nil _, .inr (.inr ⟨refused, told, spent, rfl⟩)⟩
  | again refused told early long rest ih =>
    obtain ⟨before, a, rfl, earlier, last⟩ := ih
    exact ⟨_ :: before, a, rfl, List.forall_mem_cons.2 ⟨⟨refused, told, early⟩, earlier⟩, last⟩

end Polls

/-- The attempts of a probe, with their moments counted from its start. -/
def attemptsOf {σ : Type} (answer : (q : ProbeQuestion) → σ → q.Answer × σ) (p : ReadinessProbe)
    (s : σ) : List Attempt :=
  attemptsFrom Duration.zero (p.wait.transcript answer s)

/-- What a probe comes to. -/
def outcomeOf {σ : Type} (answer : (q : ProbeQuestion) → σ → q.Answer × σ) (p : ReadinessProbe)
    (s : σ) : Outcome Readiness :=
  (p.wait.run answer s).1

def startOf {σ : Type} (answer : (q : ProbeQuestion) → σ → q.Answer × σ) (s : σ) : Duration :=
  (answer .moment s).1

/-- The law of a probe: it makes an attempt, and no more of them than pauses and one, and it ends ready
with the first attempt that is accepted, or with its timeout if there is none. -/
structure WithinLimit (p : ReadinessProbe) (limit : Duration) (attempts : List Attempt)
    (r : Outcome Readiness) : Prop where
  once : 1 ≤ attempts.length
  bounded : attempts.length ≤ limit.nanos / 500000000 + 1
  ends : (∃ before a, attempts = before ++ [a] ∧ (∀ b ∈ before, ¬p.Accepts b) ∧ p.Accepts a ∧
      r = .ok .ready) ∨
    (∀ a ∈ attempts, ¬p.Accepts a) ∧ r = .error (p.givenUp limit)

/-- What a probe does that can tell its deadline. -/
structure Waits (p : ReadinessProbe) (e : ProbeEndpoint) (start limit : Duration)
    (attempts : List Attempt) (r : Outcome Readiness) : Prop where
  endpoint : ∀ a ∈ attempts, a.endpoint = e
  /-- The law holds as long as the ends of pauses can be told, and else the last attempt is refused. -/
  ends : (∀ a ∈ attempts, p.Accepts a ∨ a.Told start) ∧ WithinLimit p limit attempts r ∨
    1 ≤ attempts.length ∧ attempts.length ≤ limit.nanos / 500000000 + 1 ∧
      (∀ a ∈ attempts, ¬p.Accepts a) ∧ (∃ a ∈ attempts, ¬a.Told start) ∧ r = .ok .abandoned

theorem Polls.waits (h : Polls p e start Duration.zero attempts r) :
    Waits p e start p.patience attempts r := by
  have once : 1 ≤ attempts.length := List.length_pos_iff.2 h.ne_nil
  have bounded : attempts.length ≤ p.patience.nanos / 500000000 + 1 := by
    have pauses : (attempts.length - 1) * 500000000 ≤ p.patience.nanos - 0 := h.pauses_le
    omega
  refine ⟨h.endpoint, ?_⟩
  obtain ⟨before, a, rfl, earlier, last⟩ := h.ends
  have all {P : Attempt → Prop} (hbefore : ∀ b ∈ before, P b) (ha : P a) :
      ∀ b ∈ before ++ [a], P b :=
    List.forall_mem_append.2 ⟨hbefore, List.forall_mem_singleton.2 ha⟩
  rcases last with ⟨accepted, rfl⟩ | ⟨refused, untold, rfl⟩ | ⟨refused, told, -, rfl⟩
  · refine .inl ⟨all (fun b hb => .inr (earlier b hb).2.1) (.inl accepted), once, bounded, ?_⟩
    exact .inl ⟨before, a, rfl, fun b hb => (earlier b hb).1, accepted, rfl⟩
  · exact .inr ⟨once, bounded, all (fun b hb => (earlier b hb).1) refused,
      ⟨a, List.mem_append_right _ (List.mem_singleton_self a), untold⟩, rfl⟩
  · refine .inl ⟨all (fun b hb => .inr (earlier b hb).2.1) (.inr told), once, bounded, ?_⟩
    exact .inr ⟨all (fun b hb => (earlier b hb).1) refused, rfl⟩

/-- An endpoint that a probe can ask: an address over plain HTTP, or one that names no scheme. -/
structure Asks (p : ReadinessProbe) (e : ProbeEndpoint) : Prop where
  address : ProbeEndpoint.ofBytes (Utf8.encode p.endpoint) = .ok e
  plain : ∀ scheme, e.scheme = some scheme → scheme = "http"

theorem all_http_iff : e.scheme.all (· == "http") = true ↔
    ∀ scheme, e.scheme = some scheme → scheme = "http" := by
  cases e.scheme with
  | none => simp
  | some scheme => simp

theorem Asks.usableEndpoint_eq (h : Asks p e) : p.usableEndpoint = .ok e := by
  unfold usableEndpoint
  rw [h.address]
  exact if_pos (all_http_iff.2 h.plain)

theorem attemptsOf_of_unusable {σ : Type} (answer : (q : ProbeQuestion) → σ → q.Answer × σ) (s : σ)
    {error : BuildError} (h : p.usableEndpoint = .error error) :
    attemptsOf answer p s = [] ∧ outcomeOf answer p s = .error error := by
  unfold attemptsOf outcomeOf wait
  rw [h]
  exact ⟨rfl, rfl⟩

section

variable {σ : Type} {answer : (q : ProbeQuestion) → σ → q.Answer × σ} {s : σ}

theorem Asks.eq_waitAt (h : Asks p e) : (attemptsOf answer p s, outcomeOf answer p s) =
    (attemptsFrom Duration.zero
        ((p.waitAt e (startOf answer s)).transcript answer (answer .moment s).2),
      ((p.waitAt e (startOf answer s)).run answer (answer .moment s).2).1) := by
  unfold attemptsOf outcomeOf wait
  rw [h.usableEndpoint_eq]
  rfl

theorem Asks.of_untold (h : Asks p e) (far : lastMoment < startOf answer s + p.patience) :
    (attemptsOf answer p s, outcomeOf answer p s) = ([], .ok .abandoned) := by
  rw [h.eq_waitAt, waitAt, if_pos far]
  rfl

theorem Asks.of_told (h : Asks p e) (near : startOf answer s + p.patience ≤ lastMoment) :
    (attemptsOf answer p s, outcomeOf answer p s) =
      trace answer p e (startOf answer s) Duration.zero (answer .moment s).2 := by
  rw [h.eq_waitAt, waitAt, if_neg (Duration.not_lt.2 near)]
  rfl

theorem Asks.polls (h : Asks p e) (near : startOf answer s + p.patience ≤ lastMoment) :
    Polls p e (startOf answer s) Duration.zero (attemptsOf answer p s) (outcomeOf answer p s) := by
  have polls := polls_trace p e answer (startOf answer s) Duration.zero (answer .moment s).2
  rwa [← h.of_told near] at polls

end

/-- What a probe does, by its endpoint and its clock. -/
inductive Probes (p : ReadinessProbe) (start limit : Duration) :
    List Attempt → Outcome Readiness → Prop
  | malformed {flaw : ProbeEndpoint.Flaw}
      (h : ProbeEndpoint.ofBytes (Utf8.encode p.endpoint) = .error flaw) :
      Probes p start limit [] (.error (.invalidProbeEndpoint p.endpoint flaw.reason))
  | otherScheme {e : ProbeEndpoint} {scheme : String}
      (h : ProbeEndpoint.ofBytes (Utf8.encode p.endpoint) = .ok e) (named : e.scheme = some scheme)
      (other : scheme ≠ "http") :
      Probes p start limit [] (.error (.notSupported
        ("probe scheme in '" ++ p.endpoint ++ "' (only http is supported)")))
  | untold {e : ProbeEndpoint} (h : Asks p e) (far : lastMoment < start + limit) :
      Probes p start limit [] (.ok .abandoned)
  | asks {e : ProbeEndpoint} {attempts : List Attempt} {r : Outcome Readiness} (h : Asks p e)
      (near : start + limit ≤ lastMoment) (waits : Waits p e start limit attempts r) :
      Probes p start limit attempts r

theorem probes {σ : Type} (answer : (q : ProbeQuestion) → σ → q.Answer × σ) (p : ReadinessProbe)
    (s : σ) :
    Probes p (startOf answer s) p.patience (attemptsOf answer p s) (outcomeOf answer p s) := by
  cases h : ProbeEndpoint.ofBytes (Utf8.encode p.endpoint) with
  | error flaw =>
    have unusable : p.usableEndpoint = .error (.invalidProbeEndpoint p.endpoint flaw.reason) := by
      unfold usableEndpoint
      rw [h]
    obtain ⟨none, fails⟩ := attemptsOf_of_unusable answer s unusable
    rw [none, fails]
    exact .malformed h
  | ok e =>
    by_cases plain : e.scheme.all (· == "http") = true
    · have asks : Asks p e := ⟨h, all_http_iff.1 plain⟩
      by_cases far : lastMoment < startOf answer s + p.patience
      · obtain ⟨none, abandons⟩ := Prod.mk.inj (asks.of_untold far)
        rw [none, abandons]
        exact .untold asks far
      · have near := Duration.not_lt.1 far
        exact .asks asks near (asks.polls near).waits
    · have unusable : p.usableEndpoint = .error (.notSupported
          ("probe scheme in '" ++ p.endpoint ++ "' (only http is supported)")) := by
        unfold usableEndpoint
        rw [h]
        exact if_neg plain
      obtain ⟨none, fails⟩ := attemptsOf_of_unusable answer s unusable
      rw [none, fails]
      cases named : e.scheme with
      | none => exact absurd (by rw [named]; rfl) plain
      | some scheme =>
        refine .otherScheme h named fun same => plain ?_
        rw [named, same]
        rfl

/-- The law holds for a probe that can ask exactly if its deadline and the ends of its pauses can be told. -/
theorem Probes.withinLimit_iff {limit : Duration} (h : Probes p start limit attempts r)
    (asks : Asks p e) : WithinLimit p limit attempts r ↔
      start + limit ≤ lastMoment ∧ ∀ a ∈ attempts, p.Accepts a ∨ a.Told start := by
  cases h with
  | malformed broken => exact absurd (broken.symm.trans asks.address) nofun
  | otherScheme address named other =>
    cases Except.ok.inj (address.symm.trans asks.address)
    exact absurd (asks.plain _ named) other
  | untold _ far =>
    refine iff_of_false (fun law => ?_) fun told => Nat.not_le_of_lt far told.1
    exact absurd law.once (Nat.not_succ_le_zero 0)
  | asks _ near waits =>
    rcases waits.ends with ⟨told, law⟩ | ⟨-, -, refused, ⟨a, ha, untold⟩, rfl⟩
    · exact iff_of_true law ⟨near, told⟩
    · refine iff_of_false (fun law => ?_) fun told => ?_
      · rcases law.ends with ⟨-, -, -, -, -, ⟨⟩⟩ | ⟨-, ⟨⟩⟩
      · exact (told.2 a ha).elim (refused a ha) untold

/-! ### As many attempts as the time allows -/

/-- Surroundings in which every attempt takes as long and comes to the same, and pauses end on time. -/
def answering (start took : Duration) (result : (e : ProbeEndpoint) → { r : ProbeResult // e.MayGive r }) :
    (q : ProbeQuestion) → Unit → q.Answer × Unit
  | .moment, s => (start, s)
  | .attempt e, s => ((took, result e), s)
  | .pause length, s => (ProbeQuestion.onTime length, s)

def failing (reason : String) (e : ProbeEndpoint) : { r : ProbeResult // e.MayGive r } :=
  ⟨.failed reason, trivial⟩

theorem interval_nanos : interval.nanos = 500000000 := rfl

theorem length_refused (p : ReadinessProbe) (e : ProbeEndpoint) (reason : String)
    (near : start + p.patience ≤ lastMoment) (now : Duration) :
    (trace (answering start Duration.zero (failing reason)) p e start now ()).1.length =
      (p.patience.nanos - now.nanos) / 500000000 + 1 := by
  induction now using waitFrom.induct p e with
  | case1 now ih =>
    have hq : answering start Duration.zero (failing reason) (.attempt e) () =
        ((Duration.zero, failing reason e), ()) :=
      rfl
    have refused : ¬p.Accepts ⟨e, now, Duration.zero, failing reason e⟩ := by
      rintro ⟨status, body, ⟨⟩, -⟩
    have ending : (now + Duration.zero + interval).nanos = now.nanos + 500000000 := by
      rw [Duration.nanos_add, Duration.nanos_add, interval_nanos]
      rfl
    by_cases spent : p.patience < now + Duration.zero + interval
    · have one : (trace (answering start Duration.zero (failing reason)) p e start now ()).1.length = 1 := by
        by_cases told : Attempt.Told start ⟨e, now, Duration.zero, failing reason e⟩
        · rw [trace_of_late hq refused told spent, List.length_singleton]
        · rw [trace_of_untold hq refused told, List.length_singleton]
      rw [Duration.lt_iff, ending] at spent
      omega
    · have more := ih (Duration.zero, failing reason e) spent (ProbeQuestion.onTime interval)
      have last : (ProbeQuestion.onTime interval).1 = interval := rfl
      have told : Attempt.Told start ⟨e, now, Duration.zero, failing reason e⟩ :=
        Nat.le_trans (Nat.add_le_add_left (Duration.not_lt.1 spent) start.nanos) near
      rw [trace_of_early hq refused told spent rfl, List.length_cons, more, last, ending]
      rw [Duration.lt_iff, ending] at spent
      omega

/-- A probe fails without an attempt if its endpoint cannot be read or names another scheme. Else it keeps
its law, with a minute if it names no time, exactly if its clock can tell its deadline and the end of a
pause after each attempt that is refused; where the clock cannot, the probe is abandoned, before the first
attempt or after that one. If all attempts fail at once, there are as many as there can be. -/
theorem attempts_within_limit (p : ReadinessProbe) :
    let limit := if p.timeout = Duration.zero then Duration.ofSecs 60 else p.timeout
    (∀ (σ : Type) (answer : (q : ProbeQuestion) → σ → q.Answer × σ) (s : σ),
      Probes p (startOf answer s) limit (attemptsOf answer p s) (outcomeOf answer p s) ∧
      ∀ e, Asks p e → (WithinLimit p limit (attemptsOf answer p s) (outcomeOf answer p s) ↔
        startOf answer s + limit ≤ lastMoment ∧
          ∀ a ∈ attemptsOf answer p s, p.Accepts a ∨ a.Told (startOf answer s))) ∧
    ∀ e reason start, Asks p e → start + limit ≤ lastMoment →
      (attemptsOf (answering start Duration.zero (failing reason)) p ()).length =
        limit.nanos / 500000000 + 1 := by
  refine ⟨fun σ answer s => ⟨probes answer p s, fun e => (probes answer p s).withinLimit_iff⟩, ?_⟩
  intro e reason start asks near
  have near : startOf (answering start Duration.zero (failing reason)) () + p.patience ≤ lastMoment :=
    near
  have does : attemptsOf (answering start Duration.zero (failing reason)) p () =
      (trace (answering start Duration.zero (failing reason)) p e start Duration.zero ()).1 :=
    congrArg Prod.fst (asks.of_told near)
  rw [does]
  exact length_refused p e reason near Duration.zero

/-- A probe that has time for two pauses. -/
def sample : ReadinessProbe :=
  { endpoint := "http://db:5432/health", timeout := Duration.ofMillis 1200, validator := none }

def sampleEndpoint : ProbeEndpoint :=
  { scheme := some "http", authority := Utf8.encode "db:5432", target := Utf8.encode "/health" }

theorem asks_sample : Asks sample sampleEndpoint :=
  ⟨rfl, by decide⟩

theorem three_attempts_of_sample :
    Asks sample sampleEndpoint ∧ Duration.zero + sample.timeout ≤ lastMoment ∧
      (attemptsOf (answering Duration.zero Duration.zero (failing "refused")) sample ()).length = 3 := by
  have near : Duration.zero + sample.timeout ≤ lastMoment := by decide
  exact ⟨asks_sample, near,
    (attempts_within_limit sample).2 sampleEndpoint "refused" Duration.zero asks_sample near⟩

/-- A probe that may take longer than any clock can tell. -/
def patient : ReadinessProbe :=
  { sample with timeout := Duration.ofSecs Text.maxUnsigned64 + ⟨999999999⟩ }

/-- It makes no attempt and is abandoned, whenever it starts and whatever it is answered. -/
theorem patient_abandoned :
    Asks patient sampleEndpoint ∧
      ∀ (σ : Type) (answer : (q : ProbeQuestion) → σ → q.Answer × σ) (s : σ),
        attemptsOf answer patient s = [] ∧ outcomeOf answer patient s = .ok .abandoned ∧
          ¬WithinLimit patient patient.timeout (attemptsOf answer patient s)
            (outcomeOf answer patient s) := by
  have asks : Asks patient sampleEndpoint := ⟨asks_sample.address, asks_sample.plain⟩
  refine ⟨asks, fun σ answer s => ?_⟩
  have beyond : lastMoment < patient.patience := by decide
  have far : lastMoment < startOf answer s + patient.patience :=
    Nat.lt_of_lt_of_le beyond (Nat.le_add_left _ _)
  obtain ⟨none, abandons⟩ := Prod.mk.inj (asks.of_untold far)
  rw [none, abandons]
  exact ⟨rfl, rfl, fun law => absurd law.once (Nat.not_succ_le_zero 0)⟩

end ReadinessProbe
end ContainerBuild
