import ContainerBuild.Proofs.Probe.Attempts

/-!
# Responses after the deadline

A probe looks at its deadline after an attempt that was refused, and at no other time. So the deadline
bounds the moments at which attempts begin, but not the moment at which a response is accepted: one that
comes after the deadline makes the container ready as well as one that comes before it.
-/

namespace ContainerBuild
namespace ReadinessProbe

open Dialogue (Exchange)

/-- The law of the deadline: what made the container ready was there in time. -/
def ReadyInTime (p : ReadinessProbe) (attempts : List Attempt) (r : Outcome Readiness) : Prop :=
  r = .ok .ready → ∃ a ∈ attempts, p.Accepts a ∧ a.ended ≤ p.patience

/-- The attempts of a probe that ended ready: the last is accepted, and those before it are refused and
leave the time for a pause. -/
def EndsReady (p : ReadinessProbe) (attempts : List Attempt) : Prop :=
  ∃ before a, attempts = before ++ [a] ∧ p.Accepts a ∧
    ∀ b ∈ before, ¬p.Accepts b ∧ b.ended + Duration.ofMillis 500 ≤ p.patience

/-- Pauses last as long as asked, and no longer. -/
def Punctual {σ : Type} (answer : (q : ProbeQuestion) → σ → q.Answer × σ) : Prop :=
  ∀ length s, (answer (.pause length) s).1.1 = length

variable {p : ReadinessProbe} {e : ProbeEndpoint} {start now : Duration} {attempts : List Attempt}
  {r : Outcome Readiness}

theorem Polls.endsReady_iff (h : Polls p e start now attempts r) :
    EndsReady p attempts ↔ r = .ok .ready := by
  obtain ⟨before, a, rfl, earlier, last⟩ := h.ends
  constructor
  · rintro ⟨before', a', same, accepted, -⟩
    obtain ⟨-, rfl⟩ := List.append_singleton_inj.1 same
    rcases last with ⟨-, ready⟩ | ⟨refused, -⟩ | ⟨refused, -⟩
    · exact ready
    · exact absurd accepted refused
    · exact absurd accepted refused
  · rintro rfl
    rcases last with ⟨accepted, -⟩ | ⟨-, -, ⟨⟩⟩ | ⟨-, -, -, ⟨⟩⟩
    exact ⟨before, a, rfl, accepted, fun b hb => ⟨(earlier b hb).1, (earlier b hb).2.2⟩⟩

theorem mayGive_of_mem {xs : List (Exchange ProbeQuestion ProbeQuestion.Answer)} {a : Attempt}
    (ha : a ∈ attemptsFrom now xs) : a.endpoint.MayGive a.result := by
  induction xs generalizing now with
  | nil => exact absurd ha List.not_mem_nil
  | cons x xs ih =>
    rcases x with ⟨_ | e | _, answer⟩
    · exact ih ha
    · rcases List.mem_cons.1 ha with rfl | ha
      · exact answer.2.2
      · exact ih ha
    · exact ih ha

section

variable {σ : Type} {answer : (q : ProbeQuestion) → σ → q.Answer × σ} {s : σ}

/-- A probe that cannot ask its endpoint, or tell its deadline, makes no attempt and does not end ready. -/
theorem asks_or_quiet (answer : (q : ProbeQuestion) → σ → q.Answer × σ) (p : ReadinessProbe) (s : σ) :
    (∃ e, Asks p e ∧ startOf answer s + p.patience ≤ lastMoment) ∨
      attemptsOf answer p s = [] ∧ outcomeOf answer p s ≠ .ok .ready := by
  have does := probes answer p s
  generalize attemptsOf answer p s = attempts at does ⊢
  generalize outcomeOf answer p s = r at does ⊢
  cases does with
  | malformed _ => exact .inr ⟨rfl, nofun⟩
  | otherScheme _ _ _ => exact .inr ⟨rfl, nofun⟩
  | untold _ _ => exact .inr ⟨rfl, nofun⟩
  | asks asks near _ => exact .inl ⟨_, asks, near⟩

theorem endsReady_iff (answer : (q : ProbeQuestion) → σ → q.Answer × σ) (p : ReadinessProbe) (s : σ) :
    EndsReady p (attemptsOf answer p s) ↔ outcomeOf answer p s = .ok .ready := by
  rcases asks_or_quiet answer p s with ⟨e, asks, near⟩ | ⟨none, other⟩
  · exact (asks.polls near).endsReady_iff
  · rw [none]
    refine iff_of_false ?_ other
    rintro ⟨before, a, nothing, -⟩
    exact List.append_ne_nil_of_right_ne_nil before (List.cons_ne_nil a []) nothing.symm

theorem exists_accepted_of_ready (h : outcomeOf answer p s = .ok .ready) :
    ∃ e status body, Asks p e ∧ e.request?.isSome = true ∧ p.patience ≤ lastMoment ∧
      p.accepts status body = true := by
  rcases asks_or_quiet answer p s with ⟨e, asks, near⟩ | ⟨-, other⟩
  · obtain ⟨before, a, same, ⟨status, body, response, accepted⟩, -⟩ := (endsReady_iff answer p s).2 h
    have ha : a ∈ attemptsOf answer p s := by
      rw [same]
      exact List.mem_append_right before (List.mem_singleton_self a)
    have given := mayGive_of_mem ha
    rw [(asks.polls near).endpoint a ha, response] at given
    exact ⟨e, status, body, asks, given, Nat.le_trans (Nat.le_add_left _ _) near, accepted⟩
  · exact absurd h other

theorem began_of_punctual (punctual : Punctual answer) (p : ReadinessProbe) (e : ProbeEndpoint)
    (start now : Duration) (s : σ) :
    ∀ a ∈ (trace answer p e start now s).1, a.began = now ∨ a.began ≤ p.patience := by
  induction now using waitFrom.induct p e generalizing s with
  | case1 now ih =>
    rcases trace_cases answer p e start now s with ⟨a, r, began, -, same⟩ |
      ⟨took, result, s', s'', lasted, -, -, early, hp, same⟩
    · rw [same]
      exact List.forall_mem_singleton.2 (.inl began)
    · have onTime := punctual interval s'
      rw [hp] at onTime
      rw [same]
      refine List.forall_mem_cons.2 ⟨.inl rfl, fun a ha => .inr ?_⟩
      rcases ih (took, result) early lasted s'' a ha with began | began
      · rw [began, onTime]
        exact Duration.not_lt.1 early
      · exact began

/-- With such pauses, no attempt begins after the deadline. -/
theorem began_le (punctual : Punctual answer) (p : ReadinessProbe) (s : σ) :
    ∀ a ∈ attemptsOf answer p s, a.began ≤ p.patience := by
  intro a ha
  rcases asks_or_quiet answer p s with ⟨e, asks, near⟩ | ⟨none, -⟩
  · rw [(Prod.mk.inj (asks.of_told near)).1] at ha
    rcases began_of_punctual punctual p e _ Duration.zero _ a ha with began | began
    · rw [began]
      exact Nat.zero_le _
    · exact began
  · rw [none] at ha
    exact absurd ha List.not_mem_nil

end

def responding (status : Nat) (body : Bytes) (e : ProbeEndpoint) :
    { r : ProbeResult // e.MayGive r } :=
  if h : e.request?.isSome = true then ⟨.response status body, h⟩ else failing "no request" e

/-- A response is taken however long it takes to come. -/
theorem answered_by_first {status : Nat} {body : Bytes} (asks : Asks p e)
    (askable : e.request?.isSome = true) (near : start + p.patience ≤ lastMoment)
    (accepted : p.accepts status body = true) (took : Duration) :
    attemptsOf (answering start took (responding status body)) p () =
        [⟨e, Duration.zero, took, .response status body⟩] ∧
      outcomeOf (answering start took (responding status body)) p () = .ok .ready := by
  have result : responding status body e = ⟨.response status body, askable⟩ := dif_pos askable
  have hq : answering start took (responding status body) (.attempt e) () =
      ((took, ⟨.response status body, askable⟩), ()) := by
    rw [← result]
    rfl
  have taken : p.Accepts ⟨e, Duration.zero, took, .response status body⟩ :=
    ⟨status, body, rfl, accepted⟩
  have near : startOf (answering start took (responding status body)) () + p.patience ≤ lastMoment :=
    near
  exact Prod.mk.inj ((asks.of_told near).trans (trace_of_accepted hq taken))

/-- A probe ends ready exactly if an attempt is accepted and those before it leave the time for a pause,
whenever the response of that attempt comes. If pauses are on time, attempts begin before the deadline; but
the responses that are taken all come before it only for a probe that makes no request, accepts nothing or
has a deadline that no clock can tell. -/
theorem ready_whenever_accepted (p : ReadinessProbe) :
    (∀ (σ : Type) (answer : (q : ProbeQuestion) → σ → q.Answer × σ) (s : σ),
      (EndsReady p (attemptsOf answer p s) ↔ outcomeOf answer p s = .ok .ready) ∧
        (Punctual answer → ∀ a ∈ attemptsOf answer p s, a.began ≤ p.patience)) ∧
    ((∀ (σ : Type) (answer : (q : ProbeQuestion) → σ → q.Answer × σ) (s : σ),
        ReadyInTime p (attemptsOf answer p s) (outcomeOf answer p s)) ↔
      ∀ e status body, Asks p e → e.request?.isSome = true → p.patience ≤ lastMoment →
        p.accepts status body = false) := by
  refine ⟨fun σ answer s => ⟨endsReady_iff answer p s, fun punctual => began_le punctual p s⟩, ?_, ?_⟩
  · intro inTime e status body asks askable told
    refine Bool.eq_false_iff.2 fun accepted => ?_
    have near : Duration.zero + p.patience ≤ lastMoment :=
      Nat.le_trans (Nat.le_of_eq (Nat.zero_add _)) told
    obtain ⟨attempts_eq, ready⟩ := answered_by_first asks askable near accepted (p.patience + ⟨1⟩)
    obtain ⟨a, ha, -, ended⟩ := inTime Unit _ () ready
    rw [attempts_eq] at ha
    rw [List.mem_singleton.1 ha] at ended
    have ended : 0 + (p.patience.nanos + 1) ≤ p.patience.nanos := ended
    omega
  · intro nothing σ answer s ready
    obtain ⟨e, status, body, asks, askable, told, accepted⟩ := exists_accepted_of_ready ready
    rw [nothing e status body asks askable told] at accepted
    cases accepted

def brief : ReadinessProbe :=
  { endpoint := "http://127.0.0.1:8080/", timeout := Duration.ofMillis 1, validator := none }

def briefEndpoint : ProbeEndpoint :=
  { scheme := some "http", authority := Utf8.encode "127.0.0.1:8080", target := Utf8.encode "/" }

theorem asks_brief : Asks brief briefEndpoint :=
  ⟨rfl, by decide⟩

/-- Surroundings in which every response comes after two milliseconds. -/
def slowly : (q : ProbeQuestion) → Unit → q.Answer × Unit :=
  answering Duration.zero (Duration.ofMillis 2) (responding 200 [])

/-- A response that comes after two milliseconds makes a container ready that has one. -/
theorem response_taken_late :
    outcomeOf slowly brief () = .ok .ready ∧
      attemptsOf slowly brief () =
        [⟨briefEndpoint, Duration.zero, Duration.ofMillis 2, .response 200 []⟩] ∧
      ¬ReadyInTime brief (attemptsOf slowly brief ()) (outcomeOf slowly brief ()) := by
  have askable : briefEndpoint.request?.isSome = true := by decide
  have near : Duration.zero + brief.patience ≤ lastMoment := by decide
  have accepted : brief.accepts 200 [] = true := rfl
  obtain ⟨attempts_eq, ready⟩ :=
    answered_by_first asks_brief askable near accepted (Duration.ofMillis 2)
  refine ⟨ready, attempts_eq, fun inTime => ?_⟩
  obtain ⟨a, ha, -, ended⟩ := inTime ready
  rw [slowly, attempts_eq] at ha
  rw [List.mem_singleton.1 ha] at ended
  exact absurd ended (by decide)

end ReadinessProbe
end ContainerBuild
