import ContainerBuild.Proofs.Sessions.Calls

/-!
# The questions of a run

A run of some work asks questions in order, comes to a result and leaves the surroundings changed. Runs
are put together as the work is: a part that comes after another asks its questions after those of the
first, or none if the first fails.
-/

namespace ContainerBuild

namespace Dialogue

variable {Q : Type} {A : Q → Type} {ε ε' α β σ : Type}

/-- Work that comes after other work is done if that succeeds. -/
theorem transcript_bind_of_fallible (answer : (q : Q) → σ → A q × σ) (c : ExceptT ε (Dialogue Q A) α)
    (f : α → ExceptT ε (Dialogue Q A) β) (s : σ) :
    (c >>= f).run.transcript answer s = c.run.transcript answer s ++
      match (c.run.run answer s).1 with
      | .ok a => (f a).run.transcript answer (c.run.run answer s).2
      | .error _ => [] := by
  have hrun : (c >>= f).run = c.run >>= ExceptT.bindCont f := rfl
  rw [hrun, transcript_bind]
  congr 1
  cases (c.run.run answer s).1 with
  | ok a => rfl
  | error e => rfl

/-- What some work asks in a run, in order. -/
def asked (answer : (q : Q) → σ → A q × σ) (c : ExceptT ε (Dialogue Q A) α) (s : σ) : List Q :=
  (c.run.transcript answer s).map Exchange.question

/-- A run of some work: what it asks in order, what it comes to, and the surroundings after it. -/
structure Runs (answer : (q : Q) → σ → A q × σ) (m : ExceptT ε (Dialogue Q A) α) (s : σ)
    (qs : List Q) (r : Except ε α) (s' : σ) : Prop where
  asks : asked answer m s = qs
  gives : result answer m s = (r, s')

namespace Runs

variable {answer : (q : Q) → σ → A q × σ} {s s' s'' : σ} {qs qs' : List Q}
  {m : ExceptT ε (Dialogue Q A) α} {f : α → ExceptT ε (Dialogue Q A) β}

theorem result_fst {r : Except ε α} (h : Runs answer m s qs r s') : (result answer m s).1 = r :=
  congrArg Prod.fst h.gives

theorem pure (a : α) : Runs answer (Pure.pure a : ExceptT ε (Dialogue Q A) α) s [] (.ok a) s :=
  ⟨rfl, rfl⟩

theorem throw (e : ε) : Runs answer (throw e : ExceptT ε (Dialogue Q A) α) s [] (.error e) s :=
  ⟨rfl, rfl⟩

theorem question {q : Q} {a : A q} (hq : answer q s = (a, s')) :
    Runs answer (ExceptT.lift (Dialogue.question q) : ExceptT ε (Dialogue Q A) (A q)) s [q] (.ok a)
      s' := by
  refine ⟨rfl, ?_⟩
  rw [result_question, hq]

theorem bind {a : α} {r : Except ε β} (hm : Runs answer m s qs (.ok a) s')
    (hf : Runs answer (f a) s' qs' r s'') : Runs answer (m >>= f) s (qs ++ qs') r s'' := by
  have hrun : m.run.run answer s = (.ok a, s') := hm.gives
  constructor
  · rw [asked, transcript_bind_of_fallible, List.map_append, hrun]
    exact congrArg₂ (· ++ ·) hm.asks hf.asks
  · rw [result_bind, hm.gives]
    exact hf.gives

theorem bind_error {e : ε} (hm : Runs answer m s qs (.error e) s') :
    Runs answer (m >>= f) s qs (.error e) s' := by
  have hrun : m.run.run answer s = (.error e, s') := hm.gives
  constructor
  · rw [asked, transcript_bind_of_fallible, List.map_append, hrun]
    exact (List.append_nil _).trans hm.asks
  · rw [result_bind, hm.gives]

theorem bind_pure {r : Except ε α} (hm : Runs answer m s qs r s') (g : α → β) :
    Runs answer (m >>= fun a => Pure.pure (g a)) s qs (r.map g) s' := by
  cases r with
  | error e => exact hm.bind_error
  | ok a =>
    have h := hm.bind (f := fun a => Pure.pure (g a)) (.pure (g a))
    rwa [List.append_nil] at h

end Runs
end Dialogue

namespace Session

open Dialogue (Runs)

variable {α β σ : Type} {answer : (q : Inquiry) → σ → q.Answer × σ} {s s' s'' : σ}
  {qs qs' : List Inquiry} {r : Outcome α} {m : Session α}

theorem runs_ofOutcome (r : Outcome α) : Runs answer (ofOutcome r) s [] r s := by
  cases r with
  | ok a => exact .pure a
  | error e => exact .throw e

theorem runs_attempt_bind {f : Outcome α → Session β} {r' : Outcome β} (hm : Runs answer m s qs r s')
    (hf : Runs answer (f r) s' qs' r' s'') : Runs answer (attempt m >>= f) s (qs ++ qs') r' s'' := by
  apply Runs.bind (a := r) _ hf
  constructor
  · have hrun : (attempt m).run = m.run >>= fun x => .done (.ok x) := rfl
    rw [Dialogue.asked, hrun, Dialogue.transcript_bind, Dialogue.transcript_done, List.append_nil]
    exact hm.asks
  · rw [result_attempt, hm.gives]

theorem runs_mapError (g : BuildError → BuildError) (hm : Runs answer m s qs r s') :
    Runs answer (mapError g m) s qs (r.mapError g) s' := by
  constructor
  · have hrun : (mapError g m).run = m.run >>= fun x => .done (x.mapError g) := rfl
    rw [Dialogue.asked, hrun, Dialogue.transcript_bind, Dialogue.transcript_done, List.append_nil]
    exact hm.asks
  · rw [result_mapError, hm.gives]

theorem runs_bind_ofOutcome {f : α → Outcome β} (hm : Runs answer m s qs r s') :
    Runs answer (m >>= fun a => ofOutcome (f a)) s qs (r >>= f) s' := by
  cases r with
  | error e => exact hm.bind_error
  | ok a =>
    have h := hm.bind (f := fun a => ofOutcome (f a)) (runs_ofOutcome (f a))
    rwa [List.append_nil] at h

end Session

namespace Podman
namespace Client

open Dialogue (Runs)

variable {σ : Type} {answer : (q : Inquiry) → σ → q.Answer × σ} {s s' : σ} (c : Client)
  (method : Http.Method) (payload : Http.Payload) (headers : List (String × String))

def responseTo (target : String) : Http.Reply → Outcome Http.Response
  | .unreachable fault => .error (.connection name c.socket fault.text)
  | .silent => .error (.timeout (method.name ++ " " ++ target) c.timeout)
  | .dropped reason => .error (backendError ("request failed: " ++ reason))
  | .response r => .ok r

theorem responseTo_pathFor (path : String) (reply : Http.Reply) :
    c.responseTo method (c.pathFor path) reply = c.responseOf method path reply := by
  cases reply <;> rfl

/-- A request is one question, unless its target is too long to be sent. -/
theorem runs_sendTo {target : String} {reply : Http.Reply}
    (short : ¬Http.maxTarget < target.utf8ByteSize)
    (hq : answer (.exchange c.socket c.timeout ⟨method, target, headers, payload⟩) s = (reply, s')) :
    Runs answer (c.sendTo method target payload headers) s
      [.exchange c.socket c.timeout ⟨method, target, headers, payload⟩]
      (c.responseTo method target reply) s' := by
  unfold sendTo
  rw [if_neg short]
  apply (Runs.question hq).bind
  cases reply with
  | response r => exact .pure r
  | unreachable fault | silent | dropped reason => exact .throw _

theorem runs_request {path : String} {reply : Http.Reply}
    (short : ¬Http.maxTarget < (c.pathFor path).utf8ByteSize)
    (hq : answer (.exchange c.socket c.timeout ⟨method, c.pathFor path, headers, payload⟩) s =
      (reply, s')) :
    Runs answer (c.request method path payload headers) s
      [.exchange c.socket c.timeout ⟨method, c.pathFor path, headers, payload⟩]
      (c.bodyOf method path reply) s' := by
  rw [bodyOf_eq, ← responseTo_pathFor]
  exact Session.runs_bind_ofOutcome (c.runs_sendTo method payload headers short hq)

end Client
end Podman
end ContainerBuild
