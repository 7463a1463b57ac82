import ContainerBuild.Proofs.Podman.Endpoints
import ContainerBuild.Proofs.Sessions.Calls

/-!
# Steps of work with the daemon

Work with the daemon goes along steps. A step is a request, what its failures are about, and which
replies that are no success it still takes well. The calls of the work are made along its steps: those
before the last are taken well, and a reply that is not is the last and gives the error of the work.
What goes along steps is put together of work that goes along theirs.
-/

namespace ContainerBuild
namespace Podman

open Session (Goes goes_bind_iff goes_pure_iff goes_throw_iff goes_ofOutcome_iff goes_attempt_iff
  goes_attempt_bind goes_mapError_iff)

/-- What the failure of a request is about. -/
inductive Subject
  | plain
  | container (id : String)
  | image (reference : String)
  | daemon
  | build (tag : String)
  deriving DecidableEq, Repr

/-- How a reply is taken. A success goes on unless it is what is sought. -/
inductive Turn
  | onward
  /-- Another status goes on as well. -/
  | allowed (status : Nat)
  /-- Another status ends the work well. -/
  | settled (status : Nat)
  /-- A success ends the work well, and absence goes on. -/
  | sought
  /-- Every reply goes on. -/
  | optional
  deriving DecidableEq, Repr

structure Step where
  endpoint : Endpoint
  subject : Subject
  turn : Turn
  platform : Option PlatformSpec
  /-- Whether the body of a success is left unread. -/
  streamed : Bool
  deriving DecidableEq, Repr

inductive After
  | goOn
  | finish
  | fail (e : BuildError)
  deriving DecidableEq, Repr

def Subject.report (c : Client) : Subject → BuildError → BuildError
  | plain, e => e
  | container id, e => containerError id e
  | image reference, e => imageError reference e
  | daemon, e =>
    match e with
    | .connection .. => e
    | _ => .connection name c.socket e.message
  | build tag, e => .buildFailed tag e.message

def After.mapError (g : BuildError → BuildError) : After → After
  | fail e => fail (g e)
  | a => a

def Turn.after (report : BuildError → BuildError) : Turn → Outcome Unit → After
  | sought, .ok _ => .finish
  | _, .ok _ => .goOn
  | onward, .error e => .fail (report e)
  | allowed status, .error e => if hasStatus status e then .goOn else .fail (report e)
  | settled status, .error e => if hasStatus status e then .finish else .fail (report e)
  | sought, .error e => if e.isNotFound then .goOn else .fail (report e)
  | optional, .error _ => .goOn

/-- A turn that never ends the work well before its time. -/
def Turn.GoesOn : Turn → Prop
  | settled _ | sought => False
  | _ => True

theorem Turn.after_ne_finish {turn : Turn} (h : turn.GoesOn) (report : BuildError → BuildError)
    (o : Outcome Unit) : turn.after report o ≠ .finish := by
  cases turn with
  | settled status => exact h.elim
  | sought => exact h.elim
  | onward => cases o <;> nofun
  | optional => cases o <;> nofun
  | allowed status =>
    cases o with
    | ok a => nofun
    | error e =>
      simp only [Turn.after]
      split <;> nofun

theorem Turn.after_mapError (g report : BuildError → BuildError) (turn : Turn) (o : Outcome Unit) :
    turn.after (fun e => g (report e)) o = (turn.after report o).mapError g := by
  cases o with
  | ok a => cases turn <;> rfl
  | error e =>
    cases turn with
    | allowed status | settled status =>
      simp only [Turn.after]
      split <;> rfl
    | sought =>
      simp only [Turn.after]
      split <;> rfl
    | _ => rfl

namespace Step

def ask (endpoint : Endpoint) : Step :=
  ⟨endpoint, .plain, .onward, none, false⟩

def stream (endpoint : Endpoint) : Step :=
  { ask endpoint with streamed := true }

def about (subject : Subject) (s : Step) : Step := { s with subject := subject }

def taking (turn : Turn) (s : Step) : Step := { s with turn := turn }

def buildingFor (p : PlatformSpec) (s : Step) : Step := { s with platform := some p }

def report (c : Client) (s : Step) (e : BuildError) : BuildError :=
  match s.platform with
  | none => s.subject.report c e
  | some p => platformFailure p.text (s.subject.report c e)

def outcome (c : Client) (s : Step) (reply : Http.Reply) : Outcome Unit :=
  if s.streamed then
    (c.responseOf s.endpoint.method s.endpoint.path reply >>= Client.streamOf).map fun _ => ()
  else (c.bodyOf s.endpoint.method s.endpoint.path reply).map fun _ => ()

def after (c : Client) (s : Step) (reply : Http.Reply) : After :=
  s.turn.after (s.report c) (s.outcome c reply)

/-- Whether a call is the request of a step. -/
def Asks (c : Client) (s : Step) (x : Http.Call) : Prop :=
  x.request.method = s.endpoint.method ∧ x.request.target = c.pathFor s.endpoint.path

end Step

/-- Calls that are made along steps, and the error of the last of them if it failed. -/
inductive Trail (c : Client) : List Step → List Http.Call → Option BuildError → Prop
  | done (steps : List Step) : Trail c steps [] none
  | skipped {step : Step} {steps : List Step} {xs : List Http.Call} {o : Option BuildError}
      (h : Trail c steps xs o) : Trail c (step :: steps) xs o
  | passed {step : Step} {steps : List Step} {x : Http.Call} {xs : List Http.Call}
      {o : Option BuildError} (hx : step.Asks c x) (ha : step.after c x.reply = .goOn)
      (h : Trail c steps xs o) : Trail c (step :: steps) (x :: xs) o
  | finished {step : Step} {steps : List Step} {x : Http.Call} (hx : step.Asks c x)
      (ha : step.after c x.reply = .finish) : Trail c (step :: steps) [x] none
  | stopped {step : Step} {steps : List Step} {x : Http.Call} {e : BuildError} (hx : step.Asks c x)
      (ha : step.after c x.reply = .fail e) : Trail c (step :: steps) [x] (some e)

namespace Trail

variable {c : Client} {s t : List Step} {xs ys : List Http.Call} {o : Option BuildError}

theorem append_right (h : Trail c s xs o) (t : List Step) : Trail c (s ++ t) xs o := by
  induction h with
  | done steps => exact .done _
  | skipped _ ih => exact .skipped ih
  | passed hx ha _ ih => exact .passed hx ha ih
  | finished hx ha => exact .finished hx ha
  | stopped hx ha => exact .stopped hx ha

theorem append_left (s : List Step) (h : Trail c t xs o) : Trail c (s ++ t) xs o := by
  induction s with
  | nil => exact h
  | cons step s ih => exact .skipped ih

/-- Steps of which none finishes the work are followed by more. -/
theorem append (hs : ∀ step ∈ s, step.turn.GoesOn) (h : Trail c s xs none)
    (g : Trail c t ys o) : Trail c (s ++ t) (xs ++ ys) o := by
  generalize hn : (none : Option BuildError) = n at h
  induction h with
  | done steps => exact append_left steps g
  | skipped _ ih => exact .skipped (ih (fun step hm => hs step (List.mem_cons_of_mem _ hm)) hn)
  | passed hx ha _ ih =>
    exact .passed hx ha (ih (fun step hm => hs step (List.mem_cons_of_mem _ hm)) hn)
  | finished hx ha => exact absurd ha (Turn.after_ne_finish (hs _ List.mem_cons_self) _ _)
  | stopped => cases hn

theorem eq_of_singleton {α : Type} {x y : α} {before after : List α}
    (h : [y] = before ++ x :: after) : before = [] ∧ y = x ∧ after = [] := by
  cases before with
  | nil => simpa using h
  | cons b before => simp at h

/-- Every call is made for one of the steps. It goes on from there, or it is the last. -/
theorem split (h : Trail c s xs o) {before after : List Http.Call} {x : Http.Call}
    (hxs : xs = before ++ x :: after) :
    ∃ step ∈ s, step.Asks c x ∧
      match step.after c x.reply with
      | .goOn => True
      | .finish => after = []
      | .fail e => after = [] ∧ o = some e := by
  induction h generalizing before with
  | done steps => simp at hxs
  | skipped _ ih =>
    obtain ⟨step, hm, hstep⟩ := ih hxs
    exact ⟨step, List.mem_cons_of_mem _ hm, hstep⟩
  | @passed step steps y ys o hy ha _ ih =>
    cases before with
    | nil =>
      obtain ⟨rfl, -⟩ := List.cons.inj hxs
      refine ⟨step, List.mem_cons_self, hy, ?_⟩
      rw [ha]
      trivial
    | cons b before =>
      obtain ⟨rfl, hys⟩ := List.cons.inj hxs
      obtain ⟨step, hm, hstep⟩ := ih hys
      exact ⟨step, List.mem_cons_of_mem _ hm, hstep⟩
  | @finished step steps y hy ha =>
    obtain ⟨rfl, rfl, rfl⟩ := eq_of_singleton hxs
    refine ⟨step, List.mem_cons_self, hy, ?_⟩
    rw [ha]
  | @stopped step steps y e hy ha =>
    obtain ⟨rfl, rfl, rfl⟩ := eq_of_singleton hxs
    refine ⟨step, List.mem_cons_self, hy, ?_⟩
    rw [ha]
    exact ⟨rfl, rfl⟩

theorem mapError {g : BuildError → BuildError} {change : Step → Step}
    (hc : ∀ step ∈ s, (change step).endpoint = step.endpoint ∧ (change step).turn = step.turn ∧
      (change step).streamed = step.streamed ∧ ∀ e, (change step).report c e = g (step.report c e))
    (h : Trail c s xs o) : Trail c (s.map change) xs (o.map g) := by
  have hafter : ∀ step ∈ s, ∀ reply,
      (change step).after c reply = (step.after c reply).mapError g := by
    intro step hm reply
    obtain ⟨he, ht, hs, hr⟩ := hc step hm
    rw [Step.after, Step.after, ← Turn.after_mapError, ht, funext hr, Step.outcome, Step.outcome,
      hs, he]
  have hasks : ∀ step ∈ s, ∀ x, step.Asks c x → (change step).Asks c x := by
    intro step hm x hx
    rw [Step.Asks, (hc step hm).1]
    exact hx
  clear hc
  induction h with
  | done steps => exact .done _
  | skipped _ ih =>
    exact .skipped (ih (fun step hm => hafter step (List.mem_cons_of_mem _ hm))
      fun step hm => hasks step (List.mem_cons_of_mem _ hm))
  | passed hx ha _ ih =>
    refine .passed (hasks _ List.mem_cons_self _ hx) ?_
      (ih (fun step hm => hafter step (List.mem_cons_of_mem _ hm))
        fun step hm => hasks step (List.mem_cons_of_mem _ hm))
    rw [hafter _ List.mem_cons_self, ha]
    rfl
  | finished hx ha =>
    refine .finished (hasks _ List.mem_cons_self _ hx) ?_
    rw [hafter _ List.mem_cons_self, ha]
    rfl
  | stopped hx ha =>
    refine .stopped (hasks _ List.mem_cons_self _ hx) ?_
    rw [hafter _ List.mem_cons_self, ha]
    rfl

end Trail

theorem Trail.of_single {c : Client} {step : Step} {xs : List Http.Call} {o : Option BuildError}
    (h : Trail c [step] xs o) : xs = [] ∨ ∃ x, xs = [x] ∧ step.Asks c x := by
  cases h with
  | done => exact .inl rfl
  | skipped h =>
    cases h
    exact .inl rfl
  | passed hx _ h =>
    cases h
    exact .inr ⟨_, rfl, hx⟩
  | finished hx _ => exact .inr ⟨_, rfl, hx⟩
  | stopped hx _ => exact .inr ⟨_, rfl, hx⟩

/-- Work that goes along steps, whatever the replies. If its last call fails, its error is that of the
call. -/
def Heeds (c : Client) {α : Type} (s : List Step) (m : Session α) : Prop :=
  ∀ xs r, Goes m xs r → ∃ o, Trail c s xs o ∧ ∀ e, o = some e → r = .error e

namespace Heeds

variable {c : Client} {α β : Type} {s t : List Step} {m : Session α} {f : α → Session β}

/-- Work without calls goes along any steps. -/
theorem of_quiet (h : ∀ xs r, Goes m xs r → xs = []) (s : List Step) : Heeds c s m := by
  intro xs r hg
  obtain rfl := h xs r hg
  exact ⟨none, .done s, nofun⟩

theorem pure (a : α) (s : List Step) : Heeds c s (Pure.pure a) :=
  of_quiet (fun _ _ h => (goes_pure_iff.1 h).1) s

theorem bind_quiet (hm : Heeds c s m) (hf : ∀ a xs r, Goes (f a) xs r → xs = []) :
    Heeds c s (m >>= f) := by
  intro xs r hg
  rcases goes_bind_iff.1 hg with ⟨e, he, rfl⟩ | ⟨ys, a, zs, ha, hz, rfl⟩
  · obtain ⟨o, ht, ho⟩ := hm xs _ he
    refine ⟨o, ht, fun e' h => ?_⟩
    cases ho e' h
    rfl
  · obtain ⟨o, ht, ho⟩ := hm ys _ ha
    rw [hf a zs r hz, List.append_nil]
    exact ⟨o, ht, fun e h => nomatch ho e h⟩

theorem trail_of_error {xs : List Http.Call} {e : BuildError} (hm : Heeds c s m)
    (he : Goes m xs (.error e)) (t : List Step) :
    ∃ o, Trail c (s ++ t) xs o ∧ ∀ e', o = some e' → (.error e : Outcome β) = .error e' := by
  obtain ⟨o, ht, ho⟩ := hm xs _ he
  refine ⟨o, ht.append_right t, fun e' h => ?_⟩
  cases ho e' h
  rfl

theorem trail_of_ok {xs ys : List Http.Call} {a : α} {m' : Session β} {r : Outcome β}
    (hs : ∀ step ∈ s, step.turn.GoesOn) (hm : Heeds c s m) (ha : Goes m xs (.ok a))
    (hm' : Heeds c t m') (hr : Goes m' ys r) :
    ∃ o, Trail c (s ++ t) (xs ++ ys) o ∧ ∀ e, o = some e → r = .error e := by
  obtain ⟨o, ht, ho⟩ := hm xs _ ha
  have hnone : o = none := by
    cases o with
    | none => rfl
    | some e => exact nomatch ho e rfl
  subst hnone
  obtain ⟨o, ht', ho'⟩ := hm' ys r hr
  exact ⟨o, ht.append hs ht', ho'⟩

/-- The steps of two parts, of which none in the first finishes the work, one after the other. -/
theorem bind (hs : ∀ step ∈ s, step.turn.GoesOn) (hm : Heeds c s m) (hf : ∀ a, Heeds c t (f a)) :
    Heeds c (s ++ t) (m >>= f) := by
  intro xs r hg
  rcases goes_bind_iff.1 hg with ⟨e, he, rfl⟩ | ⟨ys, a, zs, ha, hz, rfl⟩
  · exact hm.trail_of_error he t
  · exact hm.trail_of_ok hs ha (hf a) hz

theorem quiet_bind (hm : ∀ xs r, Goes m xs r → xs = [])
    (hf : ∀ a xs, Goes m xs (.ok a) → Heeds c s (f a)) : Heeds c s (m >>= f) := by
  intro xs r hg
  rcases goes_bind_iff.1 hg with ⟨e, he, rfl⟩ | ⟨ys, a, zs, ha, hz, rfl⟩
  · rw [hm xs _ he]
    exact ⟨none, .done s, nofun⟩
  · have hs := hf a ys ha zs r hz
    rwa [hm ys _ ha]

theorem mapError {g : BuildError → BuildError} (change : Step → Step)
    (hc : ∀ step ∈ s, (change step).endpoint = step.endpoint ∧ (change step).turn = step.turn ∧
      (change step).streamed = step.streamed ∧ ∀ e, (change step).report c e = g (step.report c e))
    (hm : Heeds c s m) : Heeds c (s.map change) (Session.mapError g m) := by
  intro xs r hg
  obtain ⟨r', hr', rfl⟩ := goes_mapError_iff.1 hg
  obtain ⟨o, ht, ho⟩ := hm xs r' hr'
  refine ⟨o.map g, ht.mapError hc, fun e he => ?_⟩
  obtain ⟨e', rfl, rfl⟩ := Option.map_eq_some_iff.1 he
  rw [ho e' rfl]
  rfl

/-! ### Requests -/

theorem of_call {step : Step}
    (h : ∀ xs r, Goes m xs r → xs = [] ∨ ∃ x, xs = [x] ∧ step.Asks c x ∧
      ∀ e, step.after c x.reply = .fail e → r = .error e) : Heeds c [step] m := by
  intro xs r hg
  rcases h xs r hg with rfl | ⟨x, rfl, hx, hr⟩
  · exact ⟨none, .done _, nofun⟩
  · cases ha : step.after c x.reply with
    | goOn => exact ⟨none, .passed hx ha (.done []), nofun⟩
    | finish => exact ⟨none, .finished hx ha, nofun⟩
    | fail e =>
      refine ⟨some e, .stopped hx ha, fun e' he => ?_⟩
      cases he
      exact hr e ha

theorem of_reply {step : Step} {g : Http.Reply → Outcome α} (ht : step.turn = .onward)
    (hr : ∀ e, step.report c e = e) (hg : ∀ reply, step.outcome c reply = (g reply).map fun _ => ())
    (h : ∀ xs r, Goes m xs r → xs = [] ∨ ∃ x, xs = [x] ∧ step.Asks c x ∧ r = g x.reply) :
    Heeds c [step] m := by
  apply of_call
  intro xs r hgoes
  rcases h xs r hgoes with rfl | ⟨x, rfl, hx, rfl⟩
  · exact .inl rfl
  refine .inr ⟨x, rfl, hx, fun e ha => ?_⟩
  rw [Step.after, ht, hg] at ha
  cases hb : g x.reply with
  | ok a =>
    rw [hb] at ha
    cases ha
  | error e' =>
    rw [hb] at ha
    cases ha
    rw [hr]

variable {e : Endpoint} {method : Http.Method} {path : String} {payload : Http.Payload}
  {headers : List (String × String)}

theorem request (hm : method = e.method) (hp : path = e.path) :
    Heeds c [.ask e] (c.request method path payload headers) := by
  subst hm hp
  refine of_reply rfl (fun _ => rfl) (fun _ => rfl) fun xs r hg => ?_
  rcases Client.goes_request hg with ⟨-, rfl, -⟩ | ⟨-, reply, rfl, rfl⟩
  · exact .inl rfl
  · exact .inr ⟨_, rfl, ⟨rfl, rfl⟩, rfl⟩

theorem requestStream (hm : method = e.method) (hp : path = e.path) :
    Heeds c [.stream e] (c.requestStream method path payload) := by
  subst hm hp
  refine of_reply rfl (fun _ => rfl) (fun _ => rfl) fun xs r hg => ?_
  rcases Client.goes_requestStream hg with ⟨-, rfl, -⟩ | ⟨-, reply, rfl, rfl⟩
  · exact .inl rfl
  · exact .inr ⟨_, rfl, ⟨rfl, rfl⟩, rfl⟩

theorem post (hm : .post = e.method) (hp : path = e.path) :
    Heeds c [.ask e] (c.post path payload) :=
  (request hm hp).bind_quiet fun _ _ _ h => (goes_pure_iff.1 h).1

theorem delete (hm : .delete = e.method) (hp : path = e.path) :
    Heeds c [.ask e] (c.delete path) :=
  (request hm hp).bind_quiet fun _ _ _ h => (goes_pure_iff.1 h).1

theorem getJson {d : Json.Decoder α} (hm : .get = e.method) (hp : path = e.path) :
    Heeds c [.ask e] (c.getJson path d) :=
  (request hm hp).bind_quiet fun _ _ _ h => (goes_ofOutcome_iff.1 h).1

theorem postJson {d : Json.Decoder α} (hm : .post = e.method) (hp : path = e.path) :
    Heeds c [.ask e] (c.postJson path payload d) :=
  (request hm hp).bind_quiet fun _ _ _ h => (goes_ofOutcome_iff.1 h).1

theorem goes_post {xs : List Http.Call} {r : Outcome Unit} (h : Goes (c.post path payload) xs r) :
    (xs = [] ∧ ∃ reason, r = .error (.internal reason)) ∨
      ∃ reply, xs = [c.callTo .post path payload [] reply] ∧
        r = (c.bodyOf .post path reply).map fun _ => () := by
  obtain ⟨x, hx, rfl⟩ := (Session.goes_bind_ofOutcome_iff (f := fun _ => .ok ())).1 h
  rcases Client.goes_request hx with ⟨-, rfl, reason, rfl⟩ | ⟨-, reply, rfl, rfl⟩
  · exact .inl ⟨rfl, reason, rfl⟩
  · refine .inr ⟨reply, rfl, ?_⟩
    cases c.bodyOf .post path reply <;> rfl

theorem allowing {status : Nat} (hm : .post = e.method) (hp : path = e.path) :
    Heeds c [(Step.ask e).taking (.allowed status)]
      (Podman.allowing status (c.post path payload)) := by
  subst hp
  apply of_call
  intro xs r hg
  obtain ⟨o, ys, zs, ho, hz, rfl⟩ := goes_attempt_bind hg
  have hz : zs = [] ∧ ∀ err, (Turn.allowed status).after (fun e => e) o = .fail err →
      r = .error err := by
    cases o with
    | ok a => exact ⟨(goes_pure_iff.1 hz).1, nofun⟩
    | error err =>
      simp only at hz
      by_cases hs : hasStatus status err
      · rw [if_pos hs] at hz
        refine ⟨(goes_pure_iff.1 hz).1, fun err' ha => ?_⟩
        rw [Turn.after, if_pos hs] at ha
        cases ha
      · rw [if_neg hs] at hz
        obtain ⟨rfl, rfl⟩ := goes_throw_iff.1 hz
        refine ⟨rfl, fun err' ha => ?_⟩
        rw [Turn.after, if_neg hs] at ha
        cases ha
        rfl
  obtain ⟨rfl, hr⟩ := hz
  rw [List.append_nil]
  rcases goes_post ho with ⟨rfl, -⟩ | ⟨reply, rfl, rfl⟩
  · exact .inl rfl
  · refine .inr ⟨_, rfl, ⟨hm, rfl⟩, ?_⟩
    change ∀ err, (Turn.allowed status).after (fun e => e)
      ((c.bodyOf e.method e.path reply).map fun _ => ()) = .fail err → _
    rwa [← hm]

end Heeds

end Podman
end ContainerBuild
