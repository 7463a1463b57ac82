import ContainerBuild.Proofs.Podman.Operations
import ContainerBuild.Surroundings.Script

/-!
# Replies of the daemon

What each reply makes of an operation. A reply that is no success is taken well only where the operation
expects it. Any other ends the work at once, with an error that says what was absent, or else which
status the daemon gave. A reply whose body breaks off is an exception: as the body is read before the
status is looked at, its status is lost.
-/

namespace ContainerBuild
namespace Podman

open Session (Goes goes_bind_iff goes_pure_iff goes_throw_iff goes_attempt_bind goes_mapError_iff
  goes_ofOutcome_iff)
open Step (ask stream)
open Dialogue (result)

/-- The statuses beside those of success that a turn takes well. -/
def Turn.Takes : Turn → Nat → Prop
  | .onward, _ => False
  | .allowed status, s => s = status
  | .settled status, s => s = status
  | .sought, s => s = 404
  | .optional, _ => True

/-- What the body of a reply says, if it can be read to its end. -/
def said? (r : Http.Response) : Except String String :=
  r.body.map errorMessage

namespace Step

/-- A reply that a step takes well. -/
def Passes (s : Step) (reply : Http.Reply) : Prop :=
  s.turn = .optional ∨ ∃ r, reply = .response r ∧
    (r.isSuccess = true ∨ s.turn.Takes r.status ∧ ∃ message, said? r = .ok message)

def statusError (c : Client) (s : Step) (status : Nat) (message : String) : BuildError :=
  let e : BuildError := .api name status message
  let about : BuildError :=
    match s.subject with
    | .plain => e
    | .container id => if status = 404 then .containerNotFound id else e
    | .image reference => if status = 404 then .imageNotFound reference else e
    | .daemon => .connection name c.socket e.message
    | .build tag => .buildFailed tag e.message
  match s.platform with
  | none => about
  | some p => .multiArchBuild p.text about.message

def refusal (c : Client) (s : Step) (r : Http.Response) : BuildError :=
  match said? r with
  | .ok message => s.statusError c r.status message
  | .error reason => s.report c (backendError ("failed to read body: " ++ reason))

variable {c : Client} {s : Step} {reply : Http.Reply}

theorem report_api (c : Client) (s : Step) (status : Nat) (message : String) :
    s.report c (.api name status message) = s.statusError c status message := by
  have habout : s.subject.report c (.api name status message) =
      match s.subject with
      | .plain => .api name status message
      | .container id =>
        if status = 404 then .containerNotFound id else .api name status message
      | .image reference =>
        if status = 404 then .imageNotFound reference else .api name status message
      | .daemon => .connection name c.socket (BuildError.api name status message).message
      | .build tag => .buildFailed tag (BuildError.api name status message).message := by
    cases s.subject <;> simp [Subject.report, containerError, imageError, BuildError.isNotFound]
  unfold report statusError
  rw [habout]
  rfl

theorem outcome_refused {r : Http.Response} (h : r.isSuccess = false) :
    s.outcome c (.response r) = match said? r with
      | .ok message => .error (.api name r.status message)
      | .error reason => .error (backendError ("failed to read body: " ++ reason)) := by
  have hsuccess : ¬r.isSuccess = true := by simp [h]
  have hread : (Client.readBody r >>= fun body =>
      (.error (apiError r.status body) : Outcome Unit)) = match said? r with
      | .ok message => .error (.api name r.status message)
      | .error reason => .error (backendError ("failed to read body: " ++ reason)) := by
    unfold Client.readBody said?
    cases r.body <;> rfl
  rw [← hread, outcome]
  by_cases hs : s.streamed
  · rw [if_pos hs]
    change (Client.streamOf r).map _ = _
    rw [Client.streamOf, if_neg hsuccess]
    cases Client.readBody r <;> rfl
  · rw [if_neg hs]
    change (Client.successBody r).map _ = _
    unfold Client.successBody
    simp only [if_neg hsuccess]
    cases Client.readBody r <;> rfl

theorem outcome_of_error {e : BuildError}
    (h : c.responseOf s.endpoint.method s.endpoint.path reply = .error e) :
    s.outcome c reply = .error e := by
  unfold outcome
  by_cases hs : s.streamed
  · rw [if_pos hs, h]
    rfl
  · rw [if_neg hs, Client.bodyOf_eq, h]
    rfl

theorem after_error {turn : Turn} {report : BuildError → BuildError} {e : BuildError}
    (ht : turn ≠ .optional)
    (hs : ∀ status, hasStatus status e = true → turn ≠ .allowed status ∧ turn ≠ .settled status)
    (hn : e.isNotFound = true → turn ≠ .sought) :
    turn.after report (.error e) = .fail (report e) := by
  cases turn with
  | onward => rfl
  | optional => exact absurd rfl ht
  | allowed status =>
    rw [Turn.after, if_neg fun h => (hs status h).1 rfl]
  | settled status =>
    rw [Turn.after, if_neg fun h => (hs status h).2 rfl]
  | sought => rw [Turn.after, if_neg fun h => hn h rfl]

/-- A reply that is not taken well is a failure. -/
theorem after_of_not_passes (h : ¬s.Passes reply) :
    ∃ e, s.after c reply = .fail e ∧ ∀ r, reply = .response r → e = s.refusal c r := by
  have hopt : s.turn ≠ .optional := fun ht => h (.inl ht)
  have hplain : ∀ e : BuildError, (∀ status, hasStatus status e = false) → e.isNotFound = false →
      s.outcome c reply = .error e → s.after c reply = .fail (s.report c e) := by
    intro e hs hn ho
    rw [after, ho]
    exact after_error hopt (fun status h => by simp [hs] at h) (fun h => by simp [hn] at h)
  cases reply with
  | unreachable fault =>
    refine ⟨_, hplain (.connection ..) (fun _ => rfl) rfl (outcome_of_error rfl), fun r hr => ?_⟩
    cases hr
  | silent =>
    refine ⟨_, hplain (.timeout ..) (fun _ => rfl) rfl (outcome_of_error rfl), fun r hr => ?_⟩
    cases hr
  | dropped reason =>
    refine ⟨_, hplain (.backend ..) (fun _ => rfl) rfl (outcome_of_error rfl), fun r hr => ?_⟩
    cases hr
  | response r =>
    have hr : r.isSuccess = false := by
      rw [← Bool.not_eq_true]
      exact fun hr => h (.inr ⟨r, rfl, .inl hr⟩)
    have ho := outcome_refused (c := c) (s := s) hr
    unfold refusal
    cases hsaid : said? r with
    | error reason =>
      rw [hsaid] at ho
      refine ⟨_, hplain (.backend ..) (fun _ => rfl) rfl ho, fun r' hr' => ?_⟩
      cases hr'
      simp only [hsaid]
      rfl
    | ok message =>
      rw [hsaid] at ho
      have htakes : ¬s.turn.Takes r.status := fun ht => h (.inr ⟨r, rfl, .inr ⟨ht, message, hsaid⟩⟩)
      refine ⟨s.statusError c r.status message, ?_, fun r' hr' => ?_⟩
      · rw [after, ho, ← report_api]
        apply after_error hopt
        · intro status hs
          have hs : r.status = status := by simpa [hasStatus] using hs
          subst hs
          constructor <;> intro ht <;> exact htakes (by rw [ht]; rfl)
        · intro hn ht
          have hn : r.status = 404 := by simpa [BuildError.isNotFound] using hn
          exact htakes (by rw [ht]; exact hn)
      · cases hr'
        simp only [hsaid]

theorem after_of_settled {status : Nat} {r : Http.Response} (ht : s.turn = .settled status)
    (hs : r.isSuccess = false) : s.after c (.response r) ≠ .goOn := by
  rw [after, ht, outcome_refused hs]
  cases said? r with
  | error reason =>
    intro h
    cases h
  | ok message =>
    simp only [Turn.after]
    split <;> intro h <;> cases h

end Step

/-- What becomes of the calls of an operation. They are made along its steps, in order. Each is taken well
or is the last and gives the error, and a status that settles the work is the last as well. -/
structure Minds (c : Client) {α : Type} (o : Operation α) (given : String) (xs : List Http.Call)
    (r : Outcome α) : Prop where
  inOrder : ∃ stop, Trail c (steps given o) xs stop
  each : ∀ before x after, xs = before ++ x :: after → ∃ step ∈ steps given o, step.Asks c x ∧
    (step.Passes x.reply ∧
        (∀ status y, step.turn = .settled status → x.reply = .response y → y.isSuccess = false →
          after = []) ∨
      after = [] ∧ ∃ e, r = .error e ∧ ∀ y, x.reply = .response y → e = step.refusal c y)

theorem minds (c : Client) {α : Type} (o : Operation α) {xs : List Http.Call} {r : Outcome α}
    (h : Goes (o.session c.manager) xs r) : ∃ given, Minds c o given xs r := by
  obtain ⟨given, e?, ht, he⟩ := heeds_session c o xs r h
  refine ⟨given, ⟨e?, ht⟩, fun before x after hxs => ?_⟩
  obtain ⟨step, hm, hx, hafter⟩ := ht.split hxs
  refine ⟨step, hm, hx, ?_⟩
  by_cases hp : step.Passes x.reply
  · refine .inl ⟨hp, fun status y hturn hy hs => ?_⟩
    rw [hy] at hafter
    have hne := Step.after_of_settled (c := c) hturn hs
    cases ha : step.after c (.response y) with
    | goOn => exact absurd ha hne
    | finish =>
      rw [ha] at hafter
      exact hafter
    | fail e =>
      rw [ha] at hafter
      exact hafter.1
  · obtain ⟨e, ha, hr⟩ := Step.after_of_not_passes (c := c) hp
    rw [ha] at hafter
    exact .inr ⟨hafter.1, e, he e hafter.2, hr⟩

/-! ### What is absent -/

variable {c : Client}

theorem status_of_isNotFound {method : Http.Method} {path : String} {reply : Http.Reply}
    {e : BuildError} (h : c.bodyOf method path reply = .error e) (he : e.isNotFound = true) :
    ∃ r, reply = .response r ∧ r.status = 404 := by
  have hgives := gives_bodyOf c method path reply
  rw [h] at hgives
  have habsent : verdict reply = .absent := by
    generalize verdict reply = v at hgives
    cases hgives with
    | absent _ => rfl
    | failed hf => simp [he] at hf
  cases reply with
  | unreachable fault | silent | dropped reason => cases habsent
  | response r =>
    refine ⟨r, rfl, ?_⟩
    unfold verdict at habsent
    cases hb : r.body with
    | error reason => simp [hb] at habsent
    | ok body =>
      simp only [hb] at habsent
      split at habsent
      · cases habsent
      · split at habsent
        · assumption
        · cases habsent

/-- A call of an endpoint whose reply is a success. -/
def Succeeds (c : Client) (e : Endpoint) (x : Http.Call) : Prop :=
  (ask e).Asks c x ∧ ∃ r, x.reply = .response r ∧ r.isSuccess = true

theorem success_of_body {method : Http.Method} {path : String} {reply : Http.Reply} {body : Bytes}
    (h : c.bodyOf method path reply = .ok body) : ∃ r, reply = .response r ∧ r.isSuccess = true := by
  obtain ⟨r, hr, success, -⟩ := Client.bodyOf_eq_ok_iff.1 h
  exact ⟨r, hr, success⟩

/-- An archive is given, or else the reply says that it is absent and the container is then found. -/
def Confirms (c : Client) (id path : String) : List Http.Call → Prop
  | [] => False
  | x :: rest =>
    Succeeds c (.download id path) x ∨
      (ask (.download id path)).Asks c x ∧ (∃ r, x.reply = .response r ∧ r.status = 404) ∧
        ∃ y more, rest = y :: more ∧ Succeeds c (.inspect id) y

theorem goes_inspect_ok {id : String} {xs : List Http.Call} {details : ContainerDetails}
    (h : Goes (c.inspect id) xs (.ok details)) :
    ∃ y more, xs = y :: more ∧ Succeeds c (.inspect id) y := by
  rcases goes_bind_iff.1 h with ⟨e, -, he⟩ | ⟨ys, found, zs, hy, -, rfl⟩
  · cases he
  obtain ⟨x, hx, hfound⟩ := goes_mapError_iff.1 hy
  obtain ⟨body, hbody, rfl⟩ := Session.goes_bind_ofOutcome_iff.1 hx
  rcases Client.goes_request hbody with ⟨-, -, reason, rfl⟩ | ⟨-, reply, rfl, rfl⟩
  · cases hfound
  obtain ⟨body, hb, -⟩ := bind_eq_ok_iff.1 (mapError_eq_ok_iff.1 hfound.symm)
  have hpath : containerPath id "/json" = (Endpoint.inspect id).path :=
    Endpoint.containerPath_eq_path (.inspect id) id "json" rfl (by decide)
  exact ⟨_, zs, rfl, ⟨rfl, congrArg c.pathFor hpath⟩, success_of_body hb⟩

/-- The absence of an archive is told only of a container that is there. -/
theorem goes_download_ok {id path : String} {xs : List Http.Call} {found : Option Bytes}
    (h : Goes (c.download id path) xs (.ok found)) : Confirms c id path xs := by
  rcases goes_download c h with ⟨-, e, he⟩ | ⟨reply, ys, rfl, hrest⟩
  · cases he
  cases hb : c.bodyOf .get (Endpoint.download id path).path reply with
  | ok body => exact .inl ⟨⟨rfl, rfl⟩, success_of_body hb⟩
  | error e =>
    rw [hb] at hrest
    simp only at hrest
    by_cases absent : e.isNotFound
    · rw [if_pos absent] at hrest
      rcases goes_bind_iff.1 hrest with ⟨e', -, he⟩ | ⟨us, details, vs, hu, -, rfl⟩
      · cases he
      obtain ⟨y, more, rfl, hy⟩ := goes_inspect_ok hu
      exact .inr ⟨⟨rfl, rfl⟩, status_of_isNotFound hb absent, y, more ++ vs, rfl, hy⟩
    · rw [if_neg absent] at hrest
      cases hrest.2

/-- Whatever the daemon replies, every call of an operation is taken well or ends it with an error, and
an archive is only found absent in a container that is found. -/
theorem replies_of_operations (c : Client) {σ : Type} (answer : (q : Inquiry) → σ → q.Answer × σ)
    (s : σ) :
    (∀ (α : Type) (o : Operation α), ∃ given, Minds c o given
      (Session.calls answer (o.session c.manager) s) (result answer (o.session c.manager) s).1) ∧
    ∀ (id path : String), ∀ o ∈ [Operation.download id path, Operation.copyOut id path], ∀ found,
      (result answer (o.session c.manager) s).1 = .ok found →
        Confirms c id path (Session.calls answer (o.session c.manager) s) := by
  refine ⟨fun α o => minds c o (Session.goes_run answer _ s), ?_⟩
  intro id path o ho found hr
  have hgoes := Session.goes_run answer (o.session c.manager) s
  rw [hr] at hgoes
  rcases List.mem_pair.1 ho with rfl | rfl
  · exact goes_download_ok hgoes
  · obtain ⟨x, hx, hfail⟩ := goes_copyOut c hgoes
    cases x with
    | ok archive => exact goes_download_ok hx
    | error e => cases hfail e rfl

/-! A container that is absent is not told of if the body of the reply breaks off. -/

/-- A daemon that finds nothing, and breaks off as it says so. -/
def brokenScript : Script where
  routes := []
  otherwise := .response ⟨404, [], some "unexpected end of file"⟩
  socket := some "/run/podman.sock"
  files := FileTree.empty
  workingDirectory := []
  program := fun _ => none
  freshId := ""
  requests := []
  commands := []

theorem absence_lost_with_body :
    (Session.calls Script.answer ((Client.new "/run/podman.sock" ⟨0⟩).manager.start "c1")
        brokenScript).map Http.Call.reply =
      [.response ⟨404, [], some "unexpected end of file"⟩] ∧
    (result Script.answer ((Client.new "/run/podman.sock" ⟨0⟩).manager.start "c1")
        brokenScript).1 =
      .error (backendError "failed to read body: unexpected end of file") := by
  decide +kernel

end Podman
end ContainerBuild
