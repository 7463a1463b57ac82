import ContainerBuild.Proofs.Sessions
import ContainerBuild.Proofs.Ways

/-!
# The calls of a session

Of all that a session asks, its calls are the requests to the daemon, each with what became of it.
`Goes` says which calls a session can make and what they lead to. It is read off the parts of the
session: work that comes after other work is only done if that succeeds, and a request is one call, or
none if it cannot be sent.
-/

namespace ContainerBuild

/-- A request with what became of it. -/
structure Http.Call where
  request : Http.Request
  reply : Http.Reply
  deriving DecidableEq, Repr

namespace Session

open Dialogue (Exchange Way result)

variable {ε α β : Type}

def call? : Exchange Inquiry Inquiry.Answer → Option Http.Call
  | ⟨.exchange _ _ request, reply⟩ => some ⟨request, reply⟩
  | _ => none

/-- The calls of a run, in order. -/
def calls {σ : Type} (answer : (q : Inquiry) → σ → q.Answer × σ)
    (m : ExceptT ε (Dialogue Inquiry Inquiry.Answer) α) (s : σ) : List Http.Call :=
  (m.run.transcript answer s).filterMap call?

/-- Some work can make these calls and come to this result. -/
def Goes (m : ExceptT ε (Dialogue Inquiry Inquiry.Answer) α) (xs : List Http.Call)
    (r : Except ε α) : Prop :=
  ∃ ys, Way m.run ys r ∧ ys.filterMap call? = xs

theorem goes_run {σ : Type} (answer : (q : Inquiry) → σ → q.Answer × σ)
    (m : ExceptT ε (Dialogue Inquiry Inquiry.Answer) α) (s : σ) :
    Goes m (calls answer m s) (result answer m s).1 :=
  ⟨_, Dialogue.way_run answer m.run s, rfl⟩

variable {m : ExceptT ε (Dialogue Inquiry Inquiry.Answer) α}
  {f : α → ExceptT ε (Dialogue Inquiry Inquiry.Answer) β} {xs : List Http.Call}

theorem goes_pure_iff {a : α} {r : Except ε α} :
    Goes (pure a : ExceptT ε (Dialogue Inquiry Inquiry.Answer) α) xs r ↔ xs = [] ∧ r = .ok a := by
  constructor
  · rintro ⟨ys, h, rfl⟩
    obtain ⟨rfl, rfl⟩ := Dialogue.way_done_iff.1 h
    exact ⟨rfl, rfl⟩
  · rintro ⟨rfl, rfl⟩
    exact ⟨[], .done _, rfl⟩

theorem goes_throw_iff {e : ε} {r : Except ε α} :
    Goes (throw e : ExceptT ε (Dialogue Inquiry Inquiry.Answer) α) xs r ↔
      xs = [] ∧ r = .error e := by
  constructor
  · rintro ⟨ys, h, rfl⟩
    obtain ⟨rfl, rfl⟩ := Dialogue.way_done_iff.1 h
    exact ⟨rfl, rfl⟩
  · rintro ⟨rfl, rfl⟩
    exact ⟨[], .done _, rfl⟩

/-- The second part of some work is done if the first succeeds, and its calls come after. -/
theorem goes_bind_iff {r : Except ε β} :
    Goes (m >>= f) xs r ↔
      (∃ e, Goes m xs (.error e) ∧ r = .error e) ∨
        ∃ ys a zs, Goes m ys (.ok a) ∧ Goes (f a) zs r ∧ xs = ys ++ zs := by
  have hrun : (m >>= f).run = m.run >>= ExceptT.bindCont f := rfl
  constructor
  · rintro ⟨us, h, rfl⟩
    rw [hrun] at h
    obtain ⟨ys, x, zs, hm, hf, rfl⟩ := Dialogue.way_bind_iff.1 h
    rw [List.filterMap_append]
    cases x with
    | ok a => exact .inr ⟨_, a, _, ⟨ys, hm, rfl⟩, ⟨zs, hf, rfl⟩, rfl⟩
    | error e =>
      obtain ⟨rfl, rfl⟩ := Dialogue.way_done_iff.1 hf
      exact .inl ⟨e, ⟨ys, hm, by simp⟩, rfl⟩
  · rintro (⟨e, ⟨ys, hm, rfl⟩, rfl⟩ | ⟨_, a, _, ⟨ys, hm, rfl⟩, ⟨zs, hf, rfl⟩, rfl⟩)
    · exact ⟨ys ++ [], hrun ▸ Dialogue.way_bind_iff.2 ⟨ys, _, [], hm, .done _, rfl⟩, by simp⟩
    · exact ⟨ys ++ zs, hrun ▸ Dialogue.way_bind_iff.2 ⟨ys, _, zs, hm, hf, rfl⟩, List.filterMap_append⟩

theorem goes_map_iff {ε' : Type} {g : Except ε α → Except ε' β} {r : Except ε' β} :
    Goes (ExceptT.mk (m.run >>= fun x => .done (g x))) xs r ↔ ∃ x, Goes m xs x ∧ r = g x := by
  constructor
  · rintro ⟨us, h, rfl⟩
    obtain ⟨ys, x, zs, hm, hg, rfl⟩ := Dialogue.way_bind_iff.1 h
    obtain ⟨rfl, rfl⟩ := Dialogue.way_done_iff.1 hg
    exact ⟨x, ⟨ys, hm, by simp⟩, rfl⟩
  · rintro ⟨x, ⟨ys, hm, rfl⟩, rfl⟩
    exact ⟨ys ++ [], Dialogue.way_bind_iff.2 ⟨ys, x, [], hm, .done _, rfl⟩, by simp⟩

theorem goes_attempt_iff {m : Session α} {r : Outcome (Outcome α)} :
    Goes (attempt m) xs r ↔ ∃ x, Goes m xs x ∧ r = .ok x :=
  goes_map_iff

theorem goes_attempt_bind {m : Session α} {f : Outcome α → Session β} {r : Outcome β}
    (h : Goes (attempt m >>= f) xs r) : ∃ x ys zs, Goes m ys x ∧ Goes (f x) zs r ∧ xs = ys ++ zs := by
  rcases goes_bind_iff.1 h with ⟨e, he, rfl⟩ | ⟨ys, x, zs, hx, hz, rfl⟩
  · obtain ⟨x, -, hx⟩ := goes_attempt_iff.1 he
    cases hx
  · obtain ⟨x', hx', hx⟩ := goes_attempt_iff.1 hx
    cases hx
    exact ⟨x, ys, zs, hx', hz, rfl⟩

theorem goes_mapError_iff {g : BuildError → BuildError} {m : Session α} {r : Outcome α} :
    Goes (mapError g m) xs r ↔ ∃ x, Goes m xs x ∧ r = x.mapError g :=
  goes_map_iff

theorem goes_settle_iff {g : Docker.Failure → BuildError} {m : Docker.Attempt α} {r : Outcome α} :
    Goes (Docker.settle g m) xs r ↔ ∃ x, Goes m xs x ∧ r = x.mapError g :=
  goes_map_iff

theorem goes_ofOutcome_iff {o r : Outcome α} : Goes (ofOutcome o) xs r ↔ xs = [] ∧ r = o := by
  cases o with
  | ok a => exact goes_pure_iff
  | error e => exact goes_throw_iff

theorem goes_ofOutcome_bind_iff {o : Outcome α} {f : α → Session β} {r : Outcome β} :
    Goes (ofOutcome o >>= f) xs r ↔
      (∃ e, o = .error e ∧ xs = [] ∧ r = .error e) ∨ ∃ a, o = .ok a ∧ Goes (f a) xs r := by
  cases o with
  | ok a =>
    change Goes (f a) xs r ↔ _
    simp
  | error e =>
    change Goes (throw e : Session β) xs r ↔ _
    rw [goes_throw_iff]
    simp

theorem goes_bind_ofOutcome_iff {m : Session α} {f : α → Outcome β} {r : Outcome β} :
    Goes (m >>= fun a => ofOutcome (f a)) xs r ↔ ∃ x, Goes m xs x ∧ r = x >>= f := by
  rw [goes_bind_iff]
  constructor
  · rintro (⟨e, he, rfl⟩ | ⟨ys, a, zs, ha, hz, rfl⟩)
    · exact ⟨.error e, he, rfl⟩
    · obtain ⟨rfl, rfl⟩ := goes_ofOutcome_iff.1 hz
      exact ⟨.ok a, by rwa [List.append_nil], rfl⟩
  · rintro ⟨x, hx, rfl⟩
    cases x with
    | ok a => exact .inr ⟨xs, a, [], hx, goes_ofOutcome_iff.2 ⟨rfl, rfl⟩, by rw [List.append_nil]⟩
    | error e => exact .inl ⟨e, hx, rfl⟩

theorem goes_attemptOf_iff {o r : Except Docker.Failure α} :
    Goes (Docker.attemptOf o) xs r ↔ xs = [] ∧ r = o := by
  cases o with
  | ok a => exact goes_pure_iff
  | error e => exact goes_throw_iff

theorem goes_question_iff {q : Inquiry} {r : Except ε q.Answer} :
    Goes (ExceptT.lift (Dialogue.question q)) xs r ↔
      ∃ a, xs = (call? ⟨q, a⟩).toList ∧ r = .ok a := by
  constructor
  · rintro ⟨us, h, rfl⟩
    cases h with
    | ask a h =>
      obtain ⟨rfl, rfl⟩ := Dialogue.way_done_iff.1 h
      exact ⟨a, List.filterMap_cons.trans (by cases call? ⟨q, a⟩ <;> rfl), rfl⟩
  · rintro ⟨a, rfl, rfl⟩
    exact ⟨[⟨q, a⟩], .ask a (.done _), List.filterMap_cons.trans (by cases call? ⟨q, a⟩ <;> rfl)⟩

theorem goes_exchange_iff {socket : String} {limit : Duration} {request : Http.Request}
    {r : Except ε Http.Reply} :
    Goes (ExceptT.lift (Dialogue.question (.exchange socket limit request))) xs r ↔
      ∃ reply, xs = [⟨request, reply⟩] ∧ r = .ok reply :=
  goes_question_iff

theorem goes_freshId_iff {r : Outcome String} :
    Goes freshId xs r ↔ xs = [] ∧ ∃ id, r = .ok id := by
  refine goes_question_iff.trans ?_
  constructor
  · rintro ⟨id, rfl, rfl⟩
    exact ⟨rfl, id, rfl⟩
  · rintro ⟨rfl, id, rfl⟩
    exact ⟨id, rfl, rfl⟩

/-- Nothing is asked of the daemon while a probe is waited for. -/
theorem Goes.waitReady {p : ReadinessProbe} {r : Outcome Readiness} (h : Goes (waitReady p) xs r) :
    xs = [] := by
  obtain ⟨ys, hw, rfl⟩ := h
  have hnone : ∀ y ∈ ys, call? y = none := by
    refine hw.forall_of_interpret (P := fun y => call? y = none) ?_
    intro q zs a hq
    obtain rfl := Dialogue.way_question_iff.1 hq
    intro z hz
    rw [List.mem_singleton.1 hz]
    rfl
  exact List.filterMap_eq_nil_iff.2 hnone

end Session

namespace Docker
namespace Client

open Session (Goes goes_bind_iff goes_exchange_iff goes_attemptOf_iff goes_pure_iff goes_throw_iff)

variable (c : Client) (method : Http.Method) (reference : String) (params : List (String × String))
  (payload : Http.Payload) (headers : List (String × String))

def callTo (reply : Http.Reply) : Http.Call :=
  ⟨⟨method, Http.Target.make reference params, headers, payload⟩, reply⟩

/-- The response that a reply is, if it is accepted, or why there is none. -/
def responseOf : Http.Reply → Except Failure Http.Response
  | .unreachable _ => .error (.exchange "Error in the hyper legacy client: client error (Connect)")
  | .silent => .error (.exchange "Timeout error")
  | .dropped _ => .error (.exchange "Error in the hyper legacy client: client error (SendRequest)")
  | .response r =>
    if isAccepted r then .ok r
    else readBody r >>= fun body => .error (replyFailure r.status body)

theorem responseOf_eq_ok_iff {reply : Http.Reply} {r : Http.Response} :
    responseOf reply = .ok r ↔ reply = .response r ∧ isAccepted r = true := by
  constructor
  · intro h
    cases reply with
    | unreachable fault | silent | dropped reason => cases h
    | response r' =>
      simp only [responseOf] at h
      by_cases accepted : isAccepted r'
      · rw [if_pos accepted] at h
        cases h
        exact ⟨rfl, accepted⟩
      · rw [if_neg accepted] at h
        cases hb : readBody r' <;> rw [hb] at h <;> cases h
  · rintro ⟨rfl, accepted⟩
    exact if_pos accepted

variable {c method reference params payload headers} {xs : List Http.Call}

theorem goes_send {r : Except Failure Http.Response}
    (h : Goes (c.send method reference params payload headers) xs r) :
    ∃ reply, xs = [callTo method reference params payload headers reply] ∧ r = responseOf reply := by
  rcases goes_bind_iff.1 h with ⟨e, he, rfl⟩ | ⟨ys, reply, zs, hy, hz, rfl⟩
  · obtain ⟨reply, -, hr⟩ := goes_exchange_iff.1 he
    cases hr
  obtain ⟨reply, rfl, hr⟩ := goes_exchange_iff.1 hy
  cases hr
  refine ⟨reply, ?_⟩
  suffices hquiet : zs = [] ∧ r = responseOf reply by
    rw [hquiet.1, hquiet.2]
    exact ⟨rfl, rfl⟩
  cases reply with
  | unreachable fault | silent | dropped reason => exact goes_throw_iff.1 hz
  | response r' =>
    unfold responseOf
    by_cases accepted : isAccepted r'
    · simp only [if_pos accepted] at hz ⊢
      exact goes_pure_iff.1 hz
    · simp only [if_neg accepted] at hz ⊢
      rcases goes_bind_iff.1 hz with ⟨e, he, rfl⟩ | ⟨us, body, vs, hu, hv, rfl⟩
      · obtain ⟨rfl, hr⟩ := goes_attemptOf_iff.1 he
        rw [← hr]
        exact ⟨rfl, rfl⟩
      · obtain ⟨rfl, hr⟩ := goes_attemptOf_iff.1 hu
        obtain ⟨rfl, rfl⟩ := goes_throw_iff.1 hv
        rw [← hr]
        exact ⟨rfl, rfl⟩

theorem goes_stream {α : Type} {d : Json.Decoder α} {r : Except Failure (List α × Option Failure)}
    (h : Goes (c.stream method reference params payload headers d) xs r) :
    ∃ reply, xs = [callTo method reference params payload headers reply] ∧
      r = (responseOf reply).map (recordsOf d) := by
  rcases goes_bind_iff.1 h with ⟨e, he, rfl⟩ | ⟨ys, a, zs, hy, hz, rfl⟩
  · obtain ⟨reply, rfl, hr⟩ := goes_send he
    exact ⟨reply, rfl, by rw [← hr]; rfl⟩
  · obtain ⟨reply, rfl, hr⟩ := goes_send hy
    obtain ⟨rfl, rfl⟩ := goes_pure_iff.1 hz
    exact ⟨reply, rfl, by rw [← hr]; rfl⟩

theorem goes_get {α : Type} {d : Json.Decoder α} {r : Except Failure α}
    (h : Goes (c.get method reference params payload d) xs r) :
    ∃ reply, xs = [callTo method reference params payload [] reply] := by
  rcases goes_bind_iff.1 h with ⟨e, he, rfl⟩ | ⟨ys, a, zs, hy, hz, rfl⟩
  · obtain ⟨reply, rfl, -⟩ := goes_send he
    exact ⟨reply, rfl⟩
  · obtain ⟨reply, rfl, -⟩ := goes_send hy
    have hquiet : zs = [] := by
      rcases goes_bind_iff.1 hz with ⟨e, he, -⟩ | ⟨us, body, vs, hu, hv, rfl⟩
      · exact (goes_attemptOf_iff.1 he).1
      · rw [(goes_attemptOf_iff.1 hu).1, (goes_attemptOf_iff.1 hv).1]
        rfl
    exact ⟨reply, by rw [hquiet, List.append_nil]⟩

end Client
end Docker

namespace Podman
namespace Client

open Session (Goes goes_bind_iff goes_exchange_iff goes_ofOutcome_iff goes_pure_iff goes_throw_iff)

variable (c : Client) (method : Http.Method) (path : String) (payload : Http.Payload)
  (headers : List (String × String)) {xs : List Http.Call}

def callTo (reply : Http.Reply) : Http.Call :=
  ⟨⟨method, c.pathFor path, headers, payload⟩, reply⟩

def responseOf : Http.Reply → Outcome Http.Response
  | .unreachable fault => .error (.connection name c.socket fault.text)
  | .silent => .error (.timeout (method.name ++ " " ++ c.pathFor path) c.timeout)
  | .dropped reason => .error (backendError ("request failed: " ++ reason))
  | .response r => .ok r

def streamOf (r : Http.Response) : Outcome Http.Response :=
  if r.isSuccess then .ok r else readBody r >>= fun body => .error (apiError r.status body)

theorem bodyOf_eq (reply : Http.Reply) :
    c.bodyOf method path reply = c.responseOf method path reply >>= successBody := by
  cases reply <;> rfl

variable {c method path payload headers}

theorem successBody_eq_ok_iff {r : Http.Response} {body : Bytes} :
    successBody r = .ok body ↔ r.isSuccess = true ∧ r.body = .ok body := by
  unfold successBody readBody
  cases hb : r.body with
  | error reason =>
    refine ⟨nofun, fun h => ?_⟩
    cases h.2
  | ok whole =>
    change (if r.isSuccess then (.ok whole : Outcome Bytes)
      else .error (apiError r.status whole)) = _ ↔ _
    by_cases success : r.isSuccess <;> simp [success]

theorem bodyOf_eq_ok_iff {reply : Http.Reply} {body : Bytes} :
    c.bodyOf method path reply = .ok body ↔
      ∃ r, reply = .response r ∧ r.isSuccess = true ∧ r.body = .ok body := by
  cases reply with
  | unreachable fault | silent | dropped reason =>
    refine ⟨nofun, ?_⟩
    rintro ⟨r, hr, -⟩
    cases hr
  | response r =>
    change successBody r = .ok body ↔ _
    rw [successBody_eq_ok_iff]
    simp

/-- A path whose target is longer than what can be sent. -/
def TooLong (c : Client) (path : String) : Prop :=
  Http.maxTarget < (c.pathFor path).utf8ByteSize

/-- A request is one call, unless its target is too long to be sent. -/
theorem goes_send {r : Outcome Http.Response} (h : Goes (c.send method path payload headers) xs r) :
    (c.TooLong path ∧ xs = [] ∧ ∃ reason, r = .error (.internal reason)) ∨
      ¬c.TooLong path ∧ ∃ reply, xs = [c.callTo method path payload headers reply] ∧
        r = c.responseOf method path reply := by
  unfold send sendTo at h
  by_cases long : Http.maxTarget < (c.pathFor path).utf8ByteSize
  · rw [if_pos long] at h
    obtain ⟨rfl, rfl⟩ := goes_throw_iff.1 h
    exact .inl ⟨long, rfl, _, rfl⟩
  · rw [if_neg long] at h
    rcases goes_bind_iff.1 h with ⟨e, he, rfl⟩ | ⟨ys, reply, zs, hy, hz, rfl⟩
    · obtain ⟨reply, -, hr⟩ := goes_exchange_iff.1 he
      cases hr
    · obtain ⟨reply, rfl, hr⟩ := goes_exchange_iff.1 hy
      cases hr
      refine .inr ⟨long, reply, ?_⟩
      cases reply with
      | response r' =>
        obtain ⟨rfl, rfl⟩ := goes_pure_iff.1 hz
        exact ⟨rfl, rfl⟩
      | unreachable fault | silent | dropped reason =>
        obtain ⟨rfl, rfl⟩ := goes_throw_iff.1 hz
        exact ⟨rfl, rfl⟩

theorem goes_send_bind {α : Type} {f : Http.Response → Session α} {g : Http.Response → Outcome α}
    {r : Outcome α} (hf : ∀ a ys x, Goes (f a) ys x → ys = [] ∧ x = g a)
    (h : Goes (c.send method path payload headers >>= f) xs r) :
    (c.TooLong path ∧ xs = [] ∧ ∃ reason, r = .error (.internal reason)) ∨
      ¬c.TooLong path ∧ ∃ reply, xs = [c.callTo method path payload headers reply] ∧
        r = c.responseOf method path reply >>= g := by
  rcases goes_bind_iff.1 h with ⟨e, he, rfl⟩ | ⟨ys, a, zs, ha, hz, rfl⟩
  · rcases goes_send he with ⟨long, rfl, reason, hr⟩ | ⟨short, reply, rfl, hr⟩
    · cases hr
      exact .inl ⟨long, rfl, reason, rfl⟩
    · exact .inr ⟨short, reply, rfl, by rw [← hr]; rfl⟩
  · obtain ⟨rfl, rfl⟩ := hf a zs r hz
    rcases goes_send ha with ⟨-, -, reason, hr⟩ | ⟨short, reply, rfl, hr⟩
    · cases hr
    · exact .inr ⟨short, reply, rfl, by rw [← hr]; rfl⟩

theorem goes_request {r : Outcome Bytes} (h : Goes (c.request method path payload headers) xs r) :
    (c.TooLong path ∧ xs = [] ∧ ∃ reason, r = .error (.internal reason)) ∨
      ¬c.TooLong path ∧ ∃ reply, xs = [c.callTo method path payload headers reply] ∧
        r = c.bodyOf method path reply := by
  simp only [bodyOf_eq]
  exact goes_send_bind (fun a ys x hx => goes_ofOutcome_iff.1 hx) h

theorem goes_requestStream {r : Outcome Http.Response}
    (h : Goes (c.requestStream method path payload) xs r) :
    (c.TooLong path ∧ xs = [] ∧ ∃ reason, r = .error (.internal reason)) ∨
      ¬c.TooLong path ∧ ∃ reply, xs = [c.callTo method path payload [] reply] ∧
        r = c.responseOf method path reply >>= streamOf := by
  refine goes_send_bind (fun a ys x hx => ?_) h
  unfold streamOf
  by_cases success : a.isSuccess
  · rw [if_pos success] at hx ⊢
    exact goes_pure_iff.1 hx
  · rw [if_neg success] at hx ⊢
    rcases goes_bind_iff.1 hx with ⟨e, he, rfl⟩ | ⟨ys', body, zs, hy, hz, rfl⟩
    · obtain ⟨rfl, hr⟩ := goes_ofOutcome_iff.1 he
      rw [← hr]
      exact ⟨rfl, rfl⟩
    · obtain ⟨rfl, hr⟩ := goes_ofOutcome_iff.1 hy
      obtain ⟨rfl, rfl⟩ := goes_throw_iff.1 hz
      rw [← hr]
      exact ⟨rfl, rfl⟩

end Client
end Podman
end ContainerBuild
