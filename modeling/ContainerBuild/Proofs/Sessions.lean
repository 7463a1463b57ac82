import ContainerBuild.Docker.Client
import ContainerBuild.Podman.Client
import ContainerBuild.Proofs.Traversal

/-!
# What sessions come to

The result of a session against any surroundings, part by part. A request that must succeed comes to what
its reply is good for: a body, the news that what was asked for is absent, or nothing.
-/

namespace ContainerBuild

namespace Dialogue

variable {Q : Type} {A : Q → Type} {ε ε' σ α β : Type} (answer : (q : Q) → σ → A q × σ) (s : σ)

/-- The result of work that may fail, and the surroundings after it. -/
def result (m : ExceptT ε (Dialogue Q A) α) (s : σ) : Except ε α × σ :=
  m.run.run answer s

theorem result_pure (a : α) : result answer (pure a : ExceptT ε (Dialogue Q A) α) s = (.ok a, s) := rfl

theorem result_bind (m : ExceptT ε (Dialogue Q A) α) (f : α → ExceptT ε (Dialogue Q A) β) :
    result answer (m >>= f) s = match result answer m s with
      | (.ok a, s') => result answer (f a) s'
      | (.error e, s') => (.error e, s') := by
  have run : (m >>= f).run = m.run >>= ExceptT.bindCont f := rfl
  unfold result
  rw [run, run_bind]
  rcases m.run.run answer s with ⟨_ | a, s'⟩ <;> rfl

theorem result_question (q : Q) :
    result answer (ExceptT.lift (question q) : ExceptT ε (Dialogue Q A) (A q)) s =
      (.ok (answer q s).1, (answer q s).2) := rfl

theorem result_lift_run (m : ExceptT ε' (Dialogue Q A) α) :
    result answer (ExceptT.lift m.run : ExceptT ε (Dialogue Q A) (Except ε' α)) s =
      (.ok (result answer m s).1, (result answer m s).2) := by
  have run : (ExceptT.lift m.run : ExceptT ε (Dialogue Q A) (Except ε' α)).run =
      m.run >>= fun r => done (.ok r) := rfl
  rw [result, run, run_bind]
  rfl

end Dialogue

open Dialogue (result)

variable {σ : Type} (answer : (q : Inquiry) → σ → q.Answer × σ) (s : σ)

namespace Session

variable {α : Type}

theorem result_exchange (socket : String) (limit : Duration) (request : Http.Request) :
    result answer (exchange socket limit request) s =
      (.ok (answer (.exchange socket limit request) s).1,
        (answer (.exchange socket limit request) s).2) := rfl

theorem result_ofOutcome (r : Outcome α) : result answer (ofOutcome r) s = (r, s) := by
  cases r <;> rfl

theorem result_attempt (m : Session α) :
    result answer (attempt m) s = (.ok (result answer m s).1, (result answer m s).2) :=
  Dialogue.result_lift_run answer s m

theorem result_mapError (f : BuildError → BuildError) (m : Session α) :
    result answer (mapError f m) s =
      ((result answer m s).1.mapError f, (result answer m s).2) := by
  have run : (mapError f m).run = m.run >>= fun r => .done (r.mapError f) := rfl
  rw [result, run, Dialogue.run_bind]
  rfl

end Session

theorem Docker.result_settle {α : Type} (f : Docker.Failure → BuildError) (a : Docker.Attempt α) :
    result answer (Docker.settle f a) s =
      ((result answer a s).1.mapError f, (result answer a s).2) := by
  have run : (Docker.settle f a).run = a.run >>= fun r => .done (r.mapError f) := rfl
  rw [result, run, Dialogue.run_bind]
  rfl

theorem Docker.result_attemptOf {α : Type} (r : Except Docker.Failure α) :
    result answer (Docker.attemptOf r) s = (r, s) := by
  cases r <;> rfl

/-! ### What replies are good for -/

namespace Http

/-- What a reply to a request is good for. -/
inductive Verdict
  | given (body : Bytes)
  | absent
  | failed
  deriving DecidableEq, Repr

/-- A result of a request that fits the verdict on the reply, where some errors say that something is
absent. -/
inductive Verdict.Gives {ε : Type} (saysAbsent : ε → Bool) : Verdict → Except ε Bytes → Prop
  | given (body : Bytes) : Gives saysAbsent (given body) (.ok body)
  | absent {e : ε} (h : saysAbsent e = true) : Gives saysAbsent absent (.error e)
  | failed {e : ε} (h : saysAbsent e = false) : Gives saysAbsent failed (.error e)

/-- A result of a request for a record that fits the verdict on the reply. -/
inductive Verdict.Reads {ε α : Type} (saysAbsent : ε → Bool) (d : Json.Decoder α) :
    Verdict → Except ε α → Prop
  | given {body : Bytes} {a : α} (h : Json.read d body = .ok a) :
    Reads saysAbsent d (given body) (.ok a)
  | unreadable {body : Bytes} {fault : Json.Fault} {e : ε} (h : Json.read d body = .error fault)
    (he : saysAbsent e = false) : Reads saysAbsent d (given body) (.error e)
  | absent {e : ε} (h : saysAbsent e = true) : Reads saysAbsent d absent (.error e)
  | failed {e : ε} (h : saysAbsent e = false) : Reads saysAbsent d failed (.error e)

theorem Verdict.Reads.eq_ok {ε α : Type} {saysAbsent : ε → Bool} {d : Json.Decoder α} {body : Bytes}
    {x : Except ε α} {a : α} (h : (Verdict.given body).Reads saysAbsent d x)
    (read : Json.read d body = .ok a) : x = .ok a := by
  cases h with
  | given h => exact congrArg Except.ok (Except.ok.inj (h.symm.trans read))
  | unreadable h => cases h.symm.trans read

theorem Verdict.Gives.reads {ε α : Type} {saysAbsent : ε → Bool} {v : Verdict} {x : Except ε Bytes}
    (h : v.Gives saysAbsent x) (d : Json.Decoder α) {report : Json.Fault → Bytes → ε}
    (never : ∀ fault body, saysAbsent (report fault body) = false) :
    v.Reads saysAbsent d (x >>= fun body => (Json.read d body).mapError fun f => report f body) := by
  cases h with
  | given body =>
    change Reads saysAbsent d _ ((Json.read d body).mapError fun f => report f body)
    cases hd : Json.read d body with
    | ok a => exact .given hd
    | error fault => exact .unreadable hd (never fault body)
  | absent h => exact .absent h
  | failed h => exact .failed h

end Http

namespace Podman

/-- A reply counts if its body can be read: its status then says which way. -/
def verdict : Http.Reply → Http.Verdict
  | .response r =>
    match r.body with
    | .error _ => .failed
    | .ok body =>
      if r.isSuccess then .given body
      else if r.status = 404 then .absent
      else .failed
  | _ => .failed

theorem gives_successBody (r : Http.Response) :
    (verdict (.response r)).Gives BuildError.isNotFound (Client.successBody r) := by
  unfold Client.successBody Client.readBody
  cases hb : r.body with
  | error reason =>
    simp only [verdict, hb]
    exact .failed (e := backendError _) rfl
  | ok body =>
    simp only [verdict, hb, bind, Except.bind]
    by_cases success : r.isSuccess
    · rw [if_pos success, if_pos success]
      exact .given body
    · rw [if_neg success, if_neg success]
      by_cases absent : r.status = 404
      · rw [if_pos absent]
        exact .absent (by simp [apiError, BuildError.isNotFound, absent])
      · rw [if_neg absent]
        exact .failed (by simp [apiError, BuildError.isNotFound, absent])

def Client.bodyOf (c : Client) (method : Http.Method) (path : String) : Http.Reply → Outcome Bytes
  | .unreachable fault => .error (.connection name c.socket fault.text)
  | .silent => .error (.timeout (method.name ++ " " ++ c.pathFor path) c.timeout)
  | .dropped reason => .error (backendError ("request failed: " ++ reason))
  | .response r => Client.successBody r

theorem gives_bodyOf (c : Client) (method : Http.Method) (path : String) (reply : Http.Reply) :
    (verdict reply).Gives BuildError.isNotFound (c.bodyOf method path reply) := by
  cases reply with
  | unreachable fault => exact .failed rfl
  | silent => exact .failed rfl
  | dropped reason => exact .failed rfl
  | response r => exact gives_successBody r

variable (c : Client) (method : Http.Method) (path : String) (payload : Http.Payload)
  (headers : List (String × String))

/-- A request whose target is too long is not sent. -/
theorem result_request_of_long (long : Http.maxTarget < (c.pathFor path).utf8ByteSize) :
    result answer (c.request method path payload headers) s =
      (.error (.internal "failed to build request: the target is too long"), s) := by
  unfold Client.request Client.send Client.sendTo
  rw [if_pos long]
  rfl

theorem result_request (short : ¬Http.maxTarget < (c.pathFor path).utf8ByteSize) :
    result answer (c.request method path payload headers) s =
      (c.bodyOf method path
          (answer (.exchange c.socket c.timeout ⟨method, c.pathFor path, headers, payload⟩) s).1,
        (answer (.exchange c.socket c.timeout ⟨method, c.pathFor path, headers, payload⟩) s).2) := by
  unfold Client.request Client.send Client.sendTo
  simp only [if_neg short]
  rw [Dialogue.result_bind, Dialogue.result_bind, Session.result_exchange]
  simp only
  generalize answer (.exchange c.socket c.timeout
    ⟨method, c.pathFor path, headers, payload⟩) s = answered
  obtain ⟨reply, s'⟩ := answered
  cases (reply : Http.Reply) with
  | response r =>
    simp only [Dialogue.result_pure, Session.result_ofOutcome]
    rfl
  | _ => rfl

/-- What a request for some path is good for, which is nothing if it is not sent. -/
def Client.verdictOn (c : Client) (path : String) (reply : Http.Reply) : Http.Verdict :=
  if Http.maxTarget < (c.pathFor path).utf8ByteSize then .failed else verdict reply

/-- A request comes to what its reply is good for. -/
theorem gives_request :
    (c.verdictOn path (answer (.exchange c.socket c.timeout
        ⟨method, c.pathFor path, headers, payload⟩) s).1).Gives BuildError.isNotFound
      (result answer (c.request method path payload headers) s).1 := by
  unfold Client.verdictOn
  by_cases long : Http.maxTarget < (c.pathFor path).utf8ByteSize
  · rw [if_pos long, result_request_of_long answer s c method path payload headers long]
    exact .failed (e := BuildError.internal _) rfl
  · rw [if_neg long, result_request answer s c method path payload headers long]
    exact gives_bodyOf c method path _

theorem reads_getJson {α : Type} (d : Json.Decoder α) :
    (c.verdictOn path (answer (.exchange c.socket c.timeout
        ⟨.get, c.pathFor path, [], .empty⟩) s).1).Reads BuildError.isNotFound d
      (result answer (c.getJson path d) s).1 := by
  have reads := (gives_request answer s c .get path .empty []).reads d
    (fun fault _ => show (BuildError.serialization fault.text).isNotFound = false from rfl)
  rw [Client.getJson, Dialogue.result_bind]
  rcases hr : result answer (c.request .get path .empty []) s with ⟨_ | body, s'⟩
  · rwa [hr] at reads
  · rw [hr] at reads
    simp only [Session.result_ofOutcome]
    exact reads

end Podman

namespace Docker

/-- An error text that begins a record and breaks off. -/
def breaksOff (body : Bytes) : Bool :=
  match Json.read messageField.decode (Utf8.encode (Utf8.decodeLossy body)) with
  | .error (.broken b) => b.isEnd && !body.isEmpty
  | _ => false

/-- A reply counts if its body can be read: its status then says which way, but for an error text that
breaks off. -/
def verdict : Http.Reply → Http.Verdict
  | .response r =>
    match r.body with
    | .error _ => .failed
    | .ok body =>
      if isAccepted r then .given body
      else if r.status = 404 ∧ breaksOff body = false then .absent
      else .failed
  | _ => .failed

theorem isNotFound_replyFailure (status : Nat) (body : Bytes) :
    (replyFailure status body).isNotFound = (status == 404 && !breaksOff body) := by
  unfold replyFailure breaksOff
  simp only
  cases Json.read messageField.decode (Utf8.encode (Utf8.decodeLossy body)) with
  | ok message => simp [Failure.isNotFound]
  | error fault =>
    cases fault with
    | broken b =>
      by_cases cut : (b.isEnd && !body.isEmpty) = true
      · simp [cut, Failure.isNotFound]
      · simp [cut, Failure.isNotFound]
    | _ => simp [Failure.isNotFound]

def bodyOf : Http.Reply → Except Failure Bytes
  | .unreachable _ => .error (.exchange "Error in the hyper legacy client: client error (Connect)")
  | .silent => .error (.exchange "Timeout error")
  | .dropped _ => .error (.exchange "Error in the hyper legacy client: client error (SendRequest)")
  | .response r =>
    match readBody r with
    | .error f => .error f
    | .ok body => if isAccepted r then .ok body else .error (replyFailure r.status body)

theorem gives_bodyOf (reply : Http.Reply) :
    (verdict reply).Gives Failure.isNotFound (bodyOf reply) := by
  cases reply with
  | unreachable fault => exact .failed rfl
  | silent => exact .failed rfl
  | dropped reason => exact .failed rfl
  | response r =>
    cases hb : r.body with
    | error reason =>
      simp only [verdict, bodyOf, readBody, hb]
      exact .failed (e := Failure.exchange _) rfl
    | ok body =>
      simp only [verdict, bodyOf, readBody, hb, mapError_ok]
      by_cases accepted : isAccepted r
      · rw [if_pos accepted, if_pos accepted]
        exact .given body
      · rw [if_neg accepted, if_neg accepted]
        have missing := isNotFound_replyFailure r.status body
        by_cases absent : r.status = 404 ∧ breaksOff body = false
        · rw [if_pos absent]
          exact .absent (by rw [missing]; simp [absent])
        · rw [if_neg absent]
          exact .failed (by simpa [missing] using absent)

variable (c : Client) (method : Http.Method) (reference : String) (params : List (String × String))
  (payload : Http.Payload) (headers : List (String × String))

theorem result_send_body :
    result answer (c.send method reference params payload headers >>= fun r =>
        attemptOf (readBody r)) s =
      (bodyOf (answer (.exchange c.socket c.timeout
          ⟨method, Http.Target.make reference params, headers, payload⟩) s).1,
        (answer (.exchange c.socket c.timeout
          ⟨method, Http.Target.make reference params, headers, payload⟩) s).2) := by
  unfold Client.send
  rw [Dialogue.result_bind, Dialogue.result_bind, Dialogue.result_question]
  simp only
  generalize answer (.exchange c.socket c.timeout
    ⟨method, Http.Target.make reference params, headers, payload⟩) s = answered
  obtain ⟨reply, s'⟩ := answered
  cases (reply : Http.Reply) with
  | response r =>
    by_cases accepted : isAccepted r
    · simp only [if_pos accepted, Dialogue.result_pure, result_attemptOf, bodyOf]
      cases readBody r <;> rfl
    · simp only [if_neg accepted, bodyOf]
      rw [Dialogue.result_bind, result_attemptOf]
      cases readBody r <;> rfl
  | _ => rfl

theorem result_bytes : result answer (c.bytes method reference params) s =
    (bodyOf (answer (.exchange c.socket c.timeout
        ⟨method, Http.Target.make reference params, [], .empty⟩) s).1,
      (answer (.exchange c.socket c.timeout
        ⟨method, Http.Target.make reference params, [], .empty⟩) s).2) :=
  result_send_body answer s c method reference params .empty []

theorem reads_get {α : Type} (d : Json.Decoder α) :
    (verdict (answer (.exchange c.socket c.timeout
        ⟨method, Http.Target.make reference params, [], payload⟩) s).1).Reads Failure.isNotFound d
      (result answer (c.get method reference params payload d) s).1 := by
  have parts : c.get method reference params payload d =
      (c.send method reference params payload [] >>= fun r => attemptOf (readBody r)) >>= fun body =>
        attemptOf ((Json.read d body).mapError fun fault => .unreadable fault body) := by
    rw [bind_assoc]
    rfl
  rw [parts, Dialogue.result_bind, result_send_body]
  generalize answer (.exchange c.socket c.timeout
    ⟨method, Http.Target.make reference params, [], payload⟩) s = answered
  have reads := (gives_bodyOf answered.1).reads d
    (fun fault body => show (Failure.unreadable fault body).isNotFound = false from rfl)
  rcases hr : bodyOf answered.1 with _ | body
  · rwa [hr] at reads
  · rw [hr] at reads
    simp only [result_attemptOf]
    exact reads

end Docker
end ContainerBuild
