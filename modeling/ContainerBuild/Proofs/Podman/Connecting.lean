import ContainerBuild.Podman.Manager
import ContainerBuild.Proofs.Podman.Targets
import ContainerBuild.Proofs.Podman.Versions
import ContainerBuild.Proofs.Sessions.Questions

/-!
# What connecting comes to

A socket that is configured is used as it is, and otherwise the tool is asked for one. The daemon is asked
for its version, and then whether it is there, under the paths of that version. A daemon that cannot be
reached ends the work; one that tells no version has that of the tool, or else a recent one. All that the
manager asks for later has the paths of that same version.
-/

namespace ContainerBuild
namespace Podman

open Dialogue (Runs asked result)
open Session (calls)

/-! ### Paths -/

/-- What the paths of a major version begin with. -/
def pathsOf (major : Nat) : String :=
  if major < 4 then "/v3.0.0/libpod" else "/v4.0.0/libpod"

/-- A target below a beginning of paths. -/
def Below (start target : String) : Prop :=
  ∃ rest, target = start ++ "/" ++ rest

/-- All that a manager asks for is below the paths of a major version. -/
def ServedAs (c : Client) (major : Nat) : Prop :=
  ∀ (α : Type) (o : Operation α) (σ : Type) (answer : (q : Inquiry) → σ → q.Answer × σ) (s : σ),
    ∀ x ∈ calls answer (o.session c.manager) s,
      (Below "/v3.0.0/libpod" x.request.target ↔ major < 4) ∧
        (Below "/v4.0.0/libpod" x.request.target ↔ ¬major < 4)

variable {c : Client} {major : Nat}

theorem pathFor_eq (h : c.api = ApiVersion.ofMajor major) (path : String) :
    c.pathFor path = pathsOf major ++ path := by
  unfold Client.pathFor pathsOf
  rw [h]
  by_cases old : major < 4
  · rw [ApiVersion.ofMajor_eq_legacy_iff.2 old, if_pos old]
    rfl
  · have hcurrent : ApiVersion.ofMajor major = .current := if_pos (Nat.not_lt.1 old)
    rw [hcurrent, if_neg old]
    rfl

theorem below_pathsOf_iff (rest : String) :
    (Below "/v3.0.0/libpod" (pathsOf major ++ "/" ++ rest) ↔ major < 4) ∧
      (Below "/v4.0.0/libpod" (pathsOf major ++ "/" ++ rest) ↔ ¬major < 4) := by
  have different (rest rest' : String) :
      "/v3.0.0/libpod" ++ "/" ++ rest ≠ "/v4.0.0/libpod" ++ "/" ++ rest' := by
    intro same
    have hchars := congrArg String.toList same
    simp at hchars
  unfold pathsOf
  by_cases old : major < 4
  · rw [if_pos old]
    refine ⟨iff_of_true ⟨rest, rfl⟩ old, iff_of_false ?_ (not_not.2 old)⟩
    rintro ⟨rest', same⟩
    exact different rest rest' same
  · rw [if_neg old]
    refine ⟨iff_of_false ?_ old, iff_of_true ⟨rest, rfl⟩ old⟩
    rintro ⟨rest', same⟩
    exact different rest' rest same.symm

theorem Endpoint.exists_path (e : Endpoint) : ∃ rest, e.path = "/" ++ rest := by
  obtain ⟨segment, segments, hs⟩ := List.exists_cons_of_ne_nil e.segments_ne_nil
  refine ⟨Text.join "/" ((segment :: segments).map Percent.encode) ++ Percent.query e.params, ?_⟩
  rw [Endpoint.path, hs, List.map_cons, Text.join_cons_cons, String.empty_append,
    String.append_assoc]

theorem servedAs (h : c.api = ApiVersion.ofMajor major) : ServedAs c major := by
  intro α o σ answer s x hx
  obtain ⟨given, hcalls⟩ := asks_of_mem_calls (c := c) answer s o
  obtain ⟨step, -, -, htarget⟩ := hcalls x hx
  obtain ⟨rest, hrest⟩ := step.endpoint.exists_path
  rw [htarget, hrest, pathFor_eq h, ← String.append_assoc]
  exact below_pathsOf_iff rest

/-! ### Versions -/

/-- A reply of success with a body that can be read. -/
def Answers (reply : Http.Reply) (body : Bytes) : Prop :=
  ∃ r, reply = .response r ∧ r.isSuccess = true ∧ r.body = .ok body

/-- A reply of success that tells a major version. -/
def Tells (reply : Http.Reply) (major : Nat) : Prop :=
  ∃ body, Answers reply body ∧ TellsMajor ["Version"] body major

/-- The major version that counts: that of the daemon, else that of the tool, else 4. -/
inductive EffectiveMajor (reply : Http.Reply) : Option Nat → Nat → Prop
  | daemon {discovered : Option Nat} {major : Nat} (h : Tells reply major) :
      EffectiveMajor reply discovered major
  | tool {major : Nat} (h : ¬∃ m, Tells reply m) : EffectiveMajor reply (some major) major
  | recent (h : ¬∃ m, Tells reply m) : EffectiveMajor reply none 4

/-- No connection to the daemon could be made. -/
def Unreachable (reply : Http.Reply) : Prop :=
  ∃ fault, reply = .unreachable fault

variable {discovered : Option Nat} {reply : Http.Reply} {body : Bytes}

theorem exists_effectiveMajor (reply : Http.Reply) (discovered : Option Nat) :
    ∃ major, EffectiveMajor reply discovered major := by
  by_cases tells : ∃ major, Tells reply major
  · obtain ⟨major, h⟩ := tells
    exact ⟨major, .daemon h⟩
  · cases discovered with
    | none => exact ⟨4, .recent tells⟩
    | some major => exact ⟨major, .tool tells⟩

namespace Client

def majorOf (c : Client) (reply : Http.Reply) : Outcome Nat :=
  c.responseTo .get "/version" reply >>= fun r => successBody r >>= readServerMajor

theorem responseTo_eq_ok_iff {method : Http.Method} {target : String} {r : Http.Response} :
    c.responseTo method target reply = .ok r ↔ reply = .response r := by
  cases reply <;> simp [responseTo]

theorem majorOf_eq_ok_iff : c.majorOf reply = .ok major ↔ Tells reply major := by
  simp only [majorOf, bind_eq_ok_iff, responseTo_eq_ok_iff, successBody_eq_ok_iff,
    readServerMajor_eq_ok_iff]
  constructor
  · rintro ⟨r, hr, body, ⟨success, hbody⟩, tells⟩
    exact ⟨body, ⟨r, hr, success, hbody⟩, tells⟩
  · rintro ⟨body, ⟨r, hr, success, hbody⟩, tells⟩
    exact ⟨r, hr, body, ⟨success, hbody⟩, tells⟩

theorem successBody_ne_connection (r : Http.Response) (backend endpoint reason : String) :
    successBody r ≠ .error (.connection backend endpoint reason) := by
  have hread : readBody r ≠ .error (.connection backend endpoint reason) := by
    unfold readBody backendError
    split <;> simp
  refine bind_ne_error hread fun body => ?_
  split <;> nofun

theorem readServerMajor_ne_connection (body : Bytes) (backend endpoint reason : String) :
    readServerMajor body ≠ .error (.connection backend endpoint reason) := by
  unfold readServerMajor
  split
  · nofun
  · split <;> nofun

/-- Only where no connection can be made is this the error. -/
theorem majorOf_ne_connection (reached : ¬Unreachable reply) (backend endpoint reason : String) :
    c.majorOf reply ≠ .error (.connection backend endpoint reason) := by
  cases reply with
  | unreachable fault => exact absurd ⟨fault, rfl⟩ reached
  | silent | dropped why => nofun
  | response r =>
    exact bind_ne_error nofun fun r =>
      bind_ne_error (successBody_ne_connection r backend endpoint reason) fun body =>
        readServerMajor_ne_connection body backend endpoint reason

end Client

/-- The major version that is gone on with. Only an error of the connection ends the work. -/
def settleMajor (discovered : Option Nat) : Outcome Nat → Outcome Nat
  | .ok major => .ok major
  | .error (.connection backend endpoint reason) => .error (.connection backend endpoint reason)
  | .error _ => .ok (discovered.getD ApiVersion.firstCurrent)

theorem settleMajor_of_silent (reached : ¬Unreachable reply) (silent : ¬∃ m, Tells reply m)
    (discovered : Option Nat) :
    settleMajor discovered (c.majorOf reply) = .ok (discovered.getD ApiVersion.firstCurrent) := by
  cases hmajor : c.majorOf reply with
  | ok m => exact absurd ⟨m, Client.majorOf_eq_ok_iff.1 hmajor⟩ silent
  | error e =>
    cases e with
    | connection backend endpoint reason =>
      exact absurd hmajor (Client.majorOf_ne_connection reached backend endpoint reason)
    | _ => rfl

theorem settleMajor_eq_ok (reached : ¬Unreachable reply)
    (effective : EffectiveMajor reply discovered major) :
    settleMajor discovered (c.majorOf reply) = .ok major := by
  cases effective with
  | daemon tells => rw [Client.majorOf_eq_ok_iff.2 tells, settleMajor]
  | tool silent => exact settleMajor_of_silent reached silent (some major)
  | recent silent => exact settleMajor_of_silent reached silent none

/-! ### Runs -/

abbrev versionRequest (config : EngineConfig) (socket : String) : Inquiry :=
  .exchange socket config.requestTimeout ⟨.get, "/version", [], .empty⟩

abbrev pingRequest (config : EngineConfig) (socket : String) (major : Nat) : Inquiry :=
  .exchange socket config.requestTimeout ⟨.get, pathsOf major ++ "/_ping", [], .empty⟩

def managerOf (config : EngineConfig) (socket : String) (major : Nat) : Client :=
  (Client.new socket config.requestTimeout).withMajor major

section

variable {σ : Type} {answer : (q : Inquiry) → σ → q.Answer × σ} {config : EngineConfig}
  {socket : String} {s s' : σ}

theorem runs_serverMajor (hq : answer (versionRequest config socket) s = (reply, s')) :
    Runs answer (Client.new socket config.requestTimeout).serverMajor s
      [versionRequest config socket] ((Client.new socket config.requestTimeout).majorOf reply) s' := by
  have short : ¬Http.maxTarget < "/version".utf8ByteSize := by decide
  have run := (Client.new socket config.requestTimeout).runs_sendTo .get .empty [] short hq
  unfold Client.serverMajor Client.majorOf
  cases hr : (Client.new socket config.requestTimeout).responseTo .get "/version" reply with
  | error e =>
    rw [hr] at run
    exact run.bind_error
  | ok r =>
    rw [hr] at run
    exact run.bind (Session.runs_bind_ofOutcome (Session.runs_ofOutcome _))

theorem runs_chooseMajor (discovered : Option Nat)
    (hq : answer (versionRequest config socket) s = (reply, s')) :
    Runs answer (chooseMajor (.new socket config.requestTimeout) discovered) s
      [versionRequest config socket]
      (settleMajor discovered ((Client.new socket config.requestTimeout).majorOf reply)) s' := by
  apply Session.runs_attempt_bind (runs_serverMajor hq)
  cases (Client.new socket config.requestTimeout).majorOf reply with
  | ok m => exact .pure m
  | error e =>
    cases e with
    | connection backend endpoint reason => exact .throw _
    | _ => exact .pure _

theorem exists_run_ping (answer : (q : Inquiry) → σ → q.Answer × σ) (config : EngineConfig)
    (socket : String) (major : Nat) (s : σ) :
    ∃ pinged s', Runs answer (managerOf config socket major).ping s
      [pingRequest config socket major] pinged s' ∧
      (pinged = .ok () ↔ ∃ body, Answers (answer (pingRequest config socket major) s).1 body) := by
  have htarget : (managerOf config socket major).pathFor "/_ping" = pathsOf major ++ "/_ping" :=
    pathFor_eq rfl "/_ping"
  have short : ¬Http.maxTarget < ((managerOf config socket major).pathFor "/_ping").utf8ByteSize := by
    unfold Client.pathFor
    cases (managerOf config socket major).api <;> decide
  unfold pingRequest
  rw [← htarget]
  have run := @Client.runs_request σ answer s _ (managerOf config socket major) .get .empty [] "/_ping" _
    short (Prod.ext rfl rfl)
  refine ⟨_, _, Session.runs_mapError _ (run.bind_pure fun _ => ()), ?_⟩
  simp only [mapError_eq_ok_iff, map_eq_ok_iff, and_true]
  exact exists_congr fun body => Client.bodyOf_eq_ok_iff

end

/-! ### Connecting -/

section

variable {σ : Type} (answer : (q : Inquiry) → σ → q.Answer × σ) (config : EngineConfig) (s : σ)

/-- How the socket is chosen, with the major version of the tool if that is asked: the questions, what
they come to, and the surroundings after them. -/
inductive Chooses : List Inquiry → Outcome (String × Option Nat) → σ → Prop
  | configured {socket : String} (h : config.socket = some socket) :
      Chooses [] (.ok (socket, none)) s
  | discovered {qs : List Inquiry} {found : Outcome DiscoveredSocket} {s' : σ}
      (h : config.socket = none) (run : Runs answer (discover toolName) s qs found s') :
      Chooses qs (found.map fun socket => (socket.path, some socket.major)) s'

/-- What connecting asks and comes to, by how the socket is chosen and by the replies of the daemon. -/
structure Connects (qs : List Inquiry) (connected : Outcome Client) : Prop where
  lost : ∀ before e s', Chooses answer config s before (.error e) s' →
    qs = before ∧ connected = .error e
  unreachable : ∀ before socket discovered s' fault,
    Chooses answer config s before (.ok (socket, discovered)) s' →
    (answer (versionRequest config socket) s').1 = .unreachable fault →
    qs = before ++ [versionRequest config socket] ∧
      connected = .error (.connection name socket fault.text)
  reached : ∀ before socket discovered s' reply s'' major,
    Chooses answer config s before (.ok (socket, discovered)) s' →
    answer (versionRequest config socket) s' = (reply, s'') →
    ¬Unreachable reply → EffectiveMajor reply discovered major →
    qs = before ++ [versionRequest config socket, pingRequest config socket major] ∧
      ((∃ c, connected = .ok c) ↔
        ∃ body, Answers (answer (pingRequest config socket major) s'').1 body) ∧
      ∀ c, connected = .ok c → c.socket = socket ∧ ServedAs c major

variable {answer config s} {before : List Inquiry} {choice : Outcome (String × Option Nat)} {s' s'' : σ}
  {socket : String}

theorem exists_chooses (answer : (q : Inquiry) → σ → q.Answer × σ) (config : EngineConfig) (s : σ) :
    ∃ before choice s', Chooses answer config s before choice s' := by
  cases h : config.socket with
  | some socket => exact ⟨_, _, _, .configured h⟩
  | none => exact ⟨_, _, _, .discovered h ⟨rfl, rfl⟩⟩

theorem Chooses.runs (h : Chooses answer config s before choice s') :
    Runs answer (chooseSocket config) s before choice s' := by
  unfold chooseSocket
  cases h with
  | configured h =>
    rw [h]
    exact .pure _
  | discovered h run =>
    rw [h]
    exact run.bind_pure fun found => (found.path, some found.major)

theorem runs_connect_of_error {e : BuildError} (h : Chooses answer config s before (.error e) s') :
    Runs answer (connect config) s before (.error e) s' :=
  h.runs.bind_error

theorem runs_connect_of_unreachable {fault : IoFault}
    (h : Chooses answer config s before (.ok (socket, discovered)) s')
    (hq : answer (versionRequest config socket) s' = (.unreachable fault, s'')) :
    Runs answer (connect config) s (before ++ [versionRequest config socket])
      (.error (.connection name socket fault.text)) s'' :=
  h.runs.bind (runs_chooseMajor discovered hq).bind_error

theorem exists_run_connect (h : Chooses answer config s before (.ok (socket, discovered)) s')
    (hq : answer (versionRequest config socket) s' = (reply, s'')) (reached : ¬Unreachable reply)
    (effective : EffectiveMajor reply discovered major) :
    ∃ connected t, Runs answer (connect config) s
      (before ++ [versionRequest config socket, pingRequest config socket major]) connected t ∧
      ((∃ c, connected = .ok c) ↔
        ∃ body, Answers (answer (pingRequest config socket major) s'').1 body) ∧
      ∀ c, connected = .ok c → c = managerOf config socket major := by
  have choose := runs_chooseMajor discovered hq
  rw [settleMajor_eq_ok reached effective] at choose
  obtain ⟨pinged, t, ping, hpinged⟩ := exists_run_ping answer config socket major s''
  refine ⟨pinged.map fun _ => managerOf config socket major, t,
    h.runs.bind (choose.bind (ping.bind_pure fun _ => _)), ?_, ?_⟩
  · rw [← hpinged]
    simp only [map_eq_ok_iff]
    constructor
    · rintro ⟨-, ⟨⟩, ok, -⟩
      exact ok
    · intro ok
      exact ⟨_, (), ok, rfl⟩
  · intro c hc
    obtain ⟨_, -, rfl⟩ := map_eq_ok_iff.1 hc
    rfl

theorem connects (answer : (q : Inquiry) → σ → q.Answer × σ) (config : EngineConfig) (s : σ) :
    Connects answer config s (asked answer (connect config) s) (result answer (connect config) s).1 := by
  refine ⟨?lost, ?unreachable, ?reached⟩
  case lost =>
    intro before e s' chooses
    have run := runs_connect_of_error chooses
    exact ⟨run.asks, run.result_fst⟩
  case unreachable =>
    intro before socket discovered s' fault chooses hq
    have run := runs_connect_of_unreachable chooses (Prod.ext hq rfl)
    exact ⟨run.asks, run.result_fst⟩
  case reached =>
    intro before socket discovered s' reply s'' major chooses hq reached effective
    obtain ⟨connected, t, run, hok, hclient⟩ := exists_run_connect chooses hq reached effective
    rw [run.result_fst]
    refine ⟨run.asks, hok, fun c hc => ?_⟩
    obtain rfl := hclient c hc
    exact ⟨rfl, servedAs rfl⟩

/-- Connecting, for every configuration and whatever the tool and the daemon answer; the socket is chosen
in one of the two ways, and there is always a version that counts. -/
theorem connect_of_replies (config : EngineConfig) :
    (∀ (σ : Type) (answer : (q : Inquiry) → σ → q.Answer × σ) (s : σ),
      Connects answer config s (asked answer (connect config) s)
          (result answer (connect config) s).1 ∧
        ∃ before choice s', Chooses answer config s before choice s') ∧
    ∀ reply discovered, ∃ major, EffectiveMajor reply discovered major :=
  ⟨fun _ answer s => ⟨connects answer config s, exists_chooses answer config s⟩,
    exists_effectiveMajor⟩

end

end Podman
end ContainerBuild
