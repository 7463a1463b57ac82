import ContainerBuild.Docker.Manager
import ContainerBuild.Proofs.Container.Requests
import ContainerBuild.Proofs.Platform.Parts
import ContainerBuild.Proofs.Podman.Endpoints
import ContainerBuild.Proofs.Sessions.Calls

/-!
# Making containers

A container for a platform is made after its image was pulled for that platform, and not at all if the
pull fails; without a platform nothing is pulled. The declaration is looked at between the two, so a
flaw in it is found before the daemon is asked for the container. Both backends go this way, each with
requests of its own. They name the platform in two forms, of which one is the parts of the other unless
a part has a slash.
-/

namespace ContainerBuild

open Session (Goes goes_bind_iff goes_pure_iff goes_throw_iff goes_ofOutcome_iff goes_mapError_iff
  goes_freshId_iff goes_settle_iff
  goes_ofOutcome_bind_iff goes_bind_ofOutcome_iff calls)
open Dialogue (result)

/-- A declaration without a flaw. -/
structure ContainerConfig.Valid (c : ContainerConfig) : Prop where
  entries : ∀ entry ∈ c.env, Environment.IsEntry entry
  volumes : ∀ v ∈ c.volumes, MountOptions.Accepted v

namespace ContainerConfig

variable {c : ContainerConfig}

/-- A valid declaration makes both requests. -/
theorem Valid.exists_requests (h : c.Valid) (name : String) :
    (∃ body, Docker.ContainerBody.ofConfig c = .ok body) ∧
      ∃ spec, Podman.ContainerSpec.ofConfig c name = .ok spec := by
  obtain ⟨pairs, list, dictionary, -⟩ := Environment.forms_of_forall h.entries
  obtain ⟨ms, ss, hms, hss, -⟩ := Requests.exists_mounts h.volumes
  rw [Docker.ContainerBody.ofConfig, Podman.ContainerSpec.ofConfig, list, dictionary, hms, hss]
  exact ⟨⟨_, rfl⟩, _, rfl⟩

theorem exists_errors (h : ¬c.Valid) (name : String) :
    (∃ e, Docker.ContainerBody.ofConfig c = .error e) ∧
      ∃ e, Podman.ContainerSpec.ofConfig c name = .error e := by
  rw [Docker.ContainerBody.ofConfig, Podman.ContainerSpec.ofConfig]
  rcases FirstWithout.all_or_exists Environment.IsEntry c.env with entries | ⟨entry, first⟩
  swap
  · obtain ⟨list, dictionary⟩ := Environment.forms_of_firstWithout first
    rw [list, dictionary]
    exact ⟨⟨_, rfl⟩, _, rfl⟩
  obtain ⟨pairs, list, dictionary, -⟩ := Environment.forms_of_forall entries
  rw [list, dictionary]
  rcases FirstWithout.all_or_exists MountOptions.Accepted c.volumes with accepted | ⟨v, volume⟩
  · exact absurd ⟨entries, accepted⟩ h
  obtain ⟨option, first⟩ :=
    (FirstWithout.all_or_exists (MountOptions.Allowed v.kind) v.options).resolve_left volume.lacks
  obtain ⟨reason, body, spec⟩ := Requests.ofVolumes_of_firstWithout volume first
  rw [body, spec]
  exact ⟨⟨_, rfl⟩, _, rfl⟩

theorem exists_body_iff : (∃ body, Docker.ContainerBody.ofConfig c = .ok body) ↔ c.Valid := by
  refine ⟨fun ⟨body, hbody⟩ => ?_, fun h => (h.exists_requests "").1⟩
  by_contra h
  obtain ⟨e, he⟩ := (exists_errors h "").1
  cases he.symm.trans hbody

theorem exists_spec_iff (name : String) :
    (∃ spec, Podman.ContainerSpec.ofConfig c name = .ok spec) ↔ c.Valid := by
  refine ⟨fun ⟨spec, hspec⟩ => ?_, fun h => (h.exists_requests name).2⟩
  by_contra h
  obtain ⟨e, he⟩ := (exists_errors h name).2
  cases he.symm.trans hspec

end ContainerConfig

/-- How a backend makes a container: what it needs to ask for the image, how it asks for it, which
replies complete the pull, and how it asks for the container. -/
structure CreationForm where
  Ready : PlatformSpec → Prop
  Pulls : PlatformSpec → Http.Call → Prop
  Completes : Http.Reply → Prop
  Creates : Http.Call → Prop

namespace CreationForm

/-- What comes of the pull for a platform, if there is one. -/
inductive Pulling (f : CreationForm) {α : Type} :
    Option PlatformSpec → List Http.Call → Outcome α → Prop
  | needless (a : α) : Pulling f none [] (.ok a)
  | unsent {p : PlatformSpec} {e : BuildError} (h : ¬f.Ready p) : Pulling f (some p) [] (.error e)
  | failed {p : PlatformSpec} {x : Http.Call} {e : BuildError} (h : f.Ready p) (hx : f.Pulls p x)
      (hr : ¬f.Completes x.reply) : Pulling f (some p) [x] (.error e)
  | done {p : PlatformSpec} {x : Http.Call} {a : α} (h : f.Ready p) (hx : f.Pulls p x)
      (hr : f.Completes x.reply) : Pulling f (some p) [x] (.ok a)

/-- What comes of making a container. The request for it is the last call. -/
inductive Creation (f : CreationForm) (c : ContainerConfig) :
    List Http.Call → Outcome String → Prop
  | unpulled {xs : List Http.Call} {e : BuildError}
      (h : Pulling f c.targetPlatform xs (.error e : Outcome Unit)) : Creation f c xs (.error e)
  | refused {xs : List Http.Call} {e : BuildError} (h : Pulling f c.targetPlatform xs (.ok ()))
      (hc : ¬c.Valid) : Creation f c xs (.error e)
  | sent {xs : List Http.Call} {y : Http.Call} {r : Outcome String}
      (h : Pulling f c.targetPlatform xs (.ok ())) (hc : c.Valid) (hy : f.Creates y) :
      Creation f c (xs ++ [y]) r

variable {f : CreationForm} {c : ContainerConfig} {xs : List Http.Call}

/-- A pull that is asked for goes well just if its reply completes it. -/
theorem Pulling.of_reply {α : Type} {p : PlatformSpec} {x : Http.Call} {r : Outcome α} (h : f.Ready p)
    (hx : f.Pulls p x) (hr : (∃ a, r = .ok a) ↔ f.Completes x.reply) : f.Pulling (some p) [x] r := by
  cases r with
  | ok a => exact .done h hx (hr.1 ⟨a, rfl⟩)
  | error e =>
    refine .failed h hx fun hc => ?_
    obtain ⟨a, ha⟩ := hr.2 hc
    cases ha

theorem Pulling.of_bind {p : Option PlatformSpec} {m : Session String} {r : Outcome Unit}
    (hm : ∀ ys x, Goes m ys x → f.Pulling p ys x) (h : Goes (m >>= fun _ => pure ()) xs r) :
    f.Pulling p xs r := by
  rcases goes_bind_iff.1 h with ⟨e, he, rfl⟩ | ⟨ys, log, zs, hy, hz, rfl⟩
  · cases hm xs _ he with
    | unsent hp => exact .unsent hp
    | failed hp hx hr => exact .failed hp hx hr
  · obtain ⟨rfl, rfl⟩ := goes_pure_iff.1 hz
    rw [List.append_nil]
    cases hm ys _ hy with
    | needless => exact .needless ()
    | done hp hx hr => exact .done hp hx hr

theorem Pulling.of_match {platform : Option PlatformSpec} {pull : PlatformSpec → Session String}
    {r : Outcome Unit} (hm : ∀ p ys x, Goes (pull p) ys x → f.Pulling (some p) ys x)
    (h : Goes (match platform with
      | some p => pull p >>= fun _ => pure ()
      | none => pure ()) xs r) : f.Pulling platform xs r := by
  cases platform with
  | none =>
    obtain ⟨rfl, rfl⟩ := goes_pure_iff.1 h
    exact .needless ()
  | some p => exact .of_bind (hm p) h

/-- The image is pulled, the request is made up of the declaration, and then it is sent. -/
theorem creation_of_goes {α : Type} {pulled : Session Unit} (make : String → Outcome α)
    {send : String → α → Session String} {r : Outcome String}
    (hp : ∀ ys x, Goes pulled ys x → f.Pulling c.targetPlatform ys x)
    (hmake : ∀ fresh, (∃ a, make fresh = .ok a) ↔ c.Valid)
    (hs : ∀ fresh a, make fresh = .ok a → ∀ ys x, Goes (send fresh a) ys x →
      ∃ y, ys = [y] ∧ f.Creates y)
    (h : Goes (pulled >>= fun _ => Session.freshId >>= fun fresh =>
      Session.ofOutcome (make fresh) >>= fun a => send fresh a) xs r) : f.Creation c xs r := by
  rcases goes_bind_iff.1 h with ⟨e, he, rfl⟩ | ⟨ys, _, zs, hy, hz, rfl⟩
  · exact .unpulled (hp xs _ he)
  have hpulled := hp ys _ hy
  rcases goes_bind_iff.1 hz with ⟨e, he, rfl⟩ | ⟨us, fresh, vs, hu, hv, rfl⟩
  · obtain ⟨-, id, hid⟩ := goes_freshId_iff.1 he
    cases hid
  obtain ⟨rfl, -⟩ := goes_freshId_iff.1 hu
  rw [List.nil_append]
  rcases goes_ofOutcome_bind_iff.1 hv with ⟨e, he, rfl, rfl⟩ | ⟨a, ha, hv⟩
  · rw [List.append_nil]
    refine .refused hpulled fun hc => ?_
    obtain ⟨a, ha⟩ := (hmake fresh).2 hc
    cases he.symm.trans ha
  · obtain ⟨y, rfl, hcreates⟩ := hs fresh a ha vs r hv
    exact .sent hpulled ((hmake fresh).1 ⟨a, ha⟩) hcreates

end CreationForm

/-! ### Docker -/

namespace Docker

/-- There is a log if no record has an error and the stream did not end too early. -/
theorem exists_logOf_iff {text : ProgressRecord → String} {last : Option Failure}
    {records : List ProgressRecord} :
    (∃ log, logOf text last records = .ok log) ↔ last = none ∧ ∀ r ∈ records, r.error = none := by
  induction records with
  | nil => cases last <;> simp [logOf]
  | cons r records ih =>
    rw [List.forall_mem_cons]
    cases he : r.error with
    | some e => simp [logOf, he]
    | none =>
      rw [logOf, he]
      refine Iff.trans ?_ (ih.trans (by simp))
      cases logOf text last records <;> simp [Except.map]

namespace Daemon

variable (config : ContainerConfig) (registryAuth : String)

/-- A platform is one parameter of each request. The pull goes well if its reply is accepted and all of
its records can be read and have no error. -/
def creationForm : CreationForm where
  Ready _ := (∃ r, ImageReference.parse config.image = .ok r) ∧ ∃ c, credentials registryAuth = .ok c
  Pulls p x := ∃ r c, ImageReference.parse config.image = .ok r ∧ credentials registryAuth = .ok c ∧
    x.request = ⟨.post, Http.Target.make "/images/create" (pullParams r (some p)),
      (c.map fun c => authHeader (some c)).toList, .empty⟩
  Completes reply := ∃ r, reply = .response r ∧ isAccepted r = true ∧
    (Client.recordsOf ProgressRecord.pullFields.decode r).2 = none ∧
      ∀ record ∈ (Client.recordsOf ProgressRecord.pullFields.decode r).1, record.error = none
  Creates x := ∃ fresh body, ContainerBody.ofConfig config = .ok body ∧
    x.request = ⟨.post, Http.Target.make "/containers/create"
      [("name", config.nameOr fresh), ("platform", platformText config.targetPlatform)], [],
        .json body.toJson.render⟩

variable {d : Daemon} {config registryAuth} {xs : List Http.Call}

def pulled (reference : String) (reply : Http.Reply) : Outcome String :=
  ((Client.responseOf reply).map (Client.recordsOf ProgressRecord.pullFields.decode)).mapError
    (imageError reference) >>= streamLog (imageError reference) ProgressRecord.pullText

theorem exists_pulled_iff {reference : String} {reply : Http.Reply} :
    (∃ log, pulled reference reply = .ok log) ↔
      (creationForm config registryAuth).Completes reply := by
  unfold pulled streamLog
  constructor
  · rintro ⟨log, h⟩
    obtain ⟨found, hfound, hlog⟩ := bind_eq_ok_iff.1 h
    have hread := mapError_eq_ok_iff.1 hfound
    have hlog := exists_logOf_iff.1 ⟨log, mapError_eq_ok_iff.1 hlog⟩
    cases hr : Client.responseOf reply with
    | error failure =>
      rw [hr] at hread
      cases hread
    | ok r =>
      rw [hr] at hread
      cases hread
      obtain ⟨rfl, accepted⟩ := Client.responseOf_eq_ok_iff.1 hr
      exact ⟨r, rfl, accepted, hlog⟩
  · rintro ⟨r, rfl, accepted, complete⟩
    obtain ⟨log, hlog⟩ := exists_logOf_iff.2 complete
    refine ⟨log, ?_⟩
    rw [Client.responseOf_eq_ok_iff.2 ⟨rfl, accepted⟩]
    change (logOf ProgressRecord.pullText _ _).mapError _ = _
    rw [hlog]
    rfl

theorem goes_pull {p : PlatformSpec} {r : Outcome String}
    (h : Goes (d.pull config.image (some p) registryAuth) xs r) :
    (creationForm config registryAuth).Pulling (some p) xs r := by
  rcases goes_ofOutcome_bind_iff.1 h with ⟨e, hparse, rfl, rfl⟩ | ⟨reference, hparse, h⟩
  · refine .unsent fun ready => ?_
    obtain ⟨⟨reference, hr⟩, -⟩ := ready
    cases hparse.symm.trans hr
  rcases goes_ofOutcome_bind_iff.1 h with ⟨e, hc, rfl, rfl⟩ | ⟨c, hc, h⟩
  · refine .unsent fun ready => ?_
    obtain ⟨-, c, hr⟩ := ready
    cases hc.symm.trans hr
  have hready : (creationForm config registryAuth).Ready p := ⟨⟨_, hparse⟩, _, hc⟩
  obtain ⟨x, hx, rfl⟩ := goes_bind_ofOutcome_iff.1 h
  obtain ⟨found, hfound, rfl⟩ := goes_settle_iff.1 hx
  obtain ⟨reply, rfl, rfl⟩ := Client.goes_stream hfound
  exact .of_reply hready ⟨reference, c, hparse, hc, rfl⟩ exists_pulled_iff

theorem goes_create {r : Outcome String} (h : Goes (d.create config registryAuth) xs r) :
    (creationForm config registryAuth).Creation config xs r := by
  refine CreationForm.creation_of_goes (fun _ => ContainerBody.ofConfig config) ?_
    (fun _ => ContainerConfig.exists_body_iff) ?_ h
  · intro ys x hx
    exact .of_match (fun p _ _ => goes_pull) hx
  · intro fresh body hbody ys x hx
    obtain ⟨x', hx', -⟩ := goes_settle_iff.1 hx
    obtain ⟨reply, rfl⟩ := Client.goes_get hx'
    exact ⟨_, rfl, fresh, body, hbody, rfl⟩

end Daemon
end Docker

/-! ### Podman -/

namespace Podman

theorem exists_logOf_iff {records : List ProgressRecord} :
    (∃ log, logOf records = .ok log) ↔ ∀ r ∈ records, r.error? = none := by
  induction records with
  | nil => simp [logOf]
  | cons r records ih =>
    rw [List.forall_mem_cons]
    cases he : r.error? with
    | some e => simp [logOf, he]
    | none =>
      rw [logOf, he]
      refine Iff.trans ?_ (ih.trans (by simp))
      cases logOf records <;> simp [Except.map]

/-- There is a log if all records can be read and have no error. -/
theorem exists_progressLog_iff {body : Bytes} : (∃ log, progressLog body = .ok log) ↔
    (readRecords (body.length + 1) body).2 = none ∧
      ∀ r ∈ (readRecords (body.length + 1) body).1, r.error? = none := by
  rw [← exists_logOf_iff]
  unfold progressLog
  obtain ⟨records, fault⟩ := readRecords (body.length + 1) body
  cases fault with
  | none => simp
  | some fault =>
    simp only [reduceCtorEq, false_and, iff_false, not_exists]
    intro log
    cases logOf records <;> nofun

namespace Client

variable (c : Client) (config : ContainerConfig) (registryAuth : String)

/-- A platform is up to three parameters of the pull. It goes well if its reply is a success and all
records in the whole body can be read and have no error. -/
def creationForm : CreationForm where
  Ready p := (∃ headers, authHeaders registryAuth = .ok headers) ∧
    ¬c.TooLong (Endpoint.pull config.image (some p)).path
  Pulls p x := ∃ headers, authHeaders registryAuth = .ok headers ∧
    x.request = ⟨.post, c.pathFor (Endpoint.pull config.image (some p)).path, headers, .empty⟩
  Completes reply := ∃ r body, reply = .response r ∧ r.isSuccess = true ∧ r.body = .ok body ∧
    (readRecords (body.length + 1) body).2 = none ∧
      ∀ record ∈ (readRecords (body.length + 1) body).1, record.error? = none
  Creates x := ∃ fresh spec, ContainerSpec.ofConfig config (config.nameOr fresh) = .ok spec ∧
    x.request = ⟨.post, c.pathFor Endpoint.create.path, [], .json spec.toJson.render⟩

variable {c config registryAuth} {xs : List Http.Call}

def pulled (c : Client) (path reference : String) (reply : Http.Reply) : Outcome String :=
  (c.bodyOf .post path reply).mapError (imageError reference) >>= progress

theorem exists_pulled_iff {path reference : String} {reply : Http.Reply} :
    (∃ log, c.pulled path reference reply = .ok log) ↔
      (c.creationForm config registryAuth).Completes reply := by
  unfold pulled progress
  constructor
  · rintro ⟨log, h⟩
    obtain ⟨body, hbody, hlog⟩ := bind_eq_ok_iff.1 h
    obtain ⟨r, rfl, success, whole⟩ := bodyOf_eq_ok_iff.1 (mapError_eq_ok_iff.1 hbody)
    exact ⟨r, body, rfl, success, whole,
      exists_progressLog_iff.1 ⟨log, mapError_eq_ok_iff.1 hlog⟩⟩
  · rintro ⟨r, body, rfl, success, whole, complete⟩
    obtain ⟨log, hlog⟩ := exists_progressLog_iff.2 complete
    refine ⟨log, ?_⟩
    rw [bodyOf_eq_ok_iff.2 ⟨r, rfl, success, whole⟩]
    change (progressLog body).mapError _ = _
    rw [hlog]
    rfl

theorem goes_pull {p : PlatformSpec} {r : Outcome String}
    (h : Goes (c.pull config.image (some p) registryAuth) xs r) :
    (c.creationForm config registryAuth).Pulling (some p) xs r := by
  rcases goes_ofOutcome_bind_iff.1 h with ⟨e, hheaders, rfl, rfl⟩ | ⟨headers, hheaders, h⟩
  · refine .unsent fun ready => ?_
    obtain ⟨⟨headers, hr⟩, -⟩ := ready
    cases hheaders.symm.trans hr
  have hpath : "/images/pull" ++
      Percent.query ([("reference", config.image), ("policy", "always")] ++ platformParams (some p)) =
        (Endpoint.pull config.image (some p)).path :=
    Endpoint.words_eq_path (.pull config.image (some p)) ["images", "pull"] rfl (by decide)
  simp only [hpath] at h
  obtain ⟨x, hx, rfl⟩ := goes_bind_ofOutcome_iff.1 h
  obtain ⟨body, hbody, rfl⟩ := goes_mapError_iff.1 hx
  rcases goes_request hbody with ⟨long, rfl, reason, rfl⟩ | ⟨short, reply, rfl, rfl⟩
  · exact .unsent fun ready => ready.2 long
  · exact .of_reply ⟨⟨headers, hheaders⟩, short⟩ ⟨headers, hheaders, rfl⟩ exists_pulled_iff

theorem create_not_tooLong (c : Client) : ¬c.TooLong Endpoint.create.path := by
  obtain ⟨socket, timeout, api⟩ := c
  unfold TooLong pathFor
  dsimp only
  cases api <;> decide

theorem goes_create {r : Outcome String} (h : Goes (c.create config registryAuth) xs r) :
    (c.creationForm config registryAuth).Creation config xs r := by
  refine CreationForm.creation_of_goes
    (fun fresh => ContainerSpec.ofConfig config (config.nameOr fresh)) ?_
    (fun fresh => ContainerConfig.exists_spec_iff (config.nameOr fresh)) ?_ h
  · intro ys x hx
    exact .of_match (fun p _ _ => goes_pull) hx
  · intro fresh spec hspec ys x hx
    obtain ⟨x', hx', -⟩ := goes_mapError_iff.1 hx
    have hpath : "/containers/create" = Endpoint.create.path :=
      Endpoint.words_eq_path .create ["containers", "create"] rfl (by decide)
    rw [hpath] at hx'
    obtain ⟨body, hbody, -⟩ := goes_bind_ofOutcome_iff.1 hx'
    rcases goes_request hbody with ⟨long, -⟩ | ⟨-, reply, rfl, -⟩
    · exact absurd long c.create_not_tooLong
    · exact ⟨_, rfl, fresh, spec, hspec, rfl⟩

end Client
end Podman
/-- Every run of either backend that is to make a container goes in the way of its form. The text that
names a platform to one is cut into the parameters that name it to the other just if no part has a slash,
as in every platform that is read from a text. -/
theorem creation_of_config (config : ContainerConfig) (registryAuth : String) :
    (∀ (d : Docker.Daemon) (σ : Type) (answer : (q : Inquiry) → σ → q.Answer × σ) (s : σ),
      (Docker.Daemon.creationForm config registryAuth).Creation config
        (calls answer (d.manager.create config registryAuth) s)
        (result answer (d.manager.create config registryAuth) s).1) ∧
    (∀ (c : Podman.Client) (σ : Type) (answer : (q : Inquiry) → σ → q.Answer × σ) (s : σ),
      (c.creationForm config registryAuth).Creation config
        (calls answer (c.manager.create config registryAuth) s)
        (result answer (c.manager.create config registryAuth) s).1) ∧
    (∀ p : PlatformSpec, Text.split '/' (Docker.Daemon.platformText (some p)) =
      (Podman.Client.platformParams (some p)).map Prod.snd ↔ p.Unslashed) ∧
    ∀ text p, PlatformSpec.parse text = .ok p → p.Unslashed := by
  refine ⟨?_, ?_, ?_, fun _ _ => PlatformSpec.unslashed_of_parse⟩
  · intro d σ answer s
    exact Docker.Daemon.goes_create (Session.goes_run answer (d.create config registryAuth) s)
  · intro c σ answer s
    exact Podman.Client.goes_create (Session.goes_run answer (c.create config registryAuth) s)
  · intro p
    have hparts : (Podman.Client.platformParams (some p)).map Prod.snd = p.parts := by
      obtain ⟨os, architecture, _ | variant⟩ := p <;> rfl
    rw [hparts]
    exact PlatformSpec.split_text_iff

/-- A container for an architecture that is named with a slash has another platform on each backend. -/
theorem platform_named_with_slash :
    let config := { ContainerConfig.ofImage "alpine" with
      platform := some (Platform.forHost (PlatformSpec.of "linux" "arm/v7")) }
    Docker.Daemon.platformText config.targetPlatform = "linux/arm/v7" ∧
      Text.split '/' "linux/arm/v7" = ["linux", "arm", "v7"] ∧
      Podman.Client.platformParams config.targetPlatform = [("os", "linux"), ("arch", "arm/v7")] := by
  decide

end ContainerBuild
