import ContainerBuild.Docker.Manager
import ContainerBuild.Proofs.Http.Target
import ContainerBuild.Proofs.ImageReference.ReadingBack
import ContainerBuild.Proofs.Sessions.Calls
import ContainerBuild.Surroundings.Script

/-!
# The images that requests are about

A reference with a digest names one image of a repository whatever its tag is, and a reference without
one names the image with its tag. A request to the daemon names an image by parameters, or by a part of
its path. The request of a pull is about the image that the reference names. A push and a commit send the
tag, and so are about another image if there is a digest, while the image that was committed is looked up
as the reference names it.
-/

namespace ContainerBuild

/-- What tells an image from the others of its repository. -/
def ImageReference.version (r : ImageReference) : String :=
  r.digest.getD r.tagOrLatest

/-- The tag tells the image unless there is another digest. -/
theorem ImageReference.tagOrLatest_eq_version_iff (r : ImageReference) :
    r.tagOrLatest = r.version ↔ r.digest = none ∨ r.digest = some r.tagOrLatest := by
  unfold version
  cases r.digest with
  | none => simp
  | some digest => simp [eq_comm]

namespace Docker

open Http.Target (Plain)
open Session (Goes calls goes_bind_iff goes_ofOutcome_bind_iff goes_settle_iff goes_bind_ofOutcome_iff)

/-! ### Reading requests -/

/-- The image that two parameters name. -/
def imageIn (key : String) (params : List (String × String)) : Option (String × String) :=
  (params.lookup key).bind fun name => (params.lookup "tag").map fun tag => (name, tag)

/-- The image that an action at a place is about. -/
def imageAt (place action : String) (params : List (String × String)) : Option (String × String) :=
  if (place, action) = ("/images", "create") then imageIn "fromImage" params
  else if (place, action) = ("", "commit") then imageIn "repo" params
  else (Text.dropPrefix? "/images/" place).bind fun reference =>
    if action = "push" then (params.lookup "tag").map fun tag => (reference, tag)
    else if action = "json" then
      (ImageReference.parse reference).toOption.map fun r => (r.name, r.version)
    else none

/-- The image that a request is about, as its repository and what tells it from the others there. -/
def imageOf (q : Http.Request) : Option (String × String) := do
  let (encoded, params) ← Percent.splitTarget q.target
  let path ← Percent.decode? encoded
  let (place, action) ← Text.splitLast '/' path
  imageAt place action params

/-- The tag among the parameters of a request. -/
def tagParam (q : Http.Request) : Option String :=
  (Percent.splitTarget q.target).bind fun (_, params) => params.lookup "tag"

variable {method : Http.Method} {headers : List (String × String)} {payload : Http.Payload}
  {place action : String} {params : List (String × String)} {reply : Http.Reply}

theorem tagParam_callTo (path : String) (hk : ∀ p ∈ params, Percent.PlainKey p.1) :
    tagParam (Client.callTo method path params payload headers reply).request =
      params.lookup "tag" := by
  simp only [tagParam, Client.callTo, Http.Target.splitTarget_make _ hk, Option.bind_some]

theorem imageOf_callTo {s : String} (hplain : Plain s)
    (hcut : Text.splitLast '/' ("/" ++ s) = some (place, action))
    (hk : ∀ p ∈ params, Percent.PlainKey p.1) :
    imageOf (Client.callTo method ("/" ++ s) params payload headers reply).request =
      imageAt place action params := by
  simp only [imageOf, Client.callTo, Http.Target.splitTarget_make _ hk, hplain.decode?_path, hcut,
    Option.bind_eq_bind, Option.bind_some]

/-- An action on an image is about what the place before it says. -/
theorem imageOf_imagePath {reference : String} (hplain : Plain reference) (haction : Plain action)
    (hn : '/' ∉ action.toList) (hk : ∀ p ∈ params, Percent.PlainKey p.1) :
    imageOf (Client.callTo method (imagePath reference ("/" ++ action)) params payload headers
      reply).request = imageAt ("/images/" ++ reference) action params := by
  have images : Plain "images" := by decide
  have hplace : "/images/" ++ reference = "/" ++ ("images" ++ "/" ++ reference) := by
    rw [← String.append_assoc]
    rfl
  have hpath : imagePath reference ("/" ++ action) =
      "/" ++ ("images" ++ "/" ++ reference ++ "/" ++ action) := by
    rw [imagePath, hplace]
    simp only [String.append_assoc]
  have hcut : Text.splitLast '/' ("/" ++ ("images" ++ "/" ++ reference ++ "/" ++ action)) =
      some ("/images/" ++ reference, action) := by
    rw [← String.append_assoc, ← String.append_assoc, ← hplace]
    exact Text.splitLast_append rfl hn
  rw [hpath]
  exact imageOf_callTo ((images.append hplain).append haction) hcut hk

def commitCall (id : String) (r : ImageReference) (options : CommitOptions) (reply : Http.Reply) :
    Http.Call :=
  Client.callTo .post "/commit" (Daemon.commitParams id r options) (.json (Json.object []).render) []
    reply

def lookupCall (reference : String) (reply : Http.Reply) : Http.Call :=
  Client.callTo .get (imagePath reference "/json") [] .empty [] reply

theorem imageOf_pull (r : ImageReference) (p : Option PlatformSpec) :
    imageOf (Client.callTo .post "/images/create" (Daemon.pullParams r p) .empty headers
      reply).request = some (r.name, r.version) := by
  have plain : Plain "images/create" := by decide
  have hpath : "/images/create" = "/" ++ "images/create" := by decide
  have hcut : Text.splitLast '/' ("/" ++ "images/create") = some ("/images", "create") := by decide
  have hk : ∀ q ∈ Daemon.pullParams r p, Percent.PlainKey q.1 := by
    simp [Daemon.pullParams, Percent.PlainKey]
  rw [hpath, imageOf_callTo plain hcut hk]
  rfl

theorem imageOf_push {r : ImageReference} (h : Plain r.name) :
    imageOf (Client.callTo .post (imagePath r.name "/push") [("tag", r.tagOrLatest)] .empty headers
      reply).request = some (r.name, r.tagOrLatest) := by
  have plain : Plain "push" := by decide
  calc _ = imageAt ("/images/" ++ r.name) "push" [("tag", r.tagOrLatest)] :=
        imageOf_imagePath h plain (by decide) (by simp [Percent.PlainKey])
    _ = _ := by simp [imageAt, Text.dropPrefix?_append]

theorem imageOf_lookup {r : ImageReference} (hr : ImageReference.parse r.text = .ok r)
    (h : Plain r.text) :
    imageOf (lookupCall r.text reply).request = some (r.name, r.version) := by
  have plain : Plain "json" := by decide
  calc _ = imageAt ("/images/" ++ r.text) "json" [] :=
        imageOf_imagePath h plain (by decide) (by simp)
    _ = _ := by simp [imageAt, Text.dropPrefix?_append, hr, Except.toOption]

theorem imageOf_commit (id : String) (r : ImageReference) (options : CommitOptions) :
    imageOf (commitCall id r options reply).request = some (r.name, r.tagOrLatest) := by
  have plain : Plain "commit" := by decide
  have hpath : "/commit" = "/" ++ "commit" := by decide
  have hcut : Text.splitLast '/' ("/" ++ "commit") = some ("", "commit") := by decide
  have hk : ∀ q ∈ Daemon.commitParams id r options, Percent.PlainKey q.1 := by
    rw [Daemon.commitParams, List.forall_mem_append, List.forall_mem_append]
    refine ⟨⟨?_, ?_⟩, ?_⟩
    · split <;> simp [Percent.PlainKey]
    · cases options.comment <;> simp [Percent.PlainKey]
    · simp [Percent.PlainKey]
  rw [commitCall, hpath, imageOf_callTo plain hcut hk]
  unfold Daemon.commitParams imageAt imageIn
  cases options.comment <;> by_cases hn : options.changes.isEmpty <;> simp [hn, List.lookup_cons]

/-! ### Operations -/

namespace Daemon

variable {σ : Type} (answer : (q : Inquiry) → σ → q.Answer × σ) (st : σ) (d : Daemon) {s : String}
  {r : ImageReference}

/-- Work that reads a stream of records is one call. -/
theorem calls_stream {α β : Type} {f : Failure → BuildError} {method : Http.Method} {path : String}
    {params : List (String × String)} {payload : Http.Payload} {headers : List (String × String)}
    {decoder : Json.Decoder α} {g : List α × Option Failure → Outcome β} :
    ∃ reply, calls answer (settle f (d.client.stream method path params payload headers decoder) >>=
      fun found => Session.ofOutcome (g found)) st =
        [Client.callTo method path params payload headers reply] := by
  obtain ⟨x, hx, -⟩ := goes_bind_ofOutcome_iff.1 (Session.goes_run answer _ st)
  obtain ⟨y, hy, -⟩ := goes_settle_iff.1 hx
  obtain ⟨reply, hcalls, -⟩ := Client.goes_stream hy
  exact ⟨reply, hcalls⟩

theorem calls_pull (h : ImageReference.parse s = .ok r) (p : Option PlatformSpec) {auth : String}
    {c : Option Credentials} (hc : credentials auth = .ok c) :
    ∃ headers reply, calls answer (d.pull s p auth) st =
      [Client.callTo .post "/images/create" (pullParams r p) .empty headers reply] := by
  simp only [pull, h, hc]
  exact ⟨_, calls_stream answer st d⟩

theorem calls_push (h : ImageReference.parse s = .ok r) {auth : String} {c : Option Credentials}
    (hc : credentials auth = .ok c) :
    ∃ headers reply, calls answer (d.push s auth) st =
      [Client.callTo .post (imagePath r.name "/push") [("tag", r.tagOrLatest)] .empty headers
        reply] := by
  simp only [push, h, hc]
  exact ⟨_, calls_stream answer st d⟩

theorem goes_imageId {reference : String} {xs : List Http.Call} {x : Outcome String}
    (h : Goes (d.imageId reference) xs x) :
    ∃ reply, xs = [lookupCall reference reply] := by
  have inspected {ys : List Http.Call} {y : Outcome ImageDetails}
      (hy : Goes (d.inspectImage reference) ys y) :
      ∃ reply, ys = [lookupCall reference reply] := by
    obtain ⟨_, hz, -⟩ := goes_settle_iff.1 hy
    exact Client.goes_get hz
  rcases goes_bind_iff.1 h with ⟨e, he, -⟩ | ⟨ys, image, zs, hy, hz, rfl⟩
  · exact inspected he
  · obtain ⟨rfl, -⟩ := Session.goes_pure_iff.1 hz
    rw [List.append_nil]
    exact inspected hy

/-- A commit is one call that fails, or one that is followed by the lookup of the image. -/
theorem calls_commit (id : String) (options : CommitOptions)
    (h : ImageReference.parse options.reference = .ok r) :
    ∃ reply,
      (calls answer (d.commit id options) st = [commitCall id r options reply] ∧
        ∃ e, (Dialogue.result answer (d.commit id options) st).1 = .error e) ∨
      ∃ found, calls answer (d.commit id options) st =
        [commitCall id r options reply, lookupCall r.text found] := by
  have hgoes := Session.goes_run answer (d.commit id options) st
  simp only [commit, h] at hgoes ⊢
  rcases goes_ofOutcome_bind_iff.1 hgoes with ⟨e, he, -⟩ | ⟨_, hr, hgoes⟩
  · cases he
  cases hr
  rcases goes_bind_iff.1 hgoes with ⟨e, he, hresult⟩ | ⟨ys, a, zs, hy, hz, hcalls⟩
  · obtain ⟨_, hx, -⟩ := goes_settle_iff.1 he
    obtain ⟨reply, hcalls⟩ := Client.goes_get hx
    exact ⟨reply, .inl ⟨hcalls, e, hresult⟩⟩
  · obtain ⟨_, hx, -⟩ := goes_settle_iff.1 hy
    obtain ⟨reply, rfl⟩ := Client.goes_get hx
    obtain ⟨found, rfl⟩ := d.goes_imageId hz
    exact ⟨reply, .inr ⟨found, hcalls⟩⟩

end Daemon

open Daemon

/-- What the requests for an accepted reference are about. A pull is about the image that the reference
names. A push sends the tag, and so does a commit, which looks up the image that the reference names; where
a name is plain, the requests are read so. The tag and the reference name one image exactly if there is no
digest other than the tag. -/
theorem images_of_requests (s : String) (r : ImageReference) (accepted : ImageReference.parse s = .ok r)
    (d : Daemon) (σ : Type) (answer : (q : Inquiry) → σ → q.Answer × σ) (st : σ) :
    (∀ p auth c, credentials auth = .ok c → ∃ x, calls answer (d.pull s p auth) st = [x] ∧
      imageOf x.request = some (r.name, r.version)) ∧
    (∀ auth c, credentials auth = .ok c → ∃ x, calls answer (d.push s auth) st = [x] ∧
      tagParam x.request = some r.tagOrLatest ∧
      (Plain r.name → imageOf x.request = some (r.name, r.tagOrLatest))) ∧
    (∀ id options, options.reference = s → ∃ x, imageOf x.request = some (r.name, r.tagOrLatest) ∧
      ((calls answer (d.commit id options) st = [x] ∧
          ∃ e, (Dialogue.result answer (d.commit id options) st).1 = .error e) ∨
        ∃ y, calls answer (d.commit id options) st = [x, y] ∧
          (Plain r.text → imageOf y.request = some (r.name, r.version)))) ∧
    (r.tagOrLatest = r.version ↔ r.digest = none ∨ r.digest = some r.tagOrLatest) := by
  refine ⟨?_, ?_, ?_, r.tagOrLatest_eq_version_iff⟩
  · intro p auth c hc
    obtain ⟨headers, reply, hcalls⟩ := calls_pull answer st d accepted p hc
    exact ⟨_, hcalls, imageOf_pull r p⟩
  · intro auth c hc
    obtain ⟨headers, reply, hcalls⟩ := calls_push answer st d accepted hc
    refine ⟨_, hcalls, ?_, imageOf_push⟩
    rw [tagParam_callTo _ (by simp [Percent.PlainKey])]
    rfl
  · rintro id options rfl
    have read : ImageReference.parse r.text = .ok r := (ImageReference.sound_of_parse accepted).parse_text
    obtain ⟨reply, hcalls⟩ := calls_commit answer st d id options accepted
    refine ⟨commitCall id r options reply, imageOf_commit id r options, ?_⟩
    rcases hcalls with failed | ⟨found, hcalls⟩
    · exact .inl failed
    · exact .inr ⟨_, hcalls, imageOf_lookup read⟩

def obliging : (q : Inquiry) → Unit → q.Answer × Unit
  | .exchange .., s => (.response ⟨200, [Utf8.encode "\x7b\"Id\":\"c0ffee\"\x7d"], none⟩, s)
  | .pathExists _, s => (true, s)
  | .command .., s => (.timedOut, s)
  | .freshId, s => ("c0ffee", s)
  | .fileContent _, s => (.error .notFound, s)
  | .probe q, s => (Script.probed q, s)

/-- The daemon at its usual place. -/
def usual : Daemon := Daemon.ofClient ⟨defaultSocket, Duration.ofSecs 120⟩

def pinned : ImageReference := ⟨none, "app", none, some "sha256:0f"⟩

theorem images_of_pinned_requests : ImageReference.parse "app@sha256:0f" = .ok pinned ∧
    (∃ x, calls obliging (usual.pull "app@sha256:0f" none "") () = [x] ∧
      imageOf x.request = some ("app", "sha256:0f")) ∧
    (∃ x, calls obliging (usual.push "app@sha256:0f" "") () = [x] ∧
      imageOf x.request = some ("app", "latest")) ∧
    ¬pinned.tagOrLatest = pinned.version := by
  have name : Plain pinned.name := by decide
  obtain ⟨pulls, pushes, -, same⟩ := images_of_requests "app@sha256:0f" pinned rfl usual Unit obliging ()
  refine ⟨rfl, pulls none "" none rfl, ?_, fun h => absurd (same.1 h) (by decide)⟩
  obtain ⟨x, hx, -, hread⟩ := pushes "" none rfl
  exact ⟨x, hx, hread name⟩

/-- The image with a digest is pushed as the image with the tag that stands for none. -/
theorem pinned_pushed_as_latest : ImageReference.parse "app@sha256:0f" = .ok pinned ∧
    pinned.digest = some "sha256:0f" ∧
    ∃ x, calls obliging (usual.push "app@sha256:0f" "") () = [x] ∧
      tagParam x.request = some "latest" ∧ imageOf x.request = some ("app", "latest") ∧
      imageOf x.request ≠ some (pinned.name, pinned.version) := by
  have plain : Plain pinned.name := by decide
  have accepted : ImageReference.parse "app@sha256:0f" = .ok pinned := rfl
  have anonymous : credentials "" = .ok none := rfl
  obtain ⟨headers, reply, hcalls⟩ := calls_push obliging () usual accepted anonymous
  have tag : tagParam (Client.callTo .post (imagePath pinned.name "/push")
      [("tag", pinned.tagOrLatest)] .empty headers reply).request = some "latest" :=
    tagParam_callTo _ (by simp [Percent.PlainKey])
  refine ⟨rfl, rfl, _, hcalls, tag, imageOf_push plain, ?_⟩
  rw [imageOf_push plain]
  decide

end Docker
end ContainerBuild
