import ContainerBuild.Proofs.CommandLine.ImageTable
import ContainerBuild.Proofs.Container.Records
import ContainerBuild.Proofs.EngineConfig.Sources
import ContainerBuild.Proofs.Podman.Connecting
import Mathlib.Data.List.Infix

/-!
# Listed images

A run that lists images connects the configured backend and writes the images that its daemon returns, each
in a row. Both backends can return images with any identifiers and names, so an identifier may be torn, and
this is the only way in which the run can fail once it has the images.
-/

namespace ContainerBuild
namespace CommandLine

open Dialogue (result)

variable {i : ImageSummary} {images : List ImageSummary} {lookup : String → Option String}
  {config : EngineConfig}

/-! ### Daemons -/

section

variable {σ : Type} {answer : (q : Inquiry) → σ → q.Answer × σ} {s : σ}

/-- What the daemon of the configured backend returns for its images, after it is connected. -/
inductive Returns (answer : (q : Inquiry) → σ → q.Answer × σ) (lookup : String → Option String)
    (config : EngineConfig) (s : σ) : List ImageSummary → Prop
  | podman {c : Podman.Client} {t : σ} {body : Bytes} {images : List ImageSummary}
      (chosen : config.runtime = Podman.name)
      (connected : result answer (Podman.connect config) s = (.ok c, t))
      (replied : Podman.verdict (answer (.exchange c.socket c.timeout
        ⟨.get, c.pathFor "/images/json", [], .empty⟩) t).1 = .given body)
      (read : Json.read (Json.Decode.list Podman.summaryFields.decode) body = .ok images) :
      Returns answer lookup config s images
  | docker {d : Docker.Daemon} {t : σ} {body : Bytes} {images : List ImageSummary}
      (chosen : config.runtime = Docker.name)
      (connected : result answer (Docker.connect config (lookup BackendRegistry.hostVariable)) s =
        (.ok d, t))
      (replied : Docker.verdict (answer (.exchange d.client.socket d.client.timeout
        ⟨.get, Http.Target.make "/images/json" Docker.Daemon.listParams, [], .empty⟩) t).1 = .given body)
      (read : Json.read (Json.Decode.list Docker.summaryFields.decode) body = .ok images) :
      Returns answer lookup config s images

theorem listImages_podman {c : Podman.Client} {body : Bytes}
    (replied : Podman.verdict (answer (.exchange c.socket c.timeout
      ⟨.get, c.pathFor "/images/json", [], .empty⟩) s).1 = .given body)
    (read : Json.read (Json.Decode.list Podman.summaryFields.decode) body = .ok images) :
    (result answer c.manager.listImages s).1 = .ok images := by
  have short : ¬Http.maxTarget < (c.pathFor "/images/json").utf8ByteSize := by
    unfold Podman.Client.pathFor
    cases c.api <;> decide
  have reads := Podman.reads_getJson answer s c "/images/json"
    (Json.Decode.list Podman.summaryFields.decode)
  have given : c.verdictOn "/images/json" (answer (.exchange c.socket c.timeout
      ⟨.get, c.pathFor "/images/json", [], .empty⟩) s).1 = .given body :=
    (if_neg short).trans replied
  rw [given] at reads
  exact reads.eq_ok read

theorem listImages_docker {d : Docker.Daemon} {body : Bytes}
    (replied : Docker.verdict (answer (.exchange d.client.socket d.client.timeout
      ⟨.get, Http.Target.make "/images/json" Docker.Daemon.listParams, [], .empty⟩) s).1 = .given body)
    (read : Json.read (Json.Decode.list Docker.summaryFields.decode) body = .ok images) :
    (result answer d.manager.listImages s).1 = .ok images := by
  have reads := Docker.reads_get answer s d.client .get "/images/json" Docker.Daemon.listParams .empty
    (Json.Decode.list Docker.summaryFields.decode)
  rw [replied] at reads
  change (result answer d.listImages s).1 = .ok images
  rw [Docker.Daemon.listImages, Docker.result_settle, reads.eq_ok read, mapError_ok]

theorem Returns.exists_manager (returns : Returns answer lookup config s images) :
    ∃ m t, result answer ((BackendRegistry.standard lookup).connectConfigured config) s = (.ok m, t) ∧
      (result answer m.listImages t).1 = .ok images := by
  cases returns with
  | @podman c t _ _ chosen connected replied read =>
    have factory : (BackendRegistry.standard lookup).connectConfigured config =
        Podman.connect config >>= fun c => pure c.manager := by
      unfold BackendRegistry.connectConfigured
      rw [chosen]
      rfl
    refine ⟨c.manager, t, ?_, listImages_podman replied read⟩
    rw [factory, Dialogue.result_bind, connected]
    rfl
  | @docker d t _ _ chosen connected replied read =>
    have factory : (BackendRegistry.standard lookup).connectConfigured config =
        Docker.connect config (lookup BackendRegistry.hostVariable) >>= fun d => pure d.manager := by
      unfold BackendRegistry.connectConfigured
      rw [chosen]
      rfl
    refine ⟨d.manager, t, ?_, listImages_docker replied read⟩
    rw [factory, Dialogue.result_bind, connected]
    rfl

end

/-! ### What can be returned -/

section

open Json Json.Decode Json.Fields
open Json.Reading (ofItems ofJson)

variable {socket : String}

/-- An image whose size, and the moment it was made, are numbers of 64 bits. -/
def Sendable (i : ImageSummary) : Prop :=
  IsInt64 i.size ∧ ∃ seconds, IsInt64 seconds ∧ i.created = Instant.ofSeconds? seconds

theorem Sendable.exists_podman (h : Sendable i) :
    ∃ j, Podman.summaryFields.decode (ofJson j) = .ok i := by
  obtain ⟨id, repoTags, size, created⟩ := i
  obtain ⟨hsize, seconds, hseconds, hcreated⟩ := h
  obtain rfl : created = Instant.ofSeconds? seconds := hcreated
  have id' := writes_withDefault "Id" "" (text_ofJson id)
  have repoTags' := writes_optionalTail "RepoTags" [] (nullable_ofJson (texts_ofJson repoTags) nofun)
  have size' := writes_withDefault "Size" 0 (int64_ofJson hsize)
  have created' := writes_withDefault "Created" 0 (int64_ofJson hseconds)
  exact ⟨_, Writes.decode (x := Podman.summaryFields)
    ((id'.and (repoTags'.and (size'.and created'))).map _) (by decide)⟩

theorem nullableTexts_ofJson (l : List String) : Docker.nullableTexts (ofJson (.texts l)) = .ok l := by
  unfold Docker.nullableTexts
  rw [nullable_ofJson (texts_ofJson l) nofun]
  rfl

theorem Sendable.exists_docker (h : Sendable i) :
    ∃ j, Docker.summaryFields.decode (ofJson j) = .ok i := by
  obtain ⟨id, repoTags, size, created⟩ := i
  obtain ⟨hsize, seconds, hseconds, hcreated⟩ := h
  obtain rfl : created = Instant.ofSeconds? seconds := hcreated
  have unknown : IsInt64 (-1) := by decide
  have noLabels : Docker.labels (ofJson .null) = .ok () := rfl
  have id' := writes_required "Id" (text_ofJson id)
  have parent := writes_required "ParentId" (text_ofJson "")
  have repoTags' := writes_required "RepoTags" (nullableTexts_ofJson repoTags)
  have digests := writes_required "RepoDigests" (nullableTexts_ofJson [])
  have created' := writes_required "Created" (int64_ofJson hseconds)
  have size' := writes_required "Size" (int64_ofJson hsize)
  have shared := writes_required "SharedSize" (int64_ofJson unknown)
  have labels := writes_required "Labels" noLabels
  have containers := writes_required "Containers" (int64_ofJson unknown)
  exact ⟨_, Writes.decode (x := Docker.summaryFields)
    ((id'.and (parent.and (repoTags'.and (digests.and (created'.and (size'.and (shared.and
      (labels.and containers)))))))).map _) (by decide)⟩

theorem exists_body {d : Decoder ImageSummary} (h : ∀ i ∈ images, ∃ j, d (ofJson j) = .ok i) :
    ∃ body, Json.read (list d) body = .ok images := by
  have found : ∃ js, items d (ofItems js) = .ok images := by
    induction images with
    | nil => exact ⟨[], rfl⟩
    | cons i images ih =>
      obtain ⟨⟨j, hj⟩, hrest⟩ := List.forall_mem_cons.1 h
      obtain ⟨js, hjs⟩ := ih hrest
      refine ⟨j :: js, ?_⟩
      rw [ofItems, items, hj, hjs]
      rfl
  obtain ⟨js, hjs⟩ := found
  refine ⟨(Json.array js).render, ?_⟩
  rw [Json.read_render, ofJson, list, hjs]
  rfl

def served (body : Bytes) : Http.Response := ⟨200, [body], none⟩

def serving (body : Bytes) : (q : Inquiry) → Unit → q.Answer × Unit
  | .exchange .., s => (.response (served body), s)
  | q, s => withFile [] q s

theorem body_served (body : Bytes) : (served body).body = .ok body := by
  simp [served, Http.Response.body, Http.Response.withBody, Http.Response.hasBody]

theorem exists_connect_podman (body : Bytes) (h : config.socket = some socket) :
    ∃ c, result (serving body) (Podman.connect config) () = (.ok c, ()) := by
  obtain ⟨major, effective⟩ := Podman.exists_effectiveMajor (.response (served body)) none
  have chooses : Podman.Chooses (serving body) config () [] (.ok (socket, none)) () := .configured h
  obtain ⟨connected, t, run, hok, -⟩ := Podman.exists_run_connect chooses rfl nofun effective
  obtain ⟨c, rfl⟩ := hok.2 ⟨body, served body, rfl, rfl, body_served body⟩
  exact ⟨c, run.gives⟩

theorem exists_connect_docker (body : Bytes) (config : EngineConfig) (host : Option String) :
    ∃ d, result (serving body) (Docker.connect config host) () = (.ok d, ()) :=
  ⟨_, rfl⟩

theorem returns_podman {body : Bytes} (lookup : String → Option String)
    (chosen : config.runtime = Podman.name) (h : config.socket = some socket)
    (read : Json.read (list Podman.summaryFields.decode) body = .ok images) :
    Returns (serving body) lookup config () images := by
  obtain ⟨c, connected⟩ := exists_connect_podman body h
  have given : Podman.verdict (.response (served body)) = .given body := by
    rw [Podman.verdict, body_served]
    rfl
  exact .podman chosen connected given read

theorem returns_docker {body : Bytes} (lookup : String → Option String)
    (chosen : config.runtime = Docker.name)
    (read : Json.read (list Docker.summaryFields.decode) body = .ok images) :
    Returns (serving body) lookup config () images := by
  obtain ⟨d, connected⟩ := exists_connect_docker body config (lookup BackendRegistry.hostVariable)
  have given : Docker.verdict (.response (served body)) = .given body := by
    rw [Docker.verdict, body_served]
    rfl
  exact .docker chosen connected given read

/-- On both backends any images can be returned. -/
theorem exists_returns (lookup : String → Option String) (sendable : ∀ i ∈ images, Sendable i)
    (chosen : config.runtime = Podman.name ∨ config.runtime = Docker.name)
    (h : config.socket = some socket) : ∃ body, Returns (serving body) lookup config () images := by
  cases chosen with
  | inl chosen =>
    obtain ⟨body, read⟩ := exists_body fun i hi => (sendable i hi).exists_podman
    exact ⟨body, returns_podman lookup chosen h read⟩
  | inr chosen =>
    obtain ⟨body, read⟩ := exists_body fun i hi => (sendable i hi).exists_docker
    exact ⟨body, returns_docker lookup chosen read⟩

end

/-! ### Runs -/

section

variable {σ : Type} {answer : (q : Inquiry) → σ → q.Answer × σ} {s s' : σ}

theorem result_doing {α : Type} (m : Session α) (f : BuildError → Trouble) :
    result answer (doing m f) s = ((result answer m s).1.mapError f, (result answer m s).2) := by
  have run : (doing m f).run = m.run >>= fun r => .done (r.mapError f) := rfl
  rw [result, run, Dialogue.run_bind]
  rfl

theorem result_imageTask (returns : Returns answer lookup config s images) :
    (result answer (imageTask config lookup) s).1 = .ok (exitOf images) := by
  obtain ⟨m, t, connected, listed⟩ := returns.exists_manager
  unfold imageTask connect
  rw [Dialogue.result_bind, result_doing, connected, mapError_ok]
  simp only
  rw [Dialogue.result_bind, result_doing, listed, mapError_ok]
  simp only [exitOf]
  split <;> rfl

variable {arguments : List String} {account : Option String} {o : Overrides} {loaded : EngineConfig}

theorem run_of_returns (line : readArguments arguments = .ok (.images, o))
    (loads : result answer (loadConfig lookup account) s = (.ok loaded, s'))
    (returns : Returns answer lookup (o.apply loaded) s' images) :
    ((run arguments lookup account).run answer s).1 = exitOf images := by
  rw [run_of_loaded line loads]
  exact congrArg finish (result_imageTask returns)

/-- A run that lists images does so for any images that a daemon returns, on both backends, up to the first
with a torn identifier. -/
theorem images_of_daemon (line : readArguments arguments = .ok (.images, o))
    (loads : result answer (loadConfig lookup account) s = (.ok loaded, s'))
    (returns : Returns answer lookup (o.apply loaded) s' images) :
    Lists images ((run arguments lookup account).run answer s).1 := by
  rw [run_of_returns line loads returns]
  exact lists_exitOf images

end

def sampleArguments (runtime : String) : List String :=
  ["images", "-r", runtime, "-s", "/run/d.sock"]

def sampleSettings (runtime : String) : EngineConfig :=
  { EngineConfig.default with runtime := runtime, socket := some "/run/d.sock" }

def sampleExit (runtime : String) (body : Bytes) : Exit :=
  ((run (sampleArguments runtime) (fun _ => none) none).run (serving body) ()).1

/-- An identifier with two stems before characters of two bytes, and one that is shorter than the room. -/
def sampleImages : List ImageSummary :=
  [⟨"sha256:sha256:ééééééé", ["a:1", "b"], 123, Instant.ofSeconds? 0⟩,
    ⟨"é", [], 123, Instant.ofSeconds? 0⟩]

theorem sendable_sampleImages : ∀ i ∈ sampleImages, Sendable i := by
  have size : Json.Decode.IsInt64 123 := by decide
  have seconds : Json.Decode.IsInt64 0 := by decide
  have sendable (id : String) (repoTags : List String) :
      Sendable ⟨id, repoTags, 123, Instant.ofSeconds? 0⟩ := ⟨size, 0, seconds, rfl⟩
  simp [sampleImages, sendable]

theorem whole_sampleImages : ∀ i ∈ sampleImages, ¬Torn i.id := by
  have first : Bare "sha256:sha256:ééééééé" "ééééééé".toList := ⟨2, by decide, by decide⟩
  have second : Bare "é" "é".toList := ⟨0, by decide, by decide⟩
  have cut : Utf8.decode? ((Utf8.encode (String.ofList "ééééééé".toList)).take shownBytes) ≠ none := by
    decide +kernel
  have cut' : Utf8.decode? ((Utf8.encode (String.ofList "é".toList)).take shownBytes) ≠ none := by
    decide +kernel
  simp only [sampleImages, List.forall_mem_cons, List.not_mem_nil, false_imp_iff, implies_true,
    and_true, first.torn_iff, second.torn_iff, ← Utf8.decode?_take_eq_none_iff]
  exact ⟨cut, cut'⟩

theorem images_of_sample : ∃ body body',
    Returns (serving body) (fun _ => none) (sampleSettings "podman") () sampleImages ∧
      Returns (serving body') (fun _ => none) (sampleSettings "docker") () sampleImages ∧
      Complete sampleImages (sampleExit "podman" body) ∧
      Complete sampleImages (sampleExit "docker" body') := by
  have sample (runtime : String) (chosen : runtime = Podman.name ∨ runtime = Docker.name) : ∃ body,
      Returns (serving body) (fun _ => none) (sampleSettings runtime) () sampleImages :=
    exists_returns _ sendable_sampleImages chosen rfl
  obtain ⟨body, returns⟩ := sample "podman" (.inl rfl)
  obtain ⟨body', returns'⟩ := sample "docker" (.inr rfl)
  have lists : Lists sampleImages (sampleExit "podman" body) := images_of_daemon rfl rfl returns
  have lists' : Lists sampleImages (sampleExit "docker" body') := images_of_daemon rfl rfl returns'
  exact ⟨body, body', returns, returns', lists.complete_iff.2 whole_sampleImages,
    lists'.complete_iff.2 whole_sampleImages⟩

/-- An identifier with eleven letters before a character of two bytes. -/
def tornImage : ImageSummary := ⟨"sha256:aaaaaaaaaaaé", ["a:1"], 123, Instant.ofSeconds? 0⟩

def tornBody : Bytes :=
  Utf8.encode "[\x7b\"Id\":\"sha256:aaaaaaaaaaaé\",\"RepoTags\":[\"a:1\"],\"Size\":123\x7d]"

theorem returns_tornImage :
    Returns (serving tornBody) (fun _ => none) (sampleSettings "podman") () [tornImage] := by
  apply returns_podman _ rfl rfl
  decide +kernel

theorem isRow_tornImage : IsRow tornImage (line "aaaaaaaaaaa" "123" "a:1") := by
  have bare : Bare tornImage.id "aaaaaaaaaaaé".toList := ⟨1, by decide, by decide⟩
  have longest : ∀ ds ∈ "aaaaaaaaaaaé".toList.inits, Utf8.width ds ≤ shownBytes →
      ds <+: "aaaaaaaaaaa".toList := by
    decide
  refine ⟨"aaaaaaaaaaa".toList, ⟨"aaaaaaaaaaaé".toList, bare, ?_, ?_, ?_⟩, ?_⟩
  · decide
  · decide
  · intro ds begins
    exact longest ds ((List.mem_inits _ _).2 begins)
  · decide

/-- The image has a row, but the run gives up and does not list it. -/
theorem torn_identifier_aborts :
    Returns (serving tornBody) (fun _ => none) (sampleSettings "podman") () [tornImage] ∧
      IsRow tornImage (line "aaaaaaaaaaa" "123" "a:1") ∧
      (sampleExit "podman" tornBody).code = Exit.abortCode ∧
      (sampleExit "podman" tornBody).out = Utf8.encode header ∧
      ¬Complete [tornImage] (sampleExit "podman" tornBody) := by
  have ends : (sampleExit "podman" tornBody).code = Exit.abortCode ∧
      (sampleExit "podman" tornBody).out = Utf8.encode header := by
    decide +kernel
  obtain ⟨aborted, out⟩ := ends
  exact ⟨returns_tornImage, isRow_tornImage, aborted, out,
    fun complete => complete.ne_abortCode aborted⟩

end CommandLine
end ContainerBuild
