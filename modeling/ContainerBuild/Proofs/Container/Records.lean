import ContainerBuild.Container.Codec
import ContainerBuild.EngineConfig
import ContainerBuild.Proofs.Credentials.Blobs
import ContainerBuild.Proofs.Json.WrittenFields

/-!
# Records read back

Platforms, mounts, ports, containers, images, credentials and configurations are read back from the text
that is written of them, with all their fields: null and a field that is left out are no value, and the
words and numbers of a field are the ones it may have. A number is read back if it has at most 64 bits,
and the time of an image if its own text is.
-/

namespace ContainerBuild

open Json Json.Decode Json.Fields
open Json.Reading (ofJson)

instance (keys : List Key) : Decidable (DisjointKeys keys) :=
  inferInstanceAs (Decidable (List.Pairwise _ _))

theorem PlatformSpec.decode_toJson (p : PlatformSpec) : decoder (ofJson p.toJson) = .ok p := by
  obtain ⟨os, architecture, variant⟩ := p
  have os' := writes_required "os" (text_ofJson os)
  have architecture' := writes_required "architecture" (text_ofJson architecture)
  refine Writes.decode (x := fields) ?_ (by decide)
  cases variant with
  | none => exact (os'.and (architecture'.and (writes_leftOut _ _))).map _
  | some variant =>
    have variant' := writes_optionalTail "variant" [] (textOrNull_ofJson (some variant))
    exact (os'.and (architecture'.and variant')).map _

theorem Volume.decode_toJson (v : Volume) : decoder (ofJson v.toJson) = .ok v := by
  have kind := writes_required "kind" (word_ofJson (VolumeKind.ofName?_name v.kind))
  have source := writes_required "source" (text_ofJson v.source)
  have target := writes_required "target" (text_ofJson v.target)
  have options := writes_withDefault "options" [] (texts_ofJson v.options)
  exact Writes.decode (x := fields) ((kind.and (source.and (target.and options))).map _) (by decide)

theorem PortBinding.decode_toJson (p : PortBinding) : decoder (ofJson p.toJson) = .ok p := by
  have container := writes_required "container_port" (uint16_ofJson p.containerPort)
  have host := writes_optionalTail "host_port" [] (uint16OrNull_ofJson p.hostPort)
  have protocol := writes_withDefault "protocol" Protocol.tcp
    (word_ofJson (Protocol.ofName?_name p.protocol))
  exact Writes.decode (x := fields) ((container.and (host.and protocol)).map _) (by decide)

theorem ManagedContainer.decode_toJson (c : ManagedContainer) : decoder (ofJson c.toJson) = .ok c := by
  have id := writes_required "id" (text_ofJson c.id)
  have image := writes_required "image" (text_ofJson c.image)
  have imageId := writes_required "image_id" (text_ofJson c.imageId)
  have names := writes_required "names" (texts_ofJson c.names)
  exact Writes.decode (x := fields) ((id.and (image.and (imageId.and names))).map _) (by decide)

theorem PlatformSpec.decode_orNull (p? : Option PlatformSpec) :
    nullable decoder (ofJson (match p? with
      | some p => p.toJson
      | none => .null)) = .ok p? := by
  cases p? with
  | none => rfl
  | some p => exact nullable_ofJson p.decode_toJson nofun

theorem ContainerDetails.decode_toJson {d : ContainerDetails} (code : ∀ n ∈ d.exitCode, IsInt64 n) :
    decoder (ofJson d.toJson) = .ok d := by
  have container := writes_required "container" d.container.decode_toJson
  have status := writes_required "status" (text_ofJson d.status)
  have running := writes_required "running" (bool_ofJson d.running)
  have exitCode := writes_optional "exit_code" (int64OrNull_ofJson code)
  have env := writes_required "env" (texts_ofJson d.env)
  have workingDir := writes_optional "working_dir" (textOrNull_ofJson d.workingDir)
  have platform := writes_optional "platform" (PlatformSpec.decode_orNull d.platform)
  exact Writes.decode (x := fields) ((container.and (status.and (running.and (exitCode.and
    (env.and (workingDir.and platform)))))).map _) (by decide)

theorem Instant.decode_orNull {t? : Option Instant} (h : ∀ t ∈ t?, ofText? t.text = some t) :
    nullable decoder (ofJson (.textOrNull (t?.map text))) = .ok t? := by
  cases t? with
  | none => rfl
  | some t =>
    have back : decoder (ofJson (.text t.text)) = .ok t := by
      rw [decoder, text_ofJson]
      simp only [bind, Except.bind, h t rfl]
      rfl
    exact nullable_ofJson back nofun

theorem ImageSummary.decode_toJson {i : ImageSummary} (size : IsInt64 i.size)
    (created : ∀ t ∈ i.created, Instant.ofText? t.text = some t) : decoder (ofJson i.toJson) = .ok i := by
  have id := writes_required "id" (text_ofJson i.id)
  have repoTags := writes_required "repo_tags" (texts_ofJson i.repoTags)
  have size' := writes_required "size" (int64_ofJson size)
  have created' := writes_optional "created" (Instant.decode_orNull created)
  exact Writes.decode (x := fields) ((id.and (repoTags.and (size'.and created'))).map _) (by decide)

theorem ImageDetails.decode_toJson {i : ImageDetails} (size : IsInt64 i.size) :
    decoder (ofJson i.toJson) = .ok i := by
  have id := writes_required "id" (text_ofJson i.id)
  have repoTags := writes_required "repo_tags" (texts_ofJson i.repoTags)
  have os := writes_required "os" (text_ofJson i.os)
  have architecture := writes_required "architecture" (text_ofJson i.architecture)
  have variant := writes_optional "variant" (textOrNull_ofJson i.variant)
  have size' := writes_required "size" (int64_ofJson size)
  exact Writes.decode (x := fields) ((id.and (repoTags.and (os.and (architecture.and
    (variant.and size'))))).map _) (by decide)

theorem EngineConfig.decode_toJson (c : EngineConfig) : fields.decode (ofJson c.toJson) = .ok c := by
  have runtime := writes_withDefault "runtime" default.runtime (text_ofJson c.runtime)
  have socket := writes_optionalTail "socket" [] (textOrNull_ofJson c.socket)
  have registryAuth := writes_withDefault "registry_auth" default.registryAuth
    (text_ofJson c.registryAuth)
  have logLevel := writes_withDefault "log_level" default.logLevel (text_ofJson c.logLevel)
  have secs := writes_withDefault "request_timeout_secs" default.requestTimeoutSecs
    (d := fun r => (nat Text.maxUnsigned64 r).map UInt64.ofNat) (uint64_ofJson c.requestTimeoutSecs)
  exact Writes.decode (x := fields) ((runtime.and (socket.and (registryAuth.and
    (logLevel.and secs)))).map _) (by decide)

/-- Every record is read back from its text. -/
theorem records_read_back :
    (∀ p : PlatformSpec, read PlatformSpec.decoder p.toJson.render = .ok p) ∧
      (∀ v : Volume, read Volume.decoder v.toJson.render = .ok v) ∧
      (∀ p : PortBinding, read PortBinding.decoder p.toJson.render = .ok p) ∧
      (∀ c : ManagedContainer, read ManagedContainer.decoder c.toJson.render = .ok c) ∧
      (∀ d : ContainerDetails, (∀ n ∈ d.exitCode, IsInt64 n) →
        read ContainerDetails.decoder d.toJson.render = .ok d) ∧
      (∀ i : ImageSummary, IsInt64 i.size → (∀ t ∈ i.created, Instant.ofText? t.text = some t) →
        read ImageSummary.decoder i.toJson.render = .ok i) ∧
      (∀ i : ImageDetails, IsInt64 i.size → read ImageDetails.decoder i.toJson.render = .ok i) ∧
      (∀ c : Credentials, read Credentials.fields.decode c.toJson.render = .ok c) ∧
      ∀ c : EngineConfig, read EngineConfig.fields.decode c.toJson.render = .ok c := by
  simp only [read_render]
  exact ⟨PlatformSpec.decode_toJson, Volume.decode_toJson, PortBinding.decode_toJson,
    ManagedContainer.decode_toJson, fun _ => ContainerDetails.decode_toJson,
    fun _ => ImageSummary.decode_toJson, fun _ => ImageDetails.decode_toJson,
    Credentials.decode_toJson, EngineConfig.decode_toJson⟩

def stoppedContainer : ContainerDetails :=
  ⟨⟨"c1", "app\n\"x\"", "", ["/a", "/é"]⟩, "exited", false, some (-9223372036854775808), [], none,
    some ⟨"linux", "arm", some "v7"⟩⟩

def leapSecondImage : ImageSummary :=
  ⟨"sha256:0f", ["app:1"], 9223372036854775807, some ⟨1483228799, 1500000000⟩⟩

def largestImage : ImageDetails :=
  ⟨"sha256:0f", [], "linux", "amd64", none, 9223372036854775807⟩

theorem records_at_limits :
    ((∀ n ∈ stoppedContainer.exitCode, IsInt64 n) ∧ IsInt64 leapSecondImage.size ∧
      (∀ t ∈ leapSecondImage.created, Instant.ofText? t.text = some t) ∧ IsInt64 largestImage.size) ∧
    read ContainerDetails.decoder stoppedContainer.toJson.render = .ok stoppedContainer ∧
      read ImageSummary.decoder leapSecondImage.toJson.render = .ok leapSecondImage ∧
      read ImageDetails.decoder largestImage.toJson.render = .ok largestImage := by
  have code : ∀ n ∈ stoppedContainer.exitCode, IsInt64 n := by decide
  have size : IsInt64 leapSecondImage.size := by decide
  have created : ∀ t ∈ leapSecondImage.created, Instant.ofText? t.text = some t := by decide +kernel
  have largest : IsInt64 largestImage.size := by decide
  obtain ⟨-, -, -, -, containers, summaries, details, -⟩ := records_read_back
  exact ⟨⟨code, size, created, largest⟩, containers _ code, summaries _ size created,
    details _ largest⟩

end ContainerBuild
