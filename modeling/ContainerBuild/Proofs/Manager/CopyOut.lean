import ContainerBuild.Docker.Manager
import ContainerBuild.Manager.Copy
import ContainerBuild.Podman.Manager
import ContainerBuild.Proofs.Archive.FirstFile
import ContainerBuild.Proofs.Sessions
import ContainerBuild.Surroundings.Script
import ContainerBuild.Tar.Header

/-!
# Copying a file out of a container

A daemon gives the same reply whether a path or its whole container is absent, so the container is asked
for next. What comes of that is the same on both backends: it depends on what the two replies are good
for, and on the first member of the archive.
-/

namespace ContainerBuild

open Dialogue (result)
open Http (Verdict)

/-! ### From replies to results -/

section Classification

variable {ε α : Type} {id : String} {d : Json.Decoder α} {first second : Verdict}

/-- What the inspection of a container comes to, by the verdict on the reply. -/
inductive Inspected (id : String) (d : Json.Decoder α) : Verdict → Outcome ContainerDetails → Prop
  | found {body : Bytes} {record : α} (h : Json.read d body = .ok record)
    (details : ContainerDetails) : Inspected id d (.given body) (.ok details)
  | absent : Inspected id d .absent (.error (.containerNotFound id))
  | unreadable {body : Bytes} {fault : Json.Fault} {e : BuildError}
    (h : Json.read d body = .error fault) (he : e.isNotFound = false) :
    Inspected id d (.given body) (.error e)
  | failed {e : BuildError} (he : e.isNotFound = false) : Inspected id d .failed (.error e)

/-- What comes of copying a file out of a container, by the verdicts on the replies to the request for
the archive and to the inspection of the container. -/
structure CopiedOut (id : String) (d : Json.Decoder α) (first second : Verdict)
    (x : Outcome (Option Bytes)) : Prop where
  none_iff : x = .ok none ↔
    first = .absent ∧ ∃ body record, second = .given body ∧ Json.read d body = .ok record
  notFound_iff : ∀ y, x = .error (.containerNotFound y) ↔
    y = id ∧ first = .absent ∧ second = .absent
  some_iff : ∀ b, x = .ok (some b) ↔
    ∃ archive whole, first = .given archive ∧ Archive.HoldsFile archive b whole

def copyResult (saysAbsent : ε → Bool) (report : ε → BuildError) (archive : Except ε Bytes)
    (details : Outcome ContainerDetails) : Outcome (Option Bytes) :=
  match archive with
  | .ok archive => (Archive.firstFile archive).map some
  | .error e => if saysAbsent e then details.map fun _ => none else .error (report e)

theorem ne_containerNotFound {e : BuildError} (h : e.isNotFound = false) (y : String) :
    e ≠ .containerNotFound y := by
  rintro rfl
  cases h

/-- Errors that do not say that anything is absent leave no other way. -/
theorem copiedOut_error {e : BuildError} (he : e.isNotFound = false)
    (given : ∀ archive b whole, first = .given archive → ¬Archive.HoldsFile archive b whole)
    (absent : first = .absent → second ≠ .absent ∧
      ∀ body record, second = .given body → Json.read d body ≠ .ok record) :
    CopiedOut id d first second (.error e) := by
  refine ⟨?_, ?_, ?_⟩
  · constructor
    · intro h
      cases h
    · rintro ⟨hf, body, record, hs, hr⟩
      exact absurd hr ((absent hf).2 body record hs)
  · intro y
    constructor
    · intro h
      exact absurd (Except.error.inj h) (ne_containerNotFound he y)
    · rintro ⟨-, hf, hs⟩
      exact absurd hs (absent hf).1
  · intro b
    constructor
    · intro h
      cases h
    · rintro ⟨archive, whole, hf, holds⟩
      exact absurd holds (given archive b whole hf)

theorem copiedOut_given (archive : Bytes) :
    CopiedOut id d (.given archive) second ((Archive.firstFile archive).map some) := by
  cases h : Archive.firstFile archive with
  | error e =>
    refine copiedOut_error (Archive.isNotFound_of_firstFile h) ?_ nofun
    rintro archive' b whole he holds
    obtain rfl := Verdict.given.inj he
    rw [Archive.firstFile_eq_ok_iff.2 ⟨whole, holds⟩] at h
    cases h
  | ok b =>
    refine ⟨?_, ?_, ?_⟩
    · constructor
      · intro h
        cases h
      · rintro ⟨hf, -⟩
        cases hf
    · intro y
      constructor
      · intro h
        cases h
      · rintro ⟨-, hf, -⟩
        cases hf
    · intro b'
      constructor
      · intro he
        obtain ⟨whole, holds⟩ := Archive.firstFile_eq_ok_iff.1 h
        obtain rfl : b = b' := Option.some.inj (Except.ok.inj he)
        exact ⟨archive, whole, rfl, holds⟩
      · rintro ⟨archive', whole, he, holds⟩
        obtain rfl := Verdict.given.inj he
        have same := Archive.firstFile_eq_ok_iff.2 ⟨whole, holds⟩
        rw [h] at same
        obtain rfl := Except.ok.inj same
        rfl

theorem copiedOut_absent {details : Outcome ContainerDetails} (h : Inspected id d second details) :
    CopiedOut id d .absent second (details.map fun _ => none) := by
  have no_file : ∀ b, (details.map fun _ => (none : Option Bytes)) = .ok (some b) ↔
      ∃ archive whole, Verdict.absent = .given archive ∧ Archive.HoldsFile archive b whole := by
    intro b
    constructor
    · intro he
      cases details <;> cases he
    · rintro ⟨archive, whole, hf, -⟩
      cases hf
  cases h with
  | @found body record h details =>
    refine ⟨?_, ?_, no_file⟩
    · exact ⟨fun _ => ⟨rfl, body, record, rfl, h⟩, fun _ => rfl⟩
    · intro y
      constructor
      · intro h
        cases h
      · rintro ⟨-, -, hs⟩
        cases hs
  | absent =>
    refine ⟨?_, ?_, no_file⟩
    · constructor
      · intro h
        cases h
      · rintro ⟨-, body, record, hs, -⟩
        cases hs
    · intro y
      constructor
      · intro h
        obtain rfl := BuildError.containerNotFound.inj (Except.error.inj h)
        exact ⟨rfl, rfl, rfl⟩
      · rintro ⟨rfl, -, -⟩
        rfl
  | @unreadable body fault e h he =>
    refine copiedOut_error he nofun fun _ => ⟨nofun, ?_⟩
    rintro body' record hs hr
    obtain rfl := Verdict.given.inj hs
    rw [h] at hr
    cases hr
  | failed he => exact copiedOut_error he nofun fun _ => ⟨nofun, nofun⟩

/-- The two results decide what comes of copying. -/
theorem copiedOut_copyResult {saysAbsent : ε → Bool} {report : ε → BuildError}
    {archive : Except ε Bytes} {details : Outcome ContainerDetails}
    (plain : ∀ e, saysAbsent e = false → (report e).isNotFound = false)
    (gives : first.Gives saysAbsent archive) (inspected : Inspected id d second details) :
    CopiedOut id d first second (copyResult saysAbsent report archive details) := by
  cases gives with
  | given archive => exact copiedOut_given archive
  | @absent e h =>
    rw [copyResult, if_pos h]
    exact copiedOut_absent inspected
  | @failed e h =>
    rw [copyResult, if_neg (by simp [h])]
    exact copiedOut_error (plain e h) nofun nofun

/-- A record that is asked for is what an inspection starts from, if the errors are reported so that they
say which container is absent. -/
theorem inspected_of_reads {saysAbsent : ε → Bool} (report : ε → BuildError) {record : Except ε α}
    {details : Outcome ContainerDetails} (reads : second.Reads saysAbsent d record)
    (absent : ∀ e, saysAbsent e = true → report e = .containerNotFound id)
    (plain : ∀ e, saysAbsent e = false → (report e).isNotFound = false)
    (ok : ∀ a, record = .ok a → ∃ x, details = .ok x)
    (error : ∀ e, record = .error e → details = .error (report e)) : Inspected id d second details := by
  cases reads with
  | @given body a h =>
    obtain ⟨x, rfl⟩ := ok a rfl
    exact .found h x
  | @unreadable body fault e h he =>
    rw [error e rfl]
    exact .unreadable h (plain e he)
  | @absent e h =>
    rw [error e rfl, absent e h]
    exact .absent
  | @failed e h =>
    rw [error e rfl]
    exact .failed (plain e h)

end Classification

/-! ### The backends -/

variable {σ : Type} (answer : (q : Inquiry) → σ → q.Answer × σ) (s : σ)

theorem result_copyOut (m : ContainerManager Session) (id path : String) :
    result answer (m.copyOut id path) s = match result answer (m.download id path) s with
      | (.ok (some archive), s') => ((Archive.firstFile archive).map some, s')
      | (.ok none, s') => (.ok none, s')
      | (.error e, s') => (.error e, s') := by
  unfold ContainerManager.copyOut
  rw [Dialogue.result_bind]
  rcases result answer (m.download id path) s with ⟨_ | _ | archive, s'⟩
  · rfl
  · rfl
  · simp only
    rw [Dialogue.result_bind]
    cases Archive.firstFile archive <;> rfl

theorem exists_result_map {α β : Type} {m : Session α} (f : α → β)
    (h : ∃ a, (result answer m s).1 = .ok a) :
    ∃ b, (result answer (m >>= fun a => pure (f a)) s).1 = .ok b := by
  obtain ⟨a, ha⟩ := h
  rw [Dialogue.result_bind]
  rcases hr : result answer m s with ⟨e | a', s'⟩
  · rw [hr] at ha
    cases ha
  · exact ⟨f a', rfl⟩

/-- The platform of an image is looked for, and if that fails there is none. -/
theorem exists_result_platform (unnamed : Bool) (m : Session ImageDetails) :
    ∃ p, (result answer (do
      if unnamed then return none
      match ← Session.attempt m with
      | .ok details => return some details.platform
      | .error _ => return none : Session (Option PlatformSpec)) s).1 = .ok p := by
  cases unnamed with
  | true => exact ⟨none, rfl⟩
  | false =>
    simp only [Bool.false_eq_true, if_false]
    rw [Dialogue.result_bind, Session.result_attempt]
    simp only
    cases (result answer m s).1 with
    | ok details => exact ⟨_, rfl⟩
    | error e => exact ⟨_, rfl⟩

namespace Podman
namespace Client

variable (c : Client) (id path : String)

def archivePath (id path : String) : String :=
  containerPath id ("/archive" ++ Percent.query [("path", path)])

theorem platformOf_ok (image : String) : ∃ p, (result answer (c.platformOf image) s).1 = .ok p :=
  exists_result_platform answer s image.isEmpty (c.inspectImage image)

theorem inspected : Inspected id InspectContainer.fields.decode
    (c.verdictOn (containerPath id "/json") (answer (.exchange c.socket c.timeout
      ⟨.get, c.pathFor (containerPath id "/json"), [], .empty⟩) s).1)
    (result answer (c.inspect id) s).1 := by
  apply inspected_of_reads (containerError id) (reads_getJson answer s c _ _)
  · intro e h
    rw [containerError, if_pos h]
  · intro e h
    rwa [containerError, if_neg (by simp [h])]
  · intro found h
    unfold inspect
    rw [Dialogue.result_bind, Session.result_mapError, h]
    exact exists_result_map answer _ (found.details id) (platformOf_ok answer _ c found.image)
  · intro e h
    unfold inspect
    rw [Dialogue.result_bind, Session.result_mapError, h]
    rfl

/-- The result of copying a file out, by the results of the two requests. -/
theorem result_copyOut : (result answer (c.manager.copyOut id path) s).1 =
    copyResult BuildError.isNotFound (fun e => e)
      (result answer (c.request .get (archivePath id path) .empty []) s).1
      (result answer (c.inspect id)
        (result answer (c.request .get (archivePath id path) .empty []) s).2).1 := by
  have download : c.manager.download id path = c.download id path := rfl
  rw [ContainerBuild.result_copyOut, download, Client.download, ← archivePath, Dialogue.result_bind,
    Session.result_attempt]
  rcases result answer (c.request .get (archivePath id path) .empty []) s with ⟨e | body, s'⟩
  · simp only [copyResult]
    by_cases absent : e.isNotFound
    · rw [if_pos absent, if_pos absent, Dialogue.result_bind]
      rcases result answer (c.inspect id) s' with ⟨_ | _, _⟩ <;> rfl
    · rw [if_neg absent, if_neg absent]
      rfl
  · rfl

theorem copiedOut :
    let first := answer (.exchange c.socket c.timeout
      ⟨.get, c.pathFor (archivePath id path), [], .empty⟩) s
    let second := answer (.exchange c.socket c.timeout
      ⟨.get, c.pathFor (containerPath id "/json"), [], .empty⟩) first.2
    CopiedOut id InspectContainer.fields.decode (c.verdictOn (archivePath id path) first.1)
      (c.verdictOn (containerPath id "/json") second.1)
      (result answer (c.manager.copyOut id path) s).1 := by
  intro first second
  rw [result_copyOut]
  by_cases long : Http.maxTarget < (c.pathFor (archivePath id path)).utf8ByteSize
  · have unsent : c.verdictOn (archivePath id path) first.1 = .failed := if_pos long
    rw [result_request_of_long answer s c .get _ .empty [] long, unsent]
    exact copiedOut_error (e := .internal _) rfl nofun nofun
  · have gives := gives_request answer s c .get (archivePath id path) .empty []
    rw [result_request answer s c .get _ .empty [] long] at gives ⊢
    exact copiedOut_copyResult (fun e h => h) gives (inspected answer first.2 c id)

end Client
end Podman

namespace Docker
namespace Daemon

variable (d : Daemon) (id path : String)

theorem platformOf_ok (image : String) : ∃ p, (result answer (d.platformOf image) s).1 = .ok p :=
  exists_result_platform answer s image.isEmpty (d.inspectImage image)

theorem inspected : Inspected id InspectContainer.fields.decode
    (verdict (answer (.exchange d.client.socket d.client.timeout
      ⟨.get, Http.Target.make (containerPath id "/json") [], [], .empty⟩) s).1)
    (result answer (d.inspect id) s).1 := by
  apply inspected_of_reads (containerError id) (reads_get answer s d.client .get _ [] .empty _)
  · intro f h
    rw [containerError, if_pos h]
  · intro f h
    rw [containerError, if_neg (by simp [h])]
    rfl
  · intro found h
    unfold inspect
    rw [Dialogue.result_bind, result_settle, h]
    exact exists_result_map answer _ (found.details id) (platformOf_ok answer _ d found.imageId)
  · intro f h
    unfold inspect
    rw [Dialogue.result_bind, result_settle, h]
    rfl

theorem result_copyOut : (result answer (d.manager.copyOut id path) s).1 =
    copyResult Failure.isNotFound backendError
      (result answer (d.client.bytes .get (containerPath id "/archive") [("path", path)]) s).1
      (result answer (d.inspect id)
        (result answer (d.client.bytes .get (containerPath id "/archive") [("path", path)]) s).2).1 := by
  have download : d.manager.download id path = d.download id path := rfl
  rw [ContainerBuild.result_copyOut, download, Daemon.download, Dialogue.result_bind,
    Dialogue.result_lift_run]
  rcases result answer (d.client.bytes .get (containerPath id "/archive") [("path", path)]) s with
    ⟨f | body, s'⟩
  · simp only [copyResult]
    by_cases absent : f.isNotFound
    · rw [if_pos absent, if_pos absent, Dialogue.result_bind]
      rcases result answer (d.inspect id) s' with ⟨_ | _, _⟩ <;> rfl
    · rw [if_neg absent, if_neg absent]
      rfl
  · rfl

theorem copiedOut :
    let first := answer (.exchange d.client.socket d.client.timeout
      ⟨.get, Http.Target.make (containerPath id "/archive") [("path", path)], [], .empty⟩) s
    let second := answer (.exchange d.client.socket d.client.timeout
      ⟨.get, Http.Target.make (containerPath id "/json") [], [], .empty⟩) first.2
    CopiedOut id InspectContainer.fields.decode (verdict first.1) (verdict second.1)
      (result answer (d.manager.copyOut id path) s).1 := by
  intro first second
  rw [result_copyOut, result_bytes]
  exact copiedOut_copyResult (fun _ _ => rfl) (gives_bodyOf first.1) (inspected answer first.2 d id)

end Daemon
end Docker

/-- What comes of copying a file out of a container, whatever the surroundings answer. There is no file if
the archive is absent and the container is found, and the container is absent if both are. A file is the
first member of the archive that is given, as far as that goes. All else is an error, and no error but the
one says that a container is absent. On both backends it is the same, by what their replies are good for. -/
theorem copyOut_of_replies (id path : String) :
    (∀ c : Podman.Client,
      let first := answer (.exchange c.socket c.timeout
        ⟨.get, c.pathFor (Podman.Client.archivePath id path), [], .empty⟩) s
      let second := answer (.exchange c.socket c.timeout
        ⟨.get, c.pathFor (Podman.containerPath id "/json"), [], .empty⟩) first.2
      CopiedOut id Podman.InspectContainer.fields.decode
        (c.verdictOn (Podman.Client.archivePath id path) first.1)
        (c.verdictOn (Podman.containerPath id "/json") second.1)
        (result answer (c.manager.copyOut id path) s).1) ∧
      ∀ d : Docker.Daemon,
        let first := answer (.exchange d.client.socket d.client.timeout
          ⟨.get, Http.Target.make (Docker.containerPath id "/archive") [("path", path)], [], .empty⟩) s
        let second := answer (.exchange d.client.socket d.client.timeout
          ⟨.get, Http.Target.make (Docker.containerPath id "/json") [], [], .empty⟩) first.2
        CopiedOut id Docker.InspectContainer.fields.decode (Docker.verdict first.1)
          (Docker.verdict second.1) (result answer (d.manager.copyOut id path) s).1 :=
  ⟨fun c => Podman.Client.copiedOut answer s c id path,
    fun d => Docker.Daemon.copiedOut answer s d id path⟩

/-- An archive that says that its file has five bytes, and breaks off after three. -/
def cutArchive : Bytes :=
  Tar.Header.render ⟨Utf8.encode "f", 0o644, 5, Tar.Kind.regular, []⟩ ++ Utf8.encode "hel"

def cutScript : Script where
  routes := []
  otherwise := .response ⟨200, [cutArchive], none⟩
  socket := some Docker.defaultSocket
  files := FileTree.empty
  workingDirectory := []
  program := fun _ => none
  freshId := ""
  requests := []
  commands := []

theorem cutArchive_first : ∃ e rest,
    Tar.nextEntry (Source.ofBytes cutArchive) = .member (e, rest) ∧
      Archive.isFileKind e.block.kind = true ∧ e.size = 5 ∧ e.data = (Utf8.encode "hel", false) := by
  have found : (match Tar.nextEntry (Source.ofBytes cutArchive) with
      | .member (e, _) => some (Archive.isFileKind e.block.kind, e.size, e.data)
      | _ => none) = some (true, 5, Utf8.encode "hel", false) := by
    decide +kernel
  cases h : Tar.nextEntry (Source.ofBytes cutArchive) with
  | member m =>
    obtain ⟨e, rest⟩ := m
    rw [h] at found
    obtain ⟨kind, size, data⟩ : _ ∧ _ ∧ _ := by simpa using found
    exact ⟨e, rest, rfl, kind, size, data⟩
  | _ =>
    rw [h] at found
    cases found

/-- What is left of a file is copied out as if it were the whole. -/
theorem cut_file_copied_out :
    (∀ b, ¬Archive.HoldsFile cutArchive b true) ∧
      (result Script.answer ((Docker.Daemon.ofClient ⟨Docker.defaultSocket, ⟨0⟩⟩).manager.copyOut "c1"
        "/x") cutScript).1 = .ok (some (Utf8.encode "hel")) := by
  obtain ⟨e, rest, first, kind, size, data⟩ := cutArchive_first
  constructor
  · rintro b ⟨e', rest', first', -, -, whole⟩
    obtain ⟨rfl, -⟩ := Prod.mk.inj (Tar.Next.member.inj (first.symm.trans first'))
    rw [data] at whole
    cases whole
  · have copied := Docker.Daemon.copiedOut Script.answer cutScript
      (Docker.Daemon.ofClient ⟨Docker.defaultSocket, ⟨0⟩⟩) "c1" "/x"
    refine (copied.some_iff _).2 ⟨cutArchive, false, ?_, e, rest, first, kind, ?_, data⟩
    · decide +kernel
    · rw [size]
      decide

end ContainerBuild
