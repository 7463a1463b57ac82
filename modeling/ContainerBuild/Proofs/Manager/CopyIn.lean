import ContainerBuild.Manager.Copy
import ContainerBuild.Proofs.Archive.Overwriting
import ContainerBuild.Proofs.Container.Destination
import ContainerBuild.Proofs.FilePath.Beginnings

/-!
# Copying a file into a container

A copy into a container is refused before anything is uploaded, if its path cannot be the path of a file.
Otherwise it is one upload of an archive with one member. What is uploaded, and to which directory, has the
steps of the path, so that whoever unpacks the archive there makes the file at the path and nothing else.
-/

namespace ContainerBuild
namespace ContainerManager

open FilePath Archive
open Utf8 (encode)

variable {N : Type → Type} [Monad N]

theorem ofOutcome_ok_bind [LawfulMonad N] {α β : Type} (a : α) (f : α → ExceptT BuildError N β) :
    ofOutcome (.ok a) >>= f = f a :=
  pure_bind a f

theorem ofOutcome_error_bind [LawfulMonad N] {α β : Type} (e : BuildError)
    (f : α → ExceptT BuildError N β) : ofOutcome (.error e) >>= f = throw e := by
  apply ExceptT.ext
  simp [ofOutcome]

/-- An upload for a path: one file in one archive, for a directory that has the steps of the path together
with the name of the file. Unpacked there, the archive makes the file at the path and changes nothing else, if
nothing or a file is there before. A path of one name stands for one in the root. -/
structure IsUploadFor (path : Bytes) (data : Bytes) (d : Destination) (archive : Bytes) : Prop where
  single : components (encode d.name) = [.name (encode d.name)]
  joined : components (encode (CommandLine.joinPath d.directory d.name)) = components path ∨
    components path = [.name (encode d.name)] ∧ d.directory = "/"
  member : ∃ e, Tar.entries (.ofBytes archive) = ([e], true) ∧ e.name = encode d.name ∧
    e.block.kind = Tar.Kind.regular ∧ e.block.mode? = some 0o755 ∧ e.data = (data, true)
  unpacked : ∀ (t : FileTree) a, t.canonical (way (encode d.directory)) = .ok a →
    t.isDirectoryAt a = true →
    (∀ t', extract t (way (encode d.directory)) archive = (.ok (), t') →
      ∃ place, t.follow false (way path) = .ok place ∧
        ∀ q, t'.node? q = if place = q then some (.file 0o755 data) else t.node? q) ∧
    ∀ place, t.follow false (way path) = .ok place →
      (∀ x, t.node? place = some x → ∃ mode data, x = .file mode data) →
      ∃ t', extract t (way (encode d.directory)) archive = (.ok (), t')

theorem exists_isUploadFor {path data : Bytes} {d : Destination}
    (parts : Destination.Parts (components path) d.directory d.name) (zero : 0 ∉ path)
    (pathSize : path.length ≤ Text.maxSigned64) (size : data.length ≤ Text.maxSigned64) :
    ∃ archive, ofBytes data d.name = .ok archive ∧ IsUploadFor path data d archive := by
  have step := parts.isName
  have last : Component.name (encode d.name) ∈ components path := by
    rcases parts.eq with eq | ⟨eq, -⟩ <;> simp [eq]
  have steps : IsMemberName (encode d.name) := by
    intro n hn
    rw [Bytes.split_of_notMem step.no_slash] at hn
    obtain rfl := List.mem_singleton.1 hn
    exact ⟨step, zero_notMem_of_mem_components zero last⟩
  have nameSize : (encode d.name).length ≤ Text.maxSigned64 :=
    Nat.le_trans (length_le_of_mem_components last) pathSize
  obtain ⟨archive, e, made, entries, read, plain⟩ := exists_single steps size nameSize
  refine ⟨archive, made, ?_, ?_, ⟨e, entries, read.name, read.kind, read.mode, read.data⟩, ?_⟩
  · have single := components_intercalate (p := [encode d.name]) (by simpa using step)
    rwa [List.intercalate_singleton] at single
  · rw [components_joinPath parts.nonempty step]
    exact parts.eq.imp_left Eq.symm
  · intro t a ha directory
    rw [parts.way]
    exact extract_into ha directory step plain entries read

/-- A copy to a path that cannot be the path of a file fails, and does nothing else. A copy of a text or of a
file to any other path is one upload for that path, if there is no zero byte in it. -/
theorem copies_of_path [LawfulMonad N] (m : ContainerManager (ExceptT BuildError N)) (id p : String)
    (pathSize : (encode p).length ≤ Text.maxSigned64) :
    (¬NamesFile (encode p) → ∃ flaw : Destination.Flaw,
      (∀ content, m.copyContent id content p = throw (.archive (flaw.reason p))) ∧
      ∀ host path, m.copyFile host id path p = throw (.archive (flaw.reason p))) ∧
    (NamesFile (encode p) → 0 ∉ encode p → ∃ d, Destination.parse p = .ok d ∧
      ∀ data : Bytes, data.length ≤ Text.maxSigned64 → ∃ archive,
        IsUploadFor (encode p) data d archive ∧
        (∀ content, encode content = data →
          m.copyContent id content p = m.upload id d.directory archive) ∧
        ∀ (host : FileTree) path mode, host.stat path = .ok (.file mode data) →
          m.copyFile host id path p = m.upload id d.directory archive) := by
  rcases Destination.parse_cases p with ⟨names, d, parsed, parts⟩ | ⟨other, flaw, refused⟩
  · refine ⟨fun h => absurd names h, fun _ zero => ⟨d, parsed, fun data size => ?_⟩⟩
    obtain ⟨archive, made, upload⟩ := exists_isUploadFor parts zero pathSize size
    refine ⟨archive, upload, ?_, ?_⟩
    · rintro content rfl
      rw [copyContent, parsed, ofOutcome_ok_bind, ofText, made, ofOutcome_ok_bind]
    · intro host path mode there
      rw [copyFile, parsed, ofOutcome_ok_bind, ofFile, there]
      simp only
      rw [made, ofOutcome_ok_bind]
  · refine ⟨fun _ => ⟨flaw, fun content => ?_, fun host path => ?_⟩, fun h => absurd h other⟩
    · rw [copyContent, refused, ofOutcome_error_bind]
    · rw [copyFile, refused, ofOutcome_error_bind]

/-- A manager that keeps a list of what is uploaded. -/
def recorder : ContainerManager (ExceptT BuildError (StateM (List (String × String × Bytes)))) :=
  { refusing "recorder" with upload := fun id directory archive => modify (· ++ [(id, directory, archive)]) }

theorem copies_of_path_with_dots :
    ((encode "/app//bin/./run").length ≤ Text.maxSigned64 ∧ NamesFile (encode "/app//bin/./run")) ∧
    ∃ archive, (recorder.copyContent "c1" "hi" "/app//bin/./run").run [] =
        (.ok (), [("c1", "/app//bin", archive)]) ∧
      IsUploadFor (encode "/app//bin/./run") (encode "hi") ⟨"/app//bin", "run"⟩ archive := by
  have size : (encode "/app//bin/./run").length ≤ Text.maxSigned64 := by decide
  have names : NamesFile (encode "/app//bin/./run") := ⟨by decide, encode "run", by decide⟩
  obtain ⟨d, parsed, upload⟩ := (copies_of_path recorder "c1" _ size).2 names (by decide)
  have taken : Destination.parse "/app//bin/./run" = .ok ⟨"/app//bin", "run"⟩ := by decide
  obtain rfl : d = ⟨"/app//bin", "run"⟩ := Except.ok.inj (parsed.symm.trans taken)
  obtain ⟨archive, isUpload, text, -⟩ := upload (encode "hi") (by decide)
  refine ⟨⟨size, names⟩, archive, ?_, isUpload⟩
  rw [text "hi" rfl]
  rfl

end ContainerManager
end ContainerBuild
