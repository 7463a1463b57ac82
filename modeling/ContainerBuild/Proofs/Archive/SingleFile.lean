import ContainerBuild.Proofs.Archive.BuildContext
import ContainerBuild.Proofs.Archive.FirstFile
import ContainerBuild.Proofs.Archive.Parents

/-!
# One file, packed and unpacked

A file can be packed alone under any name that is made of steps, however long. All that is in the archive
is that file. It is read back, and unpacked into an empty directory with the directories on the way to it,
as far as the file system takes their names.
-/

namespace ContainerBuild
namespace Archive

open FileTree FilePath

/-- A name that is made of steps: of the pieces between its slashes none is empty, none is a dot or two,
and none has a zero byte. -/
def IsMemberName (name : Bytes) : Prop :=
  ∀ n ∈ Bytes.split slash name, IsName n ∧ 0 ∉ n

instance (name : Bytes) : Decidable (IsMemberName name) :=
  inferInstanceAs (Decidable (∀ n ∈ Bytes.split slash name, IsName n ∧ 0 ∉ n))

/-- A tree with one more file, at the end of a way below a directory, and with the directories on that
way. Nothing else has changed. -/
structure OneFileMore (t₀ : FileTree) (d p : Place) (data : Bytes) (t₁ : FileTree) : Prop where
  file : t₁.node? (d ++ p) = some (.file fileMode data)
  parents : ∀ q, q ≠ [] → q <+: p → q ≠ p → t₁.node? (d ++ q) = some (.directory newDirectoryMode)
  others : ∀ q, (∀ q', q' ≠ [] → q' <+: p → q ≠ d ++ q') → t₁.node? q = t₀.node? q

variable {t t₀ : FileTree} {dest : List Name} {d init p : Place} {n : Name} {x : FileNode}
variable {data : Bytes} {name : String} {e : Tar.Entry}

/-! ### The archive -/

theorem legible_fileMember (steps : IsMemberName (Utf8.encode name)) (size : data.length ≤ Text.maxSigned64)
    (nameSize : (Utf8.encode name).length ≤ Text.maxSigned64) :
    (fileMember name fileMode data).Legible := by
  have mode : fileMode < Tar.octalLimit 8 := by decide
  exact ⟨⟨_, Bytes.split_ne_nil slash _, steps, (Bytes.intercalate_split slash _).symm⟩, ⟨name, rfl⟩, mode,
    Tar.add_blockSize_le nameSize, Tar.add_blockSize_le size, fun _ h => Tar.Content.noConfusion h⟩

theorem exists_single (steps : IsMemberName (Utf8.encode name)) (size : data.length ≤ Text.maxSigned64)
    (nameSize : (Utf8.encode name).length ≤ Text.maxSigned64) :
    ∃ archive e, ofBytes data name = .ok archive ∧ Tar.entries (.ofBytes archive) = ([e], true) ∧
      e.ReadAs (fileMember name fileMode data) ∧ Gzip.hasSignature archive = false := by
  have legible : ∀ m ∈ [fileMember name fileMode data], m.Legible := by
    intro m hm
    rw [List.mem_singleton.1 hm]
    exact legible_fileMember steps size nameSize
  obtain ⟨archive, es, written, entries, read⟩ :=
    Tar.exists_entries fun m hm => (legible m hm).writable
  cases read with
  | cons head tail =>
    cases tail
    exact ⟨archive, _, ofMembers_eq_ok_iff.2 written, entries, head,
      Tar.hasSignature_write legible written⟩

theorem firstFile_ofBytes {archive : Bytes} (size : data.length ≤ maxFileSize)
    (nameSize : (Utf8.encode name).length ≤ Text.maxSigned64) (h : ofBytes data name = .ok archive) :
    firstFile archive = .ok data := by
  obtain ⟨before, field, before_eq, fits, rfl⟩ := exists_head_of_ofBytes h
  have small : data.length ≤ Text.maxSigned64 := Nat.le_trans size (by decide)
  obtain ⟨more, hmore⟩ := Tar.blocks_append_eq data Tar.ending
  rw [(firstFile_header before_eq nameSize fits small _).2 size, hmore, List.take_left]

/-! ### Unpacking -/

theorem shows_of_single (read : e.ReadAs (fileMember name fileMode data)) :
    Shows e (Bytes.split slash (Utf8.encode name), .file fileMode data) := by
  refine ⟨_, ?_, read⟩
  have describes : Describes (Bytes.split slash (Utf8.encode name)) (.file fileMode data)
      ⟨memberName (Bytes.split slash (Utf8.encode name)), fileMode, .file data⟩ := .file data rfl
  rwa [memberName, Bytes.intercalate_split] at describes

/-- A member is unpacked into an empty directory as if the directories on its way came before it. -/
theorem exists_unpackEntry_alone (target : EmptyDirectory t₀ dest d)
    (names : ∀ m ∈ init ++ [n], IsName m ∧ 0 ∉ m ∧ m.length ≤ maxName)
    (shows : Shows e (init ++ [n], x)) : ∃ t₁, (unpackEntry dest e).run t₀ = (.ok (), t₁) ∧
      Placed t₀ dest d (directoriesOn init ++ [(init ++ [n], x)]) t₁ := by
  obtain ⟨hd, directory, empty⟩ := target
  have around : ∀ m ∈ init, IsName m ∧ 0 ∉ m ∧ m.length ≤ maxName := fun m hm => names m (by simp [hm])
  obtain ⟨t', made, placed⟩ := exists_run_makeMissing hd directory empty around
  have orderly := orderly_directoriesOn around
  have ready := ready_directoriesOn names
  obtain ⟨leads, -⟩ := canonical_of_placed placed directory around
  obtain ⟨t₁, run, placed₁⟩ := placed.unpackEntry directory empty orderly ready shows
  refine ⟨t₁, ?_, placed₁⟩
  -- The directories that are made for the member are there in the other run from the start.
  have steps : ∀ m ∈ init ++ [n], IsName m := fun m hm => (names m hm).1
  have ensured := run_ensureAround_of_empty hd empty fun m hm => (around m hm).1
  rw [made] at ensured
  rw [run_unpackEntry (run_ensureAround leads) placed.leads leads (List.prefix_append d init) steps
    shows.name] at run
  rw [run_unpackEntry ensured placed.leads leads (List.prefix_append d init) steps shows.name, run]

theorem run_unpackEntry_of_long (target : EmptyDirectory t₀ dest d)
    (names : ∀ m ∈ init ++ [n], IsName m ∧ 0 ∉ m) (long : ∃ m ∈ init ++ [n], maxName < m.length)
    (kind : e.block.kind = Tar.Kind.regular) (name : e.name = memberName (init ++ [n])) :
    ((unpackEntry dest e).run t₀).1 = .error (.archive SystemFault.nameTooLong.text) := by
  obtain ⟨hd, directory, empty⟩ := target
  have around : ∀ m ∈ init, IsName m ∧ 0 ∉ m := fun m hm => names m (by simp [hm])
  have ensured := run_ensureAround_of_empty hd empty fun m hm => (around m hm).1
  rcases exists_long_concat long with earlier | ⟨fits, last⟩
  · obtain ⟨t', made⟩ := exists_run_makeMissing_of_long hd directory empty around earlier
    rw [unpackEntry_eq (fun m hm => (names m hm).1) name, run_bind, ensured, made]
  · have short : ∀ m ∈ init, IsName m ∧ 0 ∉ m ∧ m.length ≤ maxName := fun m hm =>
      ⟨(around m hm).1, (around m hm).2, fits m hm⟩
    obtain ⟨t', made, placed⟩ := exists_run_makeMissing hd directory empty short
    obtain ⟨leads, inside⟩ := canonical_of_placed placed directory short
    obtain ⟨step, zero⟩ := names n (by simp)
    rw [made] at ensured
    have plain := not_isOldDirectory (fun m hm => (names m hm).1.toIsPiece) name
    have create := create_of_long (x := .file newFileMode e.data.1) leads inside step zero last
    have other : SystemFault.nameTooLong ≠ .alreadyExists := by decide
    rw [run_unpackEntry ensured placed.leads leads (List.prefix_append d init)
      (fun m hm => (names m hm).1) name, place_file kind plain, unpackFile]
    simp only
    rw [run_bind, replaceWith, run_get_bind]
    simp only [create, if_neg other]
    rfl

theorem oneFileMore_of_placed {t₁ : FileTree}
    (placed : Placed t₀ dest d (directoriesOn init ++ [(init ++ [n], .file fileMode data)]) t₁) :
    OneFileMore t₀ d (init ++ [n]) data t₁ := by
  refine ⟨?_, fun q hq before proper => ?_, fun q other => placed.others q fun q' y hq' => ?_⟩
  · obtain ⟨y, hy, alike⟩ := placed.nodes (init ++ [n]) (.file fileMode data) (by simp)
    cases alike
    exact hy
  · have on := (List.prefix_concat_iff.1 before).resolve_left proper
    obtain ⟨y, hy, alike⟩ := placed.nodes q (.directory newDirectoryMode)
      (List.mem_append_left _ (mem_directoriesOn_iff.2 ⟨hq, on, rfl⟩))
    cases alike
    exact hy
  · rcases List.mem_append.1 hq' with h | h
    · obtain ⟨nonempty, on, -⟩ := mem_directoriesOn_iff.1 h
      exact other q' nonempty (on.trans (List.prefix_append init [n]))
    · obtain ⟨rfl, -⟩ := Prod.mk.inj (List.mem_singleton.1 h)
      exact other _ (by simp) List.prefix_rfl

theorem extract_alone (hd : t.canonical dest = .ok d) (directory : t.isDirectoryAt d = true)
    {archive : Bytes} (plain : Gzip.hasSignature archive = false)
    (entries : Tar.entries (.ofBytes archive) = ([e], true)) :
    extract t dest archive = (unpackEntry dest e).run t := by
  rw [extract_of_directory hd directory plain entries, unpackEntries, run_bind]
  rcases (unpackEntry dest e).run t with ⟨_ | _, t₁⟩ <;> rfl

/-- What comes of unpacking the one member of a file into an empty directory. -/
theorem extract_single (target : EmptyDirectory t₀ dest d) {archive : Bytes}
    (steps : IsMemberName (Utf8.encode name)) (plain : Gzip.hasSignature archive = false)
    (entries : Tar.entries (.ofBytes archive) = ([e], true))
    (read : e.ReadAs (fileMember name fileMode data)) :
    ((∀ n ∈ Bytes.split slash (Utf8.encode name), n.length ≤ maxName) →
      ∃ t₁, extract t₀ dest archive = (.ok (), t₁) ∧
        OneFileMore t₀ d (Bytes.split slash (Utf8.encode name)) data t₁) ∧
    ((∃ n ∈ Bytes.split slash (Utf8.encode name), maxName < n.length) →
      (extract t₀ dest archive).1 = .error (.archive SystemFault.nameTooLong.text)) := by
  have shows := shows_of_single read
  have kind := read.kind
  obtain ⟨init, n, way⟩ : ∃ init n, Bytes.split slash (Utf8.encode name) = init ++ [n] := by
    rcases List.eq_nil_or_concat (Bytes.split slash (Utf8.encode name)) with h | ⟨init, n, h⟩
    · exact absurd h (Bytes.split_ne_nil slash _)
    · exact ⟨init, n, by rw [h, List.concat_eq_append]⟩
  rw [IsMemberName, way] at steps
  rw [way] at shows ⊢
  rw [extract_alone target.leads target.directory plain entries]
  constructor
  · intro short
    obtain ⟨t₁, run, placed⟩ := exists_unpackEntry_alone target
      (fun m hm => ⟨(steps m hm).1, (steps m hm).2, short m hm⟩) shows
    exact ⟨t₁, run, oneFileMore_of_placed placed⟩
  · intro long
    exact run_unpackEntry_of_long target steps long kind shows.name

/-- A file of bounded size can be packed under any name that is made of steps. The archive has one member:
a regular file with that name, with its mode, and with the bytes, which are read back. Unpacked into an
empty directory, it gives the file and the directories on the way to it, and nothing else, if the file
system takes each name on the way; if not, unpacking fails for that reason. A text and a file that have
these bytes are packed in the same way. -/
theorem one_file_everywhere (data : Bytes) (name : String) (size : data.length ≤ maxFileSize)
    (nameSize : (Utf8.encode name).length ≤ Text.maxSigned64)
    (steps : IsMemberName (Utf8.encode name)) :
    ∃ archive e, ofBytes data name = .ok archive ∧
      (Tar.entries (.ofBytes archive) = ([e], true) ∧ e.name = Utf8.encode name ∧
        e.block.kind = Tar.Kind.regular ∧ e.block.mode? = some 0o755 ∧ e.data = (data, true)) ∧
      firstFile archive = .ok data ∧
      (∀ t₀ dest d, EmptyDirectory t₀ dest d →
        ((∀ n ∈ Bytes.split slash (Utf8.encode name), n.length ≤ maxName) →
          ∃ t₁, extract t₀ dest archive = (.ok (), t₁) ∧
            OneFileMore t₀ d (Bytes.split slash (Utf8.encode name)) data t₁) ∧
        ((∃ n ∈ Bytes.split slash (Utf8.encode name), maxName < n.length) →
          (extract t₀ dest archive).1 = .error (.archive SystemFault.nameTooLong.text))) ∧
      (∀ content, Utf8.encode content = data → ofText content name = .ok archive) ∧
      ∀ (t : FileTree) path mode, t.stat path = .ok (.file mode data) →
        ofFile t path name = .ok archive := by
  have small : data.length ≤ Text.maxSigned64 := Nat.le_trans size (by decide)
  obtain ⟨archive, e, made, entries, read, plain⟩ := exists_single steps small nameSize
  refine ⟨archive, e, made, ⟨entries, read.name, read.kind, read.mode, read.data⟩,
    firstFile_ofBytes size nameSize made, fun t₀ dest d target =>
      extract_single target steps plain entries read, ?_, ?_⟩
  · rintro content rfl
    exact made
  · intro t path mode there
    rw [ofFile, there]
    exact made

/-- A small file with a directory on the way to it. -/
theorem one_file_everywhere_sample :
    ((Utf8.encode "hi").length ≤ maxFileSize ∧ (Utf8.encode "bin/run").length ≤ Text.maxSigned64 ∧
      IsMemberName (Utf8.encode "bin/run")) ∧
    ∃ archive t₁, ofBytes (Utf8.encode "hi") "bin/run" = .ok archive ∧
      firstFile archive = .ok (Utf8.encode "hi") ∧
      extract emptyTarget [Utf8.encode "out"] archive = (.ok (), t₁) ∧
      OneFileMore emptyTarget [Utf8.encode "out"] [Utf8.encode "bin", Utf8.encode "run"]
        (Utf8.encode "hi") t₁ := by
  have size : (Utf8.encode "hi").length ≤ maxFileSize := by decide
  have nameSize : (Utf8.encode "bin/run").length ≤ Text.maxSigned64 := by decide
  have steps : IsMemberName (Utf8.encode "bin/run") := by decide
  obtain ⟨archive, -, made, -, read, unpacked, -⟩ := one_file_everywhere _ _ size nameSize steps
  obtain ⟨t₁, run, more⟩ := (unpacked _ _ _ emptyDirectory_emptyTarget).1 (by decide)
  exact ⟨⟨size, nameSize, steps⟩, archive, t₁, made, read, run, more⟩

def longName : String := String.ofList (List.replicate 256 'n')

theorem split_longName : Bytes.split slash (Utf8.encode longName) = [List.replicate 256 0x6E] := by
  decide +kernel

/-- A file can be packed under such a name, and the archive cannot be unpacked. -/
theorem long_step_not_unpacked : IsMemberName (Utf8.encode longName) ∧
    ∃ archive, ofBytes (Utf8.encode "x") longName = .ok archive ∧
      (extract emptyTarget [Utf8.encode "out"] archive).1 =
        .error (.archive SystemFault.nameTooLong.text) := by
  have steps : IsMemberName (Utf8.encode longName) := by
    rw [IsMemberName, split_longName]
    decide
  have nameSize : (Utf8.encode longName).length ≤ Text.maxSigned64 := by decide +kernel
  have size : (Utf8.encode "x").length ≤ Text.maxSigned64 := by decide
  obtain ⟨archive, e, made, entries, read, plain⟩ := exists_single steps size nameSize
  refine ⟨steps, archive, made, ?_⟩
  refine (extract_single emptyDirectory_emptyTarget steps plain entries read).2 ?_
  rw [split_longName]
  refine ⟨_, List.mem_singleton.2 rfl, ?_⟩
  rw [List.length_replicate]
  decide

end Archive
end ContainerBuild
