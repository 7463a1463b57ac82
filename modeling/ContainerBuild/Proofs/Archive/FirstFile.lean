import ContainerBuild.Archive.Pack
import ContainerBuild.Archive.Single
import ContainerBuild.Proofs.Tar.Cut

/-!
# The first file of an archive

The first member is taken as far as its data go, and its size only has to be bounded: that so many bytes
are there is not asked for. So an archive of one file that is cut within the data gives the beginning of
the file, and one that is cut elsewhere is refused or gives the whole.
-/

namespace ContainerBuild
namespace Archive

variable {archive b : Bytes}

/-- The first member of an archive is a file of bounded size, with some bytes as far as it goes. `whole`
says whether all its bytes are there. -/
def HoldsFile (archive b : Bytes) (whole : Bool) : Prop :=
  ∃ e rest, Tar.nextEntry (Source.ofBytes archive) = .member (e, rest) ∧
    isFileKind e.block.kind = true ∧ e.size ≤ maxFileSize ∧ e.data = (b, whole)

theorem firstFile_of_member {e : Tar.Entry} {rest : Option Source}
    (h : Tar.nextEntry (Source.ofBytes archive) = .member (e, rest)) :
    firstFile archive =
      if !isFileKind e.block.kind then .error (.notRegularFile (Utf8.decodeLossy e.name))
      else if maxFileSize < e.size then
        .error (.archive (Utf8.decodeLossy e.name ++ " is " ++ toString e.size ++
          " bytes, limit is " ++ toString maxFileSize))
      else .ok e.data.1 := by
  unfold firstFile
  rw [h]
  rfl

theorem firstFile_eq_ok_iff : firstFile archive = .ok b ↔ ∃ whole, HoldsFile archive b whole := by
  cases h : Tar.nextEntry (Source.ofBytes archive) with
  | member found =>
    obtain ⟨e, rest⟩ := found
    rw [firstFile_of_member h]
    constructor
    · intro ok
      split at ok
      · cases ok
      · rename_i file
        split at ok
        · cases ok
        · rename_i bounded
          refine ⟨e.data.2, e, rest, h, by simpa using file, Nat.not_lt.1 bounded, ?_⟩
          rw [← Except.ok.inj ok]
    · rintro ⟨whole, e', rest', h', file, bounded, data⟩
      obtain ⟨rfl, rfl⟩ := Prod.mk.inj (Tar.Next.member.inj (h.symm.trans h'))
      rw [if_neg (by simp [file]), if_neg (Nat.not_lt.2 bounded), data]
  | _ =>
    unfold firstFile
    rw [h]
    constructor
    · intro ok
      cases ok
    · rintro ⟨whole, e, rest, h', -⟩
      rw [h] at h'
      cases h'

theorem isNotFound_of_firstFile {e : BuildError} (h : firstFile archive = .error e) :
    e.isNotFound = false := by
  cases hn : Tar.nextEntry (Source.ofBytes archive) with
  | member found =>
    obtain ⟨entry, rest⟩ := found
    rw [firstFile_of_member hn] at h
    split at h
    · cases h
      rfl
    · split at h
      · cases h
        rfl
      · cases h
  | _ =>
    unfold firstFile at h
    rw [hn] at h
    cases h
    rfl

theorem not_sparse_of_isFileKind {kind : UInt8} (h : isFileKind kind = true) : kind ≠ Tar.Kind.sparse := by
  rintro rfl
  exact absurd h (by decide)

/-- A file is given back exactly if the first member is a file of bounded size, and what is given back are
the bytes after its header, no more than the size and no more than there are. -/
theorem firstFile_eq_ok_iff_stands : firstFile archive = .ok b ↔
    ∃ e rest before, Tar.nextEntry (Source.ofBytes archive) = .member (e, rest) ∧
      isFileKind e.block.kind = true ∧ e.size ≤ maxFileSize ∧
        archive = before ++ (e.block.bytes ++ e.body.bytes) ∧ b = e.body.bytes.take e.size := by
  rw [firstFile_eq_ok_iff]
  constructor
  · rintro ⟨whole, e, rest, h, kind, bounded, data⟩
    obtain ⟨parts, -, before, hb⟩ := Tar.exists_before_of_member h (not_sparse_of_isFileKind kind)
    rw [Tar.Entry.data, parts, Tar.fillParts_single] at data
    exact ⟨e, rest, before, h, kind, bounded, hb, (Prod.mk.inj data).1.symm⟩
  · rintro ⟨e, rest, before, h, kind, bounded, -, rfl⟩
    obtain ⟨parts, -⟩ := Tar.exists_before_of_member h (not_sparse_of_isFileKind kind)
    refine ⟨decide (e.size ≤ e.body.bytes.length), e, rest, h, kind, bounded, ?_⟩
    rw [Tar.Entry.data, parts, Tar.fillParts_single]

theorem exists_error_of_no_member (h : ∀ x, Tar.nextEntry (Source.ofBytes archive) ≠ .member x) :
    ∃ e, firstFile archive = .error e := by
  cases hx : firstFile archive with
  | error e => exact ⟨e, rfl⟩
  | ok b =>
    obtain ⟨whole, e, rest, found, -⟩ := firstFile_eq_ok_iff.1 hx
    exact absurd found (h _)

/-! ### Archives of one file -/

def fileHeader (field data : Bytes) : Tar.Header :=
  ⟨field, fileMode, data.length, Tar.Kind.regular, []⟩

section Cut

variable {name : String} {text before field data : Bytes} {k : Nat}

theorem fileHeader_fits (fieldFits : field.length ≤ Tar.nameWidth)
    (size : data.length ≤ Text.maxSigned64) : (fileHeader field data).Fits := by
  have mode : fileMode < Tar.octalLimit 8 := by decide
  exact ⟨fieldFits, mode, Nat.le_trans size (by decide), Nat.zero_le _⟩

/-- The archive of one file: what its name needs, its header, and its data. -/
theorem ofBytes_eq (parts : Tar.nameParts (Utf8.encode name) = .ok (before, field)) :
    ofBytes data name = .ok (before ++
      ((fileHeader field data).render ++ (Tar.blocks data ++ Tar.ending))) := by
  have render := Tar.Member.render_eq (m := fileMember name fileMode data) parts
  rw [ofBytes, ofMembers, Tar.write, Tar.renderAll, render]
  change Except.ok (_ ++ [] ++ _ ++ _ ++ [] ++ _) = _
  simp only [List.append_nil, List.append_assoc]
  rfl

theorem exists_head_of_ofBytes (h : ofBytes data name = .ok archive) : ∃ before field,
    (before = [] ∨ before = Tar.longText Tar.Kind.longName (Utf8.encode name)) ∧
      field.length ≤ Tar.nameWidth ∧
        archive = before ++ ((fileHeader field data).render ++ (Tar.blocks data ++ Tar.ending)) := by
  cases parts : Tar.nameParts (Utf8.encode name) with
  | error flaw =>
    have render : (fileMember name fileMode data).render = .error flaw := by
      rw [Tar.Member.render, fileMember, parts]
      rfl
    rw [ofBytes, ofMembers, Tar.write, Tar.renderAll, render] at h
    cases h
  | ok parts' =>
    obtain ⟨before, field⟩ := parts'
    obtain ⟨before_eq, fits⟩ := Tar.before_of_nameParts parts
    rw [ofBytes_eq parts] at h
    exact ⟨before, field, before_eq, fits, (Except.ok.inj h).symm⟩

/-- What stands before the header makes the name known, whatever comes next. -/
theorem exists_announces (before_eq : before = [] ∨ before = Tar.longText Tar.Kind.longName text)
    (size : text.length ≤ Text.maxSigned64) :
    ∃ p, Tar.Announces 1 before Tar.Pending.none p ∧ p.attributes = none := by
  rcases before_eq with rfl | rfl
  · exact ⟨_, .nil 1 _, rfl⟩
  · exact ⟨_, Tar.announces_longText (Tar.add_blockSize_le size) (.inl rfl) rfl rfl, rfl⟩

theorem exists_nextEntry_eq {p : Tar.Pending} {rest : Bytes} (h : Tar.Announces 1 before Tar.Pending.none p)
    (nonempty : before ++ rest ≠ []) : ∃ fuel, Tar.nextEntry (Source.ofBytes (before ++ rest)) =
      Tar.nextEntryFrom (fuel + 1) (Source.ofBytes rest) p := by
  obtain ⟨fuel', enough, read⟩ := h rest (before ++ rest).length
  have := List.length_pos_iff.2 nonempty
  obtain ⟨fuel, rfl⟩ : ∃ fuel, fuel' = fuel + 1 := ⟨fuel' - 1, by omega⟩
  exact ⟨fuel, read⟩

/-- An archive that is cut before the end of the header is refused. -/
theorem firstFile_cut_head (before_eq : before = [] ∨ before = Tar.longText Tar.Kind.longName text)
    (size : text.length ≤ Text.maxSigned64) (cut : k < before.length + Tar.blockSize) (rest : Bytes) :
    ∃ e, firstFile ((before ++ rest).take k) = .error e := by
  refine exists_error_of_no_member fun x => ?_
  by_cases within : k < before.length
  · rw [List.take_append_of_le_length (Nat.le_of_lt within)]
    rcases before_eq with rfl | rfl
    · cases within
    · exact Tar.nextEntryFrom_cut_longText (Tar.add_blockSize_le size) (.inl rfl) rfl within x
  · obtain ⟨j, rfl⟩ : ∃ j, k = before.length + j := ⟨k - before.length, by omega⟩
    rw [List.take_length_add_append]
    have short : (Source.ofBytes (rest.take j)).bytes.length < Tar.blockSize := by
      simp only [Source.ofBytes, List.length_take]
      omega
    obtain ⟨p, announces, -⟩ := exists_announces before_eq size
    by_cases nothing : before ++ rest.take j = []
    · rw [nothing]
      exact Tar.nextEntryFrom_short (by decide) x
    · obtain ⟨fuel, read⟩ := exists_nextEntry_eq announces nothing
      rw [read]
      exact Tar.nextEntryFrom_short short x

theorem firstFile_header (before_eq : before = [] ∨ before = Tar.longText Tar.Kind.longName text)
    (textSize : text.length ≤ Text.maxSigned64) (fieldFits : field.length ≤ Tar.nameWidth)
    (size : data.length ≤ Text.maxSigned64) (rest : Bytes) :
    (maxFileSize < data.length →
      ∃ e, firstFile (before ++ ((fileHeader field data).render ++ rest)) = .error e) ∧
    (data.length ≤ maxFileSize →
      firstFile (before ++ ((fileHeader field data).render ++ rest)) = .ok (rest.take data.length)) := by
  have fits := fileHeader_fits fieldFits size
  have room : (fileHeader field data).size + (Tar.blockSize - 1) ≤ Text.maxUnsigned64 :=
    Nat.le_trans (Nat.add_le_add_left (Nat.sub_le _ 1) _) (Tar.add_blockSize_le size)
  have kind : (fileHeader field data).block.kind = Tar.Kind.regular := Tar.Header.kind_block fits
  have own : (fileHeader field data).block.isForNext = false := by
    rw [Tar.Block.isForNext, kind, Bool.and_eq_false_iff]
    exact .inr rfl
  obtain ⟨p, announces, attributes⟩ := exists_announces before_eq textSize
  have nonempty : before ++ ((fileHeader field data).render ++ rest) ≠ [] := by
    have := Tar.Header.length_render fits
    intro h
    rw [(List.append_eq_nil_iff.1 (List.append_eq_nil_iff.1 h).2).1] at this
    cases this
  obtain ⟨fuel, read⟩ := exists_nextEntry_eq announces nonempty
  have dense : (fileHeader field data).kind ≠ Tar.Kind.sparse := by
    change Tar.Kind.regular ≠ Tar.Kind.sparse
    decide
  rw [Tar.nextEntryFrom_header fits room attributes own dense] at read
  have file : isFileKind (fileHeader field data).block.kind = true := by
    rw [kind]
    rfl
  rw [firstFile_of_member read]
  simp only [file, Bool.not_true, Bool.false_eq_true, if_false]
  constructor
  · intro large
    exact ⟨_, if_pos large⟩
  · intro bounded
    rw [Tar.Entry.data, Tar.fillParts_single]
    exact if_neg (Nat.not_lt.2 bounded)

/-- The archive of one file is cut behind the header: what is left of the data is what is read. -/
theorem firstFile_cut_data (before_eq : before = [] ∨ before = Tar.longText Tar.Kind.longName text)
    (textSize : text.length ≤ Text.maxSigned64) (fieldFits : field.length ≤ Tar.nameWidth)
    (size : data.length ≤ Text.maxSigned64) (more : Bytes) (j : Nat) :
    (maxFileSize < data.length → ∃ e, firstFile ((before ++ ((fileHeader field data).render ++
      (data ++ more))).take (before.length + Tar.blockSize + j)) = .error e) ∧
    (data.length ≤ maxFileSize → firstFile ((before ++ ((fileHeader field data).render ++
      (data ++ more))).take (before.length + Tar.blockSize + j)) = .ok (data.take j)) := by
  have split : (before ++ ((fileHeader field data).render ++ (data ++ more))).take
      (before.length + Tar.blockSize + j) =
        before ++ ((fileHeader field data).render ++ (data ++ more).take j) := by
    rw [Nat.add_assoc, List.take_length_add_append,
      ← Tar.Header.length_render (fileHeader_fits fieldFits size), List.take_length_add_append]
  have left : ((data ++ more).take j).take data.length = data.take j := by
    rw [List.take_take, Nat.min_comm, ← List.take_take, List.take_left]
  rw [split, ← left]
  exact firstFile_header before_eq textSize fieldFits size _

/-- A file is given back as far as it goes: that its size is bounded is asked for, and not that all of it is
there. Of an archive of one file every beginning is refused that ends before the data, and all are if the
file is too large. Else a beginning gives what it has of the data. So one that ends within the data is
neither refused nor read as the whole, and no other is so. -/
theorem first_file_as_far_as_it_goes (archive : Bytes) :
    (∀ content, firstFile archive = .ok content ↔
      ∃ e rest before, Tar.nextEntry (Source.ofBytes archive) = .member (e, rest) ∧
        isFileKind e.block.kind = true ∧ e.size ≤ maxFileSize ∧
          archive = before ++ (e.block.bytes ++ e.body.bytes) ∧ content = e.body.bytes.take e.size) ∧
    ∀ data name, data.length ≤ Text.maxSigned64 → (Utf8.encode name).length ≤ Text.maxSigned64 →
      ofBytes data name = .ok archive →
        ∃ head, archive = head ++ (Tar.blocks data ++ Tar.ending) ∧ ∀ k,
          (k < head.length ∨ maxFileSize < data.length → ∃ e, firstFile (archive.take k) = .error e) ∧
          (head.length ≤ k → data.length ≤ maxFileSize →
            firstFile (archive.take k) = .ok (data.take (k - head.length))) ∧
          ((∃ e, firstFile (archive.take k) = .error e) ∨ firstFile (archive.take k) = .ok data ↔
            ¬(data.length ≤ maxFileSize ∧ head.length ≤ k ∧ k < head.length + data.length)) := by
  refine ⟨fun _ => firstFile_eq_ok_iff_stands, fun data name size nameSize h => ?_⟩
  obtain ⟨before, field, before_eq, fieldFits, rfl⟩ := exists_head_of_ofBytes h
  have header := Tar.Header.length_render (fileHeader_fits fieldFits size)
  refine ⟨before ++ (fileHeader field data).render, by simp only [List.append_assoc], fun k => ?_⟩
  rw [List.length_append, header]
  have cut : k < before.length + Tar.blockSize → ∃ e, firstFile ((before ++
      ((fileHeader field data).render ++ (Tar.blocks data ++ Tar.ending))).take k) = .error e :=
    fun short => firstFile_cut_head before_eq nameSize short _
  obtain ⟨more, hmore⟩ := Tar.blocks_append_eq data Tar.ending
  rw [hmore] at cut ⊢
  have left := firstFile_cut_data before_eq nameSize fieldFits size more (k - (before.length + Tar.blockSize))
  by_cases short : k < before.length + Tar.blockSize
  · refine ⟨fun _ => cut short, fun long => absurd short (Nat.not_lt.2 long), ?_⟩
    exact iff_of_true (.inl (cut short)) fun ⟨_, long, _⟩ => absurd short (Nat.not_lt.2 long)
  · have long := Nat.not_lt.1 short
    rw [Nat.add_sub_cancel' long] at left
    refine ⟨fun h => left.1 (h.resolve_left short), fun _ => left.2, ?_⟩
    by_cases bounded : data.length ≤ maxFileSize
    · rw [left.2 bounded]
      constructor
      · rintro (⟨e, refused⟩ | whole) ⟨-, -, within⟩
        · cases refused
        · have length := congrArg List.length (Except.ok.inj whole)
          rw [List.length_take] at length
          omega
      · intro outside
        right
        rw [List.take_of_length_le]
        omega
    · exact iff_of_true (.inl (left.1 (Nat.not_le.1 bounded))) fun ⟨h, _⟩ => bounded h

theorem nameParts_f : Tar.nameParts (Utf8.encode "f") = .ok ([], Utf8.encode "f") :=
  Tar.nameParts_of_short (p := [Utf8.encode "f"]) (by decide) (by decide) (by decide)

theorem first_file_of_hello :
    ((Utf8.encode "hello").length ≤ Text.maxSigned64 ∧ (Utf8.encode "f").length ≤ Text.maxSigned64) ∧
      ∃ archive head, ofBytes (Utf8.encode "hello") "f" = .ok archive ∧
        archive = head ++ (Tar.blocks (Utf8.encode "hello") ++ Tar.ending) ∧ ∀ k,
          (k < head.length → ∃ e, firstFile (archive.take k) = .error e) ∧
          (head.length ≤ k →
            firstFile (archive.take k) = .ok ((Utf8.encode "hello").take (k - head.length))) := by
  have size : (Utf8.encode "hello").length ≤ Text.maxSigned64 := by decide
  have nameSize : (Utf8.encode "f").length ≤ Text.maxSigned64 := by decide
  have made : ofBytes (Utf8.encode "hello") "f" = .ok _ := ofBytes_eq nameParts_f
  obtain ⟨head, split, cuts⟩ := (first_file_as_far_as_it_goes _).2 _ _ size nameSize made
  exact ⟨⟨size, nameSize⟩, _, head, made, split, fun k =>
    ⟨fun short => (cuts k).1 (.inl short), fun long => (cuts k).2.1 long (by decide)⟩⟩

/-- The first three of five bytes, after a header that says that there are five, are read as a file. -/
theorem hello_cut_after_three_bytes : ∃ archive, ofBytes (Utf8.encode "hello") "f" = .ok archive ∧
    515 < archive.length ∧ firstFile (archive.take 515) = .ok (Utf8.encode "hel") := by
  have size : (Utf8.encode "hello").length ≤ Text.maxSigned64 := by decide
  have nameSize : (Utf8.encode "f").length ≤ Text.maxSigned64 := by decide
  have fits : (Utf8.encode "f").length ≤ Tar.nameWidth := by decide
  have nothing : ([] : Bytes) = [] ∨ ([] : Bytes) = Tar.longText Tar.Kind.longName (Utf8.encode "f") :=
    .inl rfl
  have read := (firstFile_cut_data nothing nameSize fits size (List.replicate 507 0 ++ Tar.ending) 3).2
    (by decide)
  refine ⟨_, ofBytes_eq nameParts_f, ?_, ?_⟩
  · decide +kernel
  · exact read

end Cut

end Archive
end ContainerBuild
