import ContainerBuild.Proofs.Archive.Overwriting
import ContainerBuild.Proofs.Tar.Beginnings

/-!
# Names that lead out of the directory

The first member whose name is absolute or has a step upwards ends the unpacking, before it or a later
member has had any effect. The members before it are there as if the archive had been of them alone.

Nothing else that can go wrong is reported as such a name: whatever fails in putting a member in its place
is a complaint about the archive.
-/

namespace ContainerBuild
namespace Archive

open FileTree FilePath

variable {t t' t₁ : FileTree} {dest names : List Name} {e e' : Tar.Entry} {es : List Tar.Entry}

/-- A name leads out of the directory: it is absolute, or one of its steps goes up. -/
def Escapes (name : Bytes) : Prop :=
  isAbsolute name = true ∨ dotDot ∈ Bytes.split slash name

theorem ofPiece_eq_up_iff {n : Name} : Component.ofPiece n = .up ↔ n = dotDot := by
  unfold Component.ofPiece
  split <;> simp_all

theorem up_mem_steps_iff {l : List Name} : .up ∈ steps l ↔ dotDot ∈ l := by
  have other : dotDot ≠ dot := by decide
  simp [steps, ofPiece_eq_up_iff, other]

theorem root_notMem_steps (l : List Name) : .root ∉ steps l := by
  intro h
  obtain ⟨n, -, hn⟩ := List.mem_map.1 h
  unfold Component.ofPiece at hn
  split at hn <;> cases hn

theorem up_mem_components_iff {name : Bytes} : .up ∈ components name ↔ dotDot ∈ Bytes.split slash name := by
  have piece : dotDot ∈ Bytes.split slash name ↔ dotDot ∈ pieces name := by
    simp [pieces, dotDot]
  rw [piece, components_eq]
  split
  · simp [up_mem_steps_iff]
  · split
    · split
      · rename_i first rest hp here
        have other : dotDot ≠ dot := by decide
        simp [up_mem_steps_iff, hp, here, other]
      · rename_i first rest hp other
        rw [up_mem_steps_iff, hp]
    · rename_i hp
      simp [hp]

theorem root_mem_components_iff {name : Bytes} : .root ∈ components name ↔ isAbsolute name = true := by
  rw [components_eq]
  split
  · simp_all
  · split
    · split <;> simp_all [root_notMem_steps]
    · simp_all

theorem escapes_iff {name : Bytes} : escapes name = true ↔ Escapes name := by
  rw [Escapes, ← root_mem_components_iff, ← up_mem_components_iff, escapes, List.any_eq_true]
  constructor
  · rintro ⟨c, hc, h⟩
    rw [Bool.or_eq_true, beq_iff_eq, beq_iff_eq] at h
    rcases h with rfl | rfl
    · exact .inl hc
    · exact .inr hc
  · rintro (h | h)
    · exact ⟨_, h, rfl⟩
    · exact ⟨_, h, rfl⟩

instance (name : Bytes) : Decidable (Escapes name) :=
  decidable_of_iff _ escapes_iff

/-! ### What the parts of unpacking fail with -/

/-- A part of the work whose failures are complaints about the archive. -/
def Complains {α : Type} (m : Change α) : Prop :=
  ∀ t err, (m.run t).1 = .error err → ∃ reason, err = .archive reason

namespace Complains

variable {α β : Type}

theorem pure (a : α) : Complains (Pure.pure a : Change α) := by
  intro t err h
  cases h

theorem throw (reason : String) : Complains (MonadExcept.throw (.archive reason) : Change α) := by
  intro t err h
  cases h
  exact ⟨reason, rfl⟩

theorem bind {m : Change α} {f : α → Change β} (hm : Complains m) (hf : ∀ a, Complains (f a)) :
    Complains (m >>= f) := by
  intro t err h
  rw [run_bind] at h
  rcases hr : m.run t with ⟨err' | a, t'⟩
  · rw [hr] at h
    obtain rfl : err' = err := Except.error.inj h
    exact hm t err' (by rw [hr])
  · rw [hr] at h
    exact hf a t' err h

theorem get_bind {f : FileTree → Change β} (hf : ∀ t, Complains (f t)) : Complains (get >>= f) :=
  fun t => hf t t

theorem apply (f : FileTree → Except SystemFault FileTree) : Complains (Archive.apply f) := by
  intro t err h
  rw [run_apply] at h
  split at h
  · cases h
  · cases h
    exact ⟨_, rfl⟩

theorem requireInside (dest names : List Name) : Complains (Archive.requireInside dest names) := by
  intro t err h
  rw [run_requireInside] at h
  split at h <;> cases h
  · exact ⟨_, rfl⟩
  · exact ⟨_, rfl⟩

theorem makeMissing (dest : List Name) (stages : List (List Name)) :
    Complains (Archive.makeMissing dest stages) := by
  induction stages with
  | nil => exact pure ()
  | cons names stages ih =>
    refine bind (requireInside dest _) fun _ => bind ?_ fun _ => ih
    intro t err h
    rw [run_makeAll] at h
    split at h
    · cases h
    · cases h
      exact ⟨_, rfl⟩

theorem ensureAround (dest names : List Name) : Complains (Archive.ensureAround dest names) :=
  get_bind fun _ => makeMissing dest _

theorem applyMode (e : Tar.Entry) (names : List Name) : Complains (Archive.applyMode e names) := by
  unfold Archive.applyMode
  split
  · exact apply _
  · exact pure ()

theorem unpackDirectory (e : Tar.Entry) (names : List Name) :
    Complains (Archive.unpackDirectory e names) :=
  bind (apply _) fun _ => applyMode e names

theorem replaceWith (names : List Name) (n : FileNode) : Complains (Archive.replaceWith names n) := by
  refine get_bind fun t => ?_
  split
  · rename_i t' _
    intro t err h
    cases h
  · split
    · exact bind (apply _) fun _ => apply _
    · exact throw _

theorem unpackFile (e : Tar.Entry) (names : List Name) : Complains (Archive.unpackFile e names) := by
  refine bind (replaceWith names _) fun _ => ?_
  split
  · exact bind (throw _) fun _ => applyMode e names
  · exact applyMode e names

theorem unpackLink (names : List Name) (target : Bytes) : Complains (Archive.unpackLink names target) := by
  unfold Archive.unpackLink
  split
  · exact throw _
  · split
    · exact throw _
    · exact replaceWith names _

theorem unpackHardLink (dest names : List Name) (target : Bytes) :
    Complains (Archive.unpackHardLink dest names target) := by
  refine get_bind fun t => ?_
  split
  · exact throw _
  · exact bind (requireInside _ _) fun _ => apply _

theorem place (e : Tar.Entry) (dest names : List Name) : Complains (Archive.place e dest names) := by
  unfold Archive.place
  simp only
  split
  · exact unpackDirectory e names
  split
  · split
    · exact throw _
    · split
      · exact throw _
      · split
        · exact unpackHardLink dest names _
        · exact unpackLink names _
  split
  · exact pure ()
  split
  · exact unpackDirectory e names
  · exact unpackFile e names

end Complains

/-! ### One member -/

/-- A member that leads out of the directory has no effect. -/
theorem run_unpackEntry_of_escapes (h : Escapes e.name) :
    (unpackEntry dest e).run t = (.error (.pathTraversal (Utf8.decodeLossy e.name)), t) := by
  rw [unpackEntry, if_pos (escapes_iff.2 h)]
  rfl

/-- A member that stays in the directory is not refused for its name. -/
theorem complains_unpackEntry (h : ¬Escapes e.name) (dest : List Name) :
    Complains (unpackEntry dest e) := by
  rw [unpackEntry, if_neg (mt escapes_iff.1 h)]
  simp only
  split
  · exact .pure ()
  · exact .bind (.ensureAround _ _) fun _ => .bind (.requireInside _ _) fun _ => .place _ _ _

theorem unpackEntry_congr (same : e.Same e') (dest : List Name) :
    unpackEntry dest e' = unpackEntry dest e := by
  simp only [unpackEntry, place, unpackDirectory, unpackFile, applyMode, isOldDirectory, same.name,
    same.block, same.link?, same.data]
  rfl

/-! ### All members -/

/-- The members are put in place one after another, each in the tree that the one before it has left. -/
inductive AppliedInOrder (dest : List Name) : List Tar.Entry → FileTree → FileTree → Prop
  | nil {t : FileTree} : AppliedInOrder dest [] t t
  | cons {e : Tar.Entry} {es : List Tar.Entry} {t t₁ t₂ : FileTree} :
    (unpackEntry dest e).run t = (.ok (), t₁) → AppliedInOrder dest es t₁ t₂ →
      AppliedInOrder dest (e :: es) t t₂

theorem run_unpackEntries_eq_ok_iff :
    (unpackEntries dest es).run t = (.ok (), t') ↔ AppliedInOrder dest es t t' := by
  constructor
  · intro h
    induction es generalizing t with
    | nil =>
      obtain rfl : t = t' := (Prod.mk.inj h).2
      exact .nil
    | cons e es ih =>
      rw [unpackEntries, run_bind] at h
      rcases hr : (unpackEntry dest e).run t with ⟨_ | _, t₁⟩
      · rw [hr] at h
        cases h
      · rw [hr] at h
        exact .cons hr (ih h)
  · intro applied
    induction applied with
    | nil => rfl
    | cons first _ ih =>
      rw [unpackEntries, run_bind, first]
      exact ih

theorem AppliedInOrder.not_escapes (h : AppliedInOrder dest es t t') : ∀ e ∈ es, ¬Escapes e.name := by
  induction h with
  | nil => nofun
  | cons first _ ih =>
    refine List.forall_mem_cons.2 ⟨fun escapes => ?_, ih⟩
    rw [run_unpackEntry_of_escapes escapes] at first
    cases first

theorem AppliedInOrder.congr {es' : List Tar.Entry} (same : List.Forall₂ Tar.Entry.Same es es') :
    AppliedInOrder dest es' t t' ↔ AppliedInOrder dest es t t' := by
  have equal : unpackEntries dest es' = unpackEntries dest es := by
    induction same with
    | nil => rfl
    | cons first _ ih => rw [unpackEntries, unpackEntries, unpackEntry_congr first, ih]
  rw [← run_unpackEntries_eq_ok_iff, ← run_unpackEntries_eq_ok_iff, equal]

/-- The members are refused for a name just when the first one that leads out of the directory has it and
those before it could be put in place. -/
theorem run_unpackEntries_eq_pathTraversal_iff {path : String} :
    (unpackEntries dest es).run t = (.error (.pathTraversal path), t') ↔
      ∃ before e after, es = before ++ e :: after ∧ Escapes e.name ∧
        path = Utf8.decodeLossy e.name ∧ AppliedInOrder dest before t t' := by
  constructor
  · intro h
    induction es generalizing t with
    | nil => cases h
    | cons e es ih =>
      rw [unpackEntries, run_bind] at h
      by_cases escapes : Escapes e.name
      · rw [run_unpackEntry_of_escapes escapes] at h
        cases h
        exact ⟨[], e, es, rfl, escapes, rfl, .nil⟩
      · rcases hr : (unpackEntry dest e).run t with ⟨err | _, t₁⟩
        · rw [hr] at h
          obtain ⟨reason, rfl⟩ := complains_unpackEntry escapes dest t err (by rw [hr])
          cases h
        · rw [hr] at h
          obtain ⟨before, e', after, rfl, found, named, applied⟩ := ih h
          exact ⟨e :: before, e', after, rfl, found, named, .cons hr applied⟩
  · rintro ⟨before, e, after, rfl, escapes, rfl, applied⟩
    rw [run_unpackEntries_append (run_unpackEntries_eq_ok_iff.2 applied), unpackEntries, run_bind,
      run_unpackEntry_of_escapes escapes]

/-! ### The archive -/

/-- What some members make of a tree: the directory is made, and they are put in place there. -/
def Leaves (t : FileTree) (dest : List Name) (es : List Tar.Entry) (t' : FileTree) : Prop :=
  ∃ t₁, t.makeDirectories dest = (.ok (), t₁) ∧ AppliedInOrder dest es t₁ t'

/-- An archive of some members and no others. -/
def ConsistsOf (archive : Bytes) (es : List Tar.Entry) : Prop :=
  ∃ es', Tar.entries (Gzip.source archive) = (es', true) ∧ List.Forall₂ Tar.Entry.Same es es'

theorem extract_eq_ok_iff {archive : Bytes} : extract t dest archive = (.ok (), t') ↔
    (Tar.entries (Gzip.source archive)).2 = true ∧
      Leaves t dest (Tar.entries (Gzip.source archive)).1 t' := by
  rw [run_extract, Leaves]
  simp only [← run_unpackEntries_eq_ok_iff]
  rcases t.makeDirectories dest with ⟨_ | _, t₁⟩
  · simp
  · simp only [run_bind, Prod.mk.injEq, true_and, exists_eq_left']
    rcases (unpackEntries dest (Tar.entries (Gzip.source archive)).1).run t₁ with ⟨_ | _, t₂⟩
    · exact ⟨nofun, fun h => nomatch h.2⟩
    · cases (Tar.entries (Gzip.source archive)).2
      · exact ⟨nofun, fun h => nomatch h.1⟩
      · exact ⟨fun h => ⟨rfl, h⟩, fun h => h.2⟩

theorem extract_eq_pathTraversal_iff {archive : Bytes} {path : String} :
    extract t dest archive = (.error (.pathTraversal path), t') ↔
      ∃ before e after, (Tar.entries (Gzip.source archive)).1 = before ++ e :: after ∧
        Escapes e.name ∧ path = Utf8.decodeLossy e.name ∧ Leaves t dest before t' := by
  have inner (t₁ : FileTree) : (∃ before e after,
      (Tar.entries (Gzip.source archive)).1 = before ++ e :: after ∧ Escapes e.name ∧
        path = Utf8.decodeLossy e.name ∧ AppliedInOrder dest before t₁ t') ↔
      (unpackEntries dest (Tar.entries (Gzip.source archive)).1).run t₁ =
        (.error (.pathTraversal path), t') := run_unpackEntries_eq_pathTraversal_iff.symm
  rw [run_extract]
  simp only [Leaves]
  rcases t.makeDirectories dest with ⟨_ | _, t₁⟩
  · simp
  · simp only [run_bind, Prod.mk.injEq, true_and, exists_eq_left', inner]
    rcases (unpackEntries dest (Tar.entries (Gzip.source archive)).1).run t₁ with ⟨_ | _, t₂⟩
    · exact Iff.rfl
    · cases (Tar.entries (Gzip.source archive)).2
      · exact ⟨nofun, nofun⟩
      · exact ⟨nofun, nofun⟩

/-- A stream that is ended somewhere does not look compressed if it did not before. -/
theorem hasSignature_ended {b : Bytes} (plain : Gzip.hasSignature b = false) (n : Nat) :
    Gzip.hasSignature (b.take n ++ Tar.ending) = false := by
  refine Bool.eq_false_iff.2 fun h => ?_
  obtain ⟨rest, h⟩ := Gzip.hasSignature_iff.1 h
  have ending : Tar.ending = 0 :: 0 :: List.replicate (2 * Tar.blockSize - 2) 0 := rfl
  rw [ending] at h
  -- The two bytes would have to be there before the end.
  rcases b with _ | ⟨x, _ | ⟨y, b⟩⟩
  · rw [List.take_nil] at h
    cases h
  · rcases n with _ | n
    · cases h
    · rw [List.take_succ_cons, List.take_nil] at h
      cases h
  · rcases n with _ | _ | n
    · cases h
    · cases h
    · simp only [List.take_succ_cons, List.cons_append, List.cons.injEq] at h
      obtain ⟨rfl, rfl, -⟩ := h
      exact Bool.false_ne_true (plain.symm.trans (Gzip.hasSignature_iff.2 ⟨b, rfl⟩))

/-- Unpacking is refused for a name just when it is the name of the first member that leads out of the
directory and the members before that one can be put in place; they are what is there then. It succeeds
just when all members can be read, none leads out, and they can be put in place in order. The members
before another one leave the same as an archive of them alone, and the archive ended right after them is
one. -/
theorem extract_up_to_escaping {archive : Bytes} {whole : Bool} (t t' : FileTree) (dest : List Name)
    (entries : Tar.entries (Gzip.source archive) = (es, whole)) :
    (∀ path, extract t dest archive = (.error (.pathTraversal path), t') ↔
      ∃ before e after, es = before ++ e :: after ∧ (∀ x ∈ before, ¬Escapes x.name) ∧
        Escapes e.name ∧ path = Utf8.decodeLossy e.name ∧ Leaves t dest before t') ∧
    (extract t dest archive = (.ok (), t') ↔
      whole = true ∧ (∀ e ∈ es, ¬Escapes e.name) ∧ Leaves t dest es t') ∧
    ∀ before e after, es = before ++ e :: after →
      (∀ alone, ConsistsOf alone before →
        (extract t dest alone = (.ok (), t') ↔ Leaves t dest before t')) ∧
      (Gzip.hasSignature (Gzip.source archive).bytes = false →
        ∃ n, ConsistsOf ((Gzip.source archive).bytes.take n ++ Tar.ending) before) := by
  have inside {l : List Tar.Entry} (h : Leaves t dest l t') : ∀ x ∈ l, ¬Escapes x.name := by
    obtain ⟨_, _, applied⟩ := h
    exact applied.not_escapes
  refine ⟨fun path => ?_, ?_, fun before e after split => ⟨fun alone consists => ?_, fun plain => ?_⟩⟩
  · rw [extract_eq_pathTraversal_iff, entries]
    constructor
    · rintro ⟨before, e, after, split, escapes, named, leaves⟩
      exact ⟨before, e, after, split, inside leaves, escapes, named, leaves⟩
    · rintro ⟨before, e, after, split, -, escapes, named, leaves⟩
      exact ⟨before, e, after, split, escapes, named, leaves⟩
  · rw [extract_eq_ok_iff, entries]
    exact ⟨fun ⟨all, leaves⟩ => ⟨all, inside leaves, leaves⟩, fun ⟨all, _, leaves⟩ => ⟨all, leaves⟩⟩
  · obtain ⟨es', read, same⟩ := consists
    rw [extract_eq_ok_iff, read, Leaves, Leaves]
    simp only [AppliedInOrder.congr same, true_and]
  · rw [split] at entries
    obtain ⟨n, alone, read, same⟩ := Tar.exists_beginning entries
    refine ⟨n, alone, ?_, same⟩
    rw [Tar.source_of_plain (hasSignature_ended plain n), read]

def upwardHeader : Tar.Header := ⟨Utf8.encode "../b", fileMode, 0, Tar.Kind.regular, []⟩

theorem exists_upward_archive {name : String} {data : Bytes}
    (legible : (fileMember name fileMode data).Legible) : ∃ archive e₁ e₂,
      Gzip.hasSignature archive = false ∧ Tar.entries (.ofBytes archive) = ([e₁, e₂], true) ∧
        e₁.ReadAs (fileMember name fileMode data) ∧ e₂.name = Utf8.encode "../b" := by
  obtain ⟨bytes, render, length, read⟩ := Tar.exists_render legible.writable
  obtain ⟨e₁, read₁, next₁⟩ := read (upwardHeader.render ++ Tar.ending)
  have fits : upwardHeader.Fits := ⟨by decide, by decide, by decide, by decide⟩
  have own : upwardHeader.block.isForNext = false := by
    rw [Tar.Block.isForNext, Tar.Header.kind_block fits]
    exact Bool.and_false _
  obtain ⟨e₂, named, next₂⟩ : ∃ e₂ : Tar.Entry, e₂.name = Utf8.encode "../b" ∧
      Tar.nextEntry (.ofBytes (upwardHeader.render ++ Tar.ending)) =
        .member (e₂, some (.ofBytes Tar.ending)) :=
    ⟨⟨upwardHeader.block, none, none, none, 0, [.data 0], .ofBytes Tar.ending⟩,
      Tar.Header.fullName_block fits (by decide),
      Tar.nextEntryFrom_render fits (rfl : _ = ([] : Bytes).length) (by decide) rfl own (by decide) _⟩
  have enough : 3 ≤ (bytes ++ (upwardHeader.render ++ Tar.ending)).length / Tar.blockSize + 1 := by
    have header := Tar.Header.length_render fits
    have ending : Tar.ending.length = 2 * Tar.blockSize := List.length_replicate
    simp only [List.length_append, header, ending, Tar.blockSize] at length ⊢
    omega
  obtain ⟨fuel, steps⟩ := Nat.exists_eq_add_of_le' enough
  refine ⟨bytes ++ (upwardHeader.render ++ Tar.ending), e₁, e₂,
    Tar.hasSignature_member legible render _, ?_, read₁, named⟩
  change Tar.entriesFrom ((bytes ++ (upwardHeader.render ++ Tar.ending)).length / Tar.blockSize + 1) _ = _
  rw [steps]
  simp only [Tar.entriesFrom, next₁, next₂, Tar.nextEntry_ending]

/-- A file is unpacked, and the member after it is refused. Cut before that one, the archive is unpacked and
leaves the same. -/
theorem upward_archive_refused : ∃ archive es whole t',
    Tar.entries (Gzip.source archive) = (es, whole) ∧
      extract emptyTarget [Utf8.encode "out"] archive = (.error (.pathTraversal "../b"), t') ∧
      OneFileMore emptyTarget [Utf8.encode "out"] [Utf8.encode "bin", Utf8.encode "run"]
        (Utf8.encode "hi") t' ∧
      ∃ n, extract emptyTarget [Utf8.encode "out"] (archive.take n ++ Tar.ending) = (.ok (), t') := by
  have steps : IsMemberName (Utf8.encode "bin/run") := by decide
  have legible : (fileMember "bin/run" fileMode (Utf8.encode "hi")).Legible :=
    legible_fileMember steps (by decide) (by decide)
  obtain ⟨archive, e₁, e₂, plain, entries, read₁, named⟩ := exists_upward_archive legible
  have source := Tar.source_of_plain plain
  rw [← source] at entries
  have target := emptyDirectory_emptyTarget
  have names : ∀ m ∈ [Utf8.encode "bin"] ++ [Utf8.encode "run"],
      IsName m ∧ 0 ∉ m ∧ m.length ≤ maxName := by decide
  obtain ⟨t', run, placed⟩ := exists_unpackEntry_alone target names (shows_of_single read₁)
  have leaves : Leaves emptyTarget [Utf8.encode "out"] [e₁] t' :=
    ⟨_, makeDirectories_of_directory target.leads target.directory, .cons run .nil⟩
  obtain ⟨refused, -, beginning⟩ :=
    extract_up_to_escaping emptyTarget t' [Utf8.encode "out"] entries
  obtain ⟨alone, cut⟩ := beginning [e₁] e₂ [] rfl
  rw [source] at cut
  obtain ⟨n, consists⟩ := cut plain
  have escapes : Escapes e₂.name := by
    rw [named]
    decide
  refine ⟨archive, [e₁, e₂], true, t', entries, (refused "../b").2 ⟨[e₁], e₂, [], rfl, ?_, escapes, ?_, leaves⟩,
    oneFileMore_of_placed placed, n, (alone _ consists).2 leaves⟩
  · obtain ⟨_, _, applied⟩ := leaves
    exact applied.not_escapes
  · rw [named, Utf8.decodeLossy_encode]

end Archive
end ContainerBuild
