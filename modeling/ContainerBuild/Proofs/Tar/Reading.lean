import Mathlib.Data.List.Forall2
import ContainerBuild.Proofs.Tar.Blocks
import ContainerBuild.Proofs.Tar.Fields
import ContainerBuild.Proofs.Traversal
import ContainerBuild.Tar.Reader

/-!
# Reading what was written

The members of an archive are read back in order, each with its name, its kind, its permissions and its
data, and a link with a target of the same steps. A long name or link is read from the member before,
and has no limit; all that a name must have is that its field could be filled.
-/

namespace ContainerBuild
namespace Tar

open FilePath

/-- A member that can be written and read back. A name that is too long for its field begins with text. -/
structure Member.Writable (m : Member) : Prop where
  name : ∃ p, p ≠ [] ∧ (∀ n ∈ p, IsName n ∧ 0 ∉ n) ∧ m.name = [slash].intercalate p
  start : nameWidth < m.name.length → cutName m.name ≠ []
  mode : m.mode < octalLimit 8
  nameSize : m.name.length + blockSize ≤ Text.maxUnsigned64
  dataSize : m.data.length + blockSize ≤ Text.maxUnsigned64
  link : ∀ target, m.content = .link target →
    target ≠ [] ∧ 0 ∉ target ∧ target.length + blockSize ≤ Text.maxUnsigned64

/-- A member that can be written and read back, and whose name is text. -/
structure Member.Legible (m : Member) : Prop where
  name : ∃ p, p ≠ [] ∧ (∀ n ∈ p, IsName n ∧ 0 ∉ n) ∧ m.name = [slash].intercalate p
  text : ∃ s, m.name = Utf8.encode s
  mode : m.mode < octalLimit 8
  nameSize : m.name.length + blockSize ≤ Text.maxUnsigned64
  dataSize : m.data.length + blockSize ≤ Text.maxUnsigned64
  link : ∀ target, m.content = .link target →
    target ≠ [] ∧ 0 ∉ target ∧ target.length + blockSize ≤ Text.maxUnsigned64

theorem Member.Legible.writable {m : Member} (h : m.Legible) : m.Writable := by
  obtain ⟨p, hne, hp, hm⟩ := h.name
  obtain ⟨s, hs⟩ := h.text
  have start : cutName m.name ≠ [] := by
    rw [hs]
    apply cutName_ne_nil
    rw [← hs, hm]
    exact intercalate_ne_nil (fun n hn => (hp n hn).1.toIsPiece) hne
  exact ⟨h.name, fun _ => start, h.mode, h.nameSize, h.dataSize, h.link⟩

theorem Member.Writable.legible {m : Member} (h : m.Writable) (text : ∃ s, m.name = Utf8.encode s) :
    m.Legible :=
  ⟨h.name, text, h.mode, h.nameSize, h.dataSize, h.link⟩

/-- What is read is a member as it was written. -/
structure Entry.ReadAs (e : Entry) (m : Member) : Prop where
  name : e.name = m.name
  kind : e.block.kind = m.kind
  standard : e.block.isStandard = false
  mode : e.block.mode? = some m.mode
  data : e.data = (m.data, true)
  link : ∀ target, m.content = .link target → ∃ target', e.link? = some target' ∧
    components target' = components target ∧ target' ≠ [] ∧ 0 ∉ target' ∧
      target'.length ≤ max nameWidth target.length

/-! ### Blocks -/

theorem le_padded (n : Nat) : n ≤ padded n := by
  unfold padded blockSize
  omega

theorem length_blocks (data : Bytes) : (blocks data).length = padded data.length := by
  have := le_padded data.length
  rw [blocks, List.length_append, List.length_replicate]
  omega

theorem blocks_append_eq (data rest : Bytes) : ∃ more, blocks data ++ rest = data ++ more :=
  ⟨_, List.append_assoc _ _ _⟩

theorem after?_blocks (b : Block) (data rest : Bytes) :
    RawEntry.after? ⟨b, data.length, .ofBytes (blocks data ++ rest)⟩ = some (.ofBytes rest) := by
  rw [RawEntry.after?, Source.skip?, ← length_blocks]
  split
  · rename_i h
    rw [List.eq_nil_of_length_eq_zero h]
    rfl
  · have fits : ¬(blocks data ++ rest).length < (blocks data).length := by simp
    simp only [Source.ofBytes, if_neg fits, Source.drop, List.drop_left]

theorem data_blocks (b : Block) (data rest : Bytes) :
    RawEntry.data ⟨b, data.length, .ofBytes (blocks data ++ rest)⟩ = some data := by
  obtain ⟨more, h⟩ := blocks_append_eq data rest
  simp only [RawEntry.data, Source.ofBytes, Bool.false_and, Bool.false_eq_true, if_false, h,
    List.take_left]

variable {h : Header} {rest : Bytes}

theorem nextRaw_render (fits : h.Fits) (size : h.size + (blockSize - 1) ≤ Text.maxUnsigned64)
    (rest : Bytes) : nextRaw (.ofBytes (h.render ++ rest)) none =
      .member ⟨h.block, h.size, .ofBytes rest⟩ := by
  have next : (Source.ofBytes (h.render ++ rest)).nextBlock blockSize =
      .block h.render (.ofBytes rest) := by
    rw [Source.nextBlock, ← Header.length_render fits]
    simp [Source.ofBytes, Source.drop]
  have sum : (⟨h.render⟩ : Block).checksum? = some (⟨h.render⟩ : Block).sum :=
    Header.checksum?_block fits
  have number : (⟨h.render⟩ : Block).size? = some h.size := Header.size?_block fits
  have zero : (⟨h.render⟩ : Block).isZero = false := Header.isZero_block fits
  simp only [nextRaw, next, zero, sum, number, Bool.false_eq_true, if_false, ne_eq,
    not_true_eq_false, Option.bind_none, Option.getD_none, if_neg (Nat.not_lt.2 size)]
  rfl

/-! ### Members before others -/

/-- Reading some bytes turns what is known of the next member into something else, and takes at most a
number of steps for it. -/
def Announces (n : Nat) (b : Bytes) (p p' : Pending) : Prop :=
  ∀ rest fuel, ∃ fuel', fuel ≤ fuel' ∧
    nextEntryFrom (fuel + n) (.ofBytes (b ++ rest)) p = nextEntryFrom fuel' (.ofBytes rest) p'

theorem Announces.nil (n : Nat) (p : Pending) : Announces n [] p p :=
  fun _ fuel => ⟨fuel + n, Nat.le_add_right fuel n, rfl⟩

theorem Announces.append {m n : Nat} {a b : Bytes} {p p' p'' : Pending} (ha : Announces m a p p')
    (hb : Announces n b p' p'') : Announces (n + m) (a ++ b) p p'' := by
  intro rest fuel
  obtain ⟨f, hf, ea⟩ := ha (b ++ rest) (fuel + n)
  obtain ⟨k, rfl⟩ : ∃ k, f = k + n := ⟨f - n, by omega⟩
  obtain ⟨f', hf', eb⟩ := hb rest k
  exact ⟨f', by omega, by rw [← Nat.add_assoc, List.append_assoc, ea, eb]⟩

def longHeader (kind : UInt8) (text : Bytes) : Header :=
  ⟨Utf8.encode "././@LongLink", 0o644, text.length + 1, kind, []⟩

theorem longHeader_fits (kind : UInt8) {text : Bytes}
    (size : text.length + blockSize ≤ Text.maxUnsigned64) : (longHeader kind text).Fits := by
  have name : (Utf8.encode "././@LongLink").length ≤ nameWidth := by decide
  have mode : 0o644 < octalLimit 8 := by decide
  refine ⟨name, mode, ?_, Nat.zero_le _⟩
  simp only [longHeader, blockSize] at size ⊢
  omega

theorem announces_longText {kind : UInt8} {text : Bytes} {p p' : Pending}
    (size : text.length + blockSize ≤ Text.maxUnsigned64)
    (forNext : kind = Kind.longName ∨ kind = Kind.longLink) (attributes : p.attributes = none)
    (add : p.add kind (text ++ [0]) = some p') : Announces 1 (longText kind text) p p' := by
  intro rest fuel
  refine ⟨fuel, Nat.le_refl fuel, ?_⟩
  have fits := longHeader_fits kind size
  have length : (text ++ [0]).length = text.length + 1 := by simp
  have raw : nextRaw (.ofBytes (longText kind text ++ rest)) p.attributes =
      .member ⟨(longHeader kind text).block, (text ++ [0]).length,
        .ofBytes (blocks (text ++ [0]) ++ rest)⟩ := by
    rw [attributes, length]
    have room : (longHeader kind text).size + (blockSize - 1) ≤ Text.maxUnsigned64 := by
      simp only [longHeader, blockSize] at size ⊢
      omega
    have := nextRaw_render fits room (blocks (text ++ [0]) ++ rest)
    rwa [← List.append_assoc] at this
  have next : (longHeader kind text).block.isForNext = true := by
    rw [Block.isForNext, Header.isGnu_block fits, Header.kind_block fits]
    rcases forNext with rfl | rfl <;> rfl
  have kind' : (longHeader kind text).block.kind = kind := Header.kind_block fits
  rw [nextEntryFrom, raw]
  simp only [next, if_true, data_blocks, after?_blocks, kind', add]

/-- What is written for a name makes it known, or fits into the field. -/
theorem exists_nameParts {m : Member} (writable : m.Writable) : ∃ before field long,
    nameParts m.name = .ok (before, field) ∧ field.length ≤ nameWidth ∧
      Announces 1 before Pending.none ⟨long, none, none⟩ ∧
        (long = none ∧ field = m.name ∧ 0 ∉ field ∨ long = some (m.name ++ [0])) := by
  obtain ⟨p, hne, hp, hm⟩ := writable.name
  have start := writable.start
  rw [hm] at start
  rcases nameParts_cases hp hne start with ⟨h, fits⟩ | ⟨field, h, fits⟩
  · rw [← hm] at h fits
    exact ⟨[], m.name, none, h, fits, .nil 1 _,
      .inl ⟨rfl, rfl, hm ▸ zero_notMem_intercalate fun n hn => (hp n hn).2⟩⟩
  · rw [← hm] at h
    exact ⟨_, field, _, h, fits, announces_longText writable.nameSize (.inl rfl) rfl rfl, .inr rfl⟩

/-- What goes before a member for its link, and the link in its header. -/
def Member.linkParts (m : Member) : Bytes × Bytes :=
  match m.content with
  | .link target => Tar.linkParts target
  | _ => ([], [])

theorem Member.render_eq {m : Member} {before name : Bytes} (h : nameParts m.name = .ok (before, name)) :
    m.render = .ok (before ++ m.linkParts.1 ++
      Header.render ⟨name, m.mode, m.data.length, m.kind, m.linkParts.2⟩ ++ blocks m.data) := by
  rw [render, h]
  simp only [bind, Except.bind, Member.linkParts]
  cases m.content <;> rfl

/-- What is written for a link makes its target known, or its steps fit into the field. For other
members nothing is written. -/
theorem exists_longLink {m : Member} (writable : m.Writable) (long : Option Bytes) :
    ∃ longLink, m.linkParts.2.length ≤ nameWidth ∧
      Announces 1 m.linkParts.1 ⟨long, none, none⟩ ⟨long, longLink, none⟩ ∧
        ∀ target, m.content = .link target →
          longLink = none ∧ m.linkParts.2 ≠ [] ∧ 0 ∉ m.linkParts.2 ∧
              components m.linkParts.2 = components target ∨
            longLink = some (target ++ [0]) := by
  unfold Member.linkParts
  cases content : m.content with
  | file data => exact ⟨none, Nat.zero_le _, .nil 1 _, nofun⟩
  | directory => exact ⟨none, Nat.zero_le _, .nil 1 _, nofun⟩
  | link target =>
    obtain ⟨nonempty, zero, size⟩ := writable.link target content
    obtain ⟨fits, zero', whole⟩ := linkField_spec nonempty zero
    simp only [Tar.linkParts]
    rcases hf : linkField target with ⟨field, all⟩
    rw [hf] at fits zero' whole
    cases all with
    | true =>
      obtain ⟨nonempty', same⟩ := whole rfl
      refine ⟨none, fits, .nil 1 _, fun target' h => ?_⟩
      obtain rfl := Content.link.inj h
      exact .inl ⟨rfl, nonempty', zero', same⟩
    | false =>
      refine ⟨_, fits, announces_longText size (.inr rfl) rfl rfl, fun target' h => ?_⟩
      obtain rfl := Content.link.inj h
      exact .inr rfl

/-! ### Members -/

theorem nextEntryFrom_header {p : Pending} (fits : h.Fits)
    (room : h.size + (blockSize - 1) ≤ Text.maxUnsigned64) (attributes : p.attributes = none)
    (own : h.block.isForNext = false) (dense : h.kind ≠ Kind.sparse) (fuel : Nat) (rest : Bytes) :
    nextEntryFrom (fuel + 1) (.ofBytes (h.render ++ rest)) p =
      .member (⟨h.block, p.longName, p.longLink, none, h.size, [.data h.size], .ofBytes rest⟩,
        RawEntry.after? ⟨h.block, h.size, .ofBytes rest⟩) := by
  have raw := nextRaw_render fits room rest
  have sparse : (h.block.kind == Kind.sparse) = false := by
    rw [Header.kind_block fits]
    simpa using dense
  rw [nextEntryFrom, attributes, raw]
  simp only [own, Bool.false_eq_true, if_false, complete, sparse, attributes]

theorem nextEntryFrom_render {data : Bytes} {p : Pending} (fits : h.Fits)
    (size : h.size = data.length) (room : h.size + (blockSize - 1) ≤ Text.maxUnsigned64)
    (attributes : p.attributes = none) (own : h.block.isForNext = false) (dense : h.kind ≠ Kind.sparse)
    (fuel : Nat) : nextEntryFrom (fuel + 1) (.ofBytes (h.render ++ (blocks data ++ rest))) p =
      .member (⟨h.block, p.longName, p.longLink, none, data.length, [.data data.length],
        .ofBytes (blocks data ++ rest)⟩, some (.ofBytes rest)) := by
  rw [nextEntryFrom_header fits room attributes own dense, size, after?_blocks]

theorem Member.kind_plain (m : Member) :
    (m.kind == Kind.longName || m.kind == Kind.longLink || m.kind == Kind.extended) = false ∧
      m.kind ≠ Kind.sparse := by
  unfold Member.kind
  split <;> decide

theorem fillParts_data (data rest : Bytes) :
    Entry.fillParts [.data data.length] (blocks data ++ rest) = (data, true) := by
  obtain ⟨more, h⟩ := blocks_append_eq data rest
  have fits : ¬(data ++ more).length < data.length := by simp
  rw [h, Entry.fillParts, if_neg fits, List.take_left]
  simp only [Entry.fillParts, List.append_nil]

theorem dropNul_append (b : Bytes) : Entry.dropNul (b ++ [0]) = b := by
  simp [Entry.dropNul]

theorem readAs_of_known {m : Member} {name : Bytes} {long longLink : Option Bytes} (rest : Bytes)
    (fits : (⟨name, m.mode, m.data.length, m.kind, m.linkParts.2⟩ : Header).Fits)
    (nameKnown : long = none ∧ name = m.name ∧ 0 ∉ name ∨ long = some (m.name ++ [0]))
    (linkKnown : ∀ target, m.content = .link target →
      longLink = none ∧ m.linkParts.2 ≠ [] ∧ 0 ∉ m.linkParts.2 ∧
          components m.linkParts.2 = components target ∨
        longLink = some (target ++ [0]))
    (link : ∀ target, m.content = .link target → target ≠ [] ∧ 0 ∉ target) :
    Entry.ReadAs ⟨Header.block ⟨name, m.mode, m.data.length, m.kind, m.linkParts.2⟩, long, longLink,
      none, m.data.length, [.data m.data.length], .ofBytes (blocks m.data ++ rest)⟩ m := by
  refine ⟨?_, Header.kind_block fits, Header.isStandard_block fits, Header.mode?_block fits,
    fillParts_data _ _, fun target content => ?_⟩
  · rcases nameKnown with ⟨rfl, rfl, zero⟩ | rfl
    · exact Header.fullName_block fits zero
    · exact dropNul_append _
  · obtain ⟨nonempty, zero⟩ := link target content
    rcases linkKnown target content with ⟨rfl, nonempty', zero', same⟩ | rfl
    · exact ⟨_, Header.link?_block fits zero' nonempty', same, nonempty', zero',
        Nat.le_trans fits.link (Nat.le_max_left _ _)⟩
    · exact ⟨target, congrArg some (dropNul_append _), rfl, nonempty, zero, Nat.le_max_right _ _⟩

/-- A writable member is written, and read back wherever it stands in an archive. -/
theorem exists_render {m : Member} (writable : m.Writable) : ∃ bytes, m.render = .ok bytes ∧
    blockSize ≤ bytes.length ∧ ∀ rest, ∃ e, e.ReadAs m ∧
      nextEntry (.ofBytes (bytes ++ rest)) = .member (e, some (.ofBytes rest)) := by
  obtain ⟨before, name, long, hname, nameFits, announceName, nameKnown⟩ := exists_nameParts writable
  obtain ⟨longLink, linkFits, announceLink, linkKnown⟩ := exists_longLink writable long
  have room : m.data.length + (blockSize - 1) ≤ Text.maxUnsigned64 :=
    Nat.le_trans (Nat.add_le_add_left (Nat.sub_le _ _) _) writable.dataSize
  have fits : (⟨name, m.mode, m.data.length, m.kind, m.linkParts.2⟩ : Header).Fits :=
    ⟨nameFits, writable.mode, Nat.le_trans (Nat.le_add_right _ _) room, linkFits⟩
  have own : (Header.block ⟨name, m.mode, m.data.length, m.kind, m.linkParts.2⟩).isForNext = false := by
    rw [Block.isForNext, Header.kind_block fits, m.kind_plain.1, Bool.and_false]
  refine ⟨_, Member.render_eq hname, ?_, fun rest => ?_⟩
  · simp only [List.length_append, Header.length_render fits]
    omega
  · refine ⟨_, readAs_of_known rest fits nameKnown linkKnown fun target content =>
      ⟨(writable.link target content).1, (writable.link target content).2.1⟩, ?_⟩
    simp only [List.append_assoc]
    rw [nextEntry]
    simp only [Source.ofBytes, List.length_append, Header.length_render fits]
    have enough : 3 ≤ before.length + (m.linkParts.1.length + (blockSize +
        ((blocks m.data).length + rest.length))) + 1 := by unfold blockSize; omega
    obtain ⟨fuel, hfuel⟩ := Nat.exists_eq_add_of_le' enough
    obtain ⟨fuel', hle, read⟩ := (announceName.append announceLink)
      (Header.render ⟨name, m.mode, m.data.length, m.kind, m.linkParts.2⟩ ++
        (blocks m.data ++ rest)) (fuel + 1)
    obtain ⟨k, rfl⟩ : ∃ k, fuel' = k + 1 := ⟨fuel' - 1, by omega⟩
    rw [List.append_assoc] at read
    rw [hfuel]
    exact read.trans (nextEntryFrom_render fits rfl room rfl own m.kind_plain.2 k)

/-! ### Archives -/

theorem exists_render_of_mem {ms : List Member} {bytes : Bytes} (h : renderAll ms = .ok bytes) :
    ∀ m ∈ ms, ∃ own, m.render = .ok own := by
  induction ms generalizing bytes with
  | nil => nofun
  | cons m ms ih =>
    obtain ⟨own, hm, h⟩ := bind_eq_ok_iff.1 h
    obtain ⟨rest, hms, -⟩ := bind_eq_ok_iff.1 h
    exact List.forall_mem_cons.2 ⟨⟨own, hm⟩, ih hms⟩

/-- A member that cannot be written is missed in an archive, whatever else is left out of that. -/
theorem renderAll_filter_append {ms : List Member} {keep : Member → Bool} {flaw : Flaw}
    (h : renderAll ms = .error flaw)
    (written : ∀ m ∈ ms, keep m = false → ∃ own, m.render = .ok own) (more : List Member) :
    renderAll (ms.filter keep ++ more) = .error flaw := by
  induction ms with
  | nil => cases h
  | cons m ms ih =>
    obtain ⟨here, written⟩ := List.forall_mem_cons.1 written
    rw [renderAll] at h
    cases hm : m.render with
    | error flaw' =>
      rw [hm] at h
      have kept : keep m = true := by
        cases hk : keep m with
        | true => rfl
        | false =>
          obtain ⟨own, hown⟩ := here hk
          rw [hm] at hown
          cases hown
      rw [List.filter_cons_of_pos kept, List.cons_append, renderAll, hm]
      exact h
    | ok own =>
      rw [hm] at h
      have later : renderAll ms = .error flaw := by
        cases hms : renderAll ms with
        | error flaw' =>
          rw [hms] at h
          exact h
        | ok rest =>
          rw [hms] at h
          cases h
      cases hk : keep m with
      | true =>
        rw [List.filter_cons_of_pos hk, List.cons_append, renderAll, hm, ih later written]
        rfl
      | false =>
        rw [List.filter_cons_of_neg (by simp [hk])]
        exact ih later written

theorem nextEntry_ending : nextEntry (.ofBytes ending) = .ended := by
  have zero : (⟨List.replicate blockSize 0⟩ : Block).isZero = true := by
    rw [Block.isZero, List.all_eq_true]
    intro x hx
    simp [(List.mem_replicate.1 hx).2]
  have raw : nextRaw (.ofBytes ending) none = .ended := by
    have next : (Source.ofBytes ending).nextBlock blockSize =
        .block (List.replicate blockSize 0) (.ofBytes (List.replicate blockSize 0)) := by
      have first : min blockSize (2 * blockSize) = blockSize := rfl
      have second : 2 * blockSize - blockSize = blockSize := rfl
      simp only [Source.nextBlock, Source.ofBytes, Source.drop, ending, List.take_replicate,
        List.drop_replicate, List.length_replicate, first, second, if_true]
    simp only [nextRaw, next, zero, if_true]
  rw [nextEntry, nextEntryFrom]
  simp only [Pending.none, raw]
  rfl

/-- The members of an archive are written, and all of them are read back in order. -/
theorem exists_entries {ms : List Member} (writable : ∀ m ∈ ms, m.Writable) : ∃ archive es,
    write ms = .ok archive ∧ entries (.ofBytes archive) = (es, true) ∧
      List.Forall₂ Entry.ReadAs es ms := by
  -- Each step of reading takes a block at least, so there are enough of them.
  have body : ∃ body es, renderAll ms = .ok body ∧ blockSize * ms.length ≤ body.length ∧
      List.Forall₂ Entry.ReadAs es ms ∧ ∀ fuel, ms.length ≤ fuel →
        entriesFrom (fuel + 1) (.ofBytes (body ++ ending)) = (es, true) := by
    induction ms with
    | nil =>
      refine ⟨[], [], rfl, Nat.zero_le _, .nil, fun fuel _ => ?_⟩
      rw [List.nil_append, entriesFrom, nextEntry_ending]
    | cons m ms ih =>
      obtain ⟨hm, hms⟩ := List.forall_mem_cons.1 writable
      obtain ⟨first, hfirst, length, read⟩ := exists_render hm
      obtain ⟨rest, es, hrest, lengths, reads, enough⟩ := ih hms
      obtain ⟨e, he, next⟩ := read (rest ++ ending)
      refine ⟨first ++ rest, e :: es, ?_, ?_, .cons he reads, fun fuel hf => ?_⟩
      · rw [renderAll, hfirst, hrest]
        rfl
      · rw [List.length_append, List.length_cons, Nat.mul_succ]
        omega
      · obtain ⟨fuel, rfl⟩ : ∃ f, fuel = f + 1 := ⟨fuel - 1, by simp at hf; omega⟩
        rw [List.append_assoc, entriesFrom, next]
        simp only [enough fuel (by simpa using hf)]
  obtain ⟨body, es, hbody, length, reads, enough⟩ := body
  refine ⟨body ++ ending, es, ?_, ?_, reads⟩
  · rw [write, hbody]
    rfl
  · rw [entries]
    refine enough _ ?_
    simp only [Source.ofBytes, List.length_append, blockSize] at length ⊢
    omega

end Tar
end ContainerBuild
