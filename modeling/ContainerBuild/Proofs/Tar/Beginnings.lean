import ContainerBuild.Proofs.Tar.Reading

/-!
# The beginning of an archive

A member takes a number of bytes from its archive, and it is the same member whatever comes after them. So
an archive can be ended after any of its members that another one follows: what is left is an archive of
the members before that place, and of no others.
-/

namespace ContainerBuild

def Source.prepend (b : Bytes) (s : Source) : Source := { s with bytes := b ++ s.bytes }

namespace Source

variable {s rest : Source} {b : Bytes} {n : Nat}

@[simp] theorem bytes_prepend (b : Bytes) (s : Source) : (s.prepend b).bytes = b ++ s.bytes := rfl

theorem prepend_append (a b : Bytes) (s : Source) : s.prepend (a ++ b) = (s.prepend b).prepend a := by
  simp only [prepend, List.append_assoc]

theorem ofBytes_append (a b : Bytes) : ofBytes (a ++ b) = (ofBytes b).prepend a := rfl

theorem prepend_take_drop (s : Source) (n : Nat) : (s.drop n).prepend (s.bytes.take n) = s := by
  simp only [prepend, drop, List.take_append_drop]

theorem drop_prepend (rest : Source) (b : Bytes) : (rest.prepend b).drop b.length = rest := by
  simp only [prepend, drop, List.drop_left]

theorem of_nextBlock (h : s.nextBlock n = .block b rest) : s = rest.prepend b ∧ b.length = n := by
  rw [nextBlock] at h
  split at h
  · rename_i length
    cases h
    exact ⟨(s.prepend_take_drop n).symm, length⟩
  · split at h <;> cases h

theorem nextBlock_prepend (rest : Source) (b : Bytes) :
    (rest.prepend b).nextBlock b.length = .block b rest := by
  rw [nextBlock, drop_prepend, bytes_prepend, List.take_left]
  exact if_pos rfl

theorem of_skip? (h : s.skip? n = some rest) : ∃ b, s = rest.prepend b ∧ b.length = n := by
  rw [skip?] at h
  split at h
  · rename_i none
    cases h
    exact ⟨[], rfl, none.symm⟩
  · split at h
    · cases h
    · rename_i enough
      cases h
      exact ⟨s.bytes.take n, (s.prepend_take_drop n).symm,
        List.length_take_of_le (Nat.not_lt.1 enough)⟩

theorem skip?_prepend (rest : Source) (b : Bytes) : (rest.prepend b).skip? b.length = some rest := by
  rw [skip?, drop_prepend]
  split
  · rename_i none
    rw [List.eq_nil_of_length_eq_zero none]
    rfl
  · rw [if_neg (by simp)]

end Source

namespace Tar

variable {s rest : Source} {b : Bytes} {r : RawEntry} {p : Pending} {fuel size : Nat}

/-- The same member, in whatever archive. -/
structure Entry.Same (e e' : Entry) : Prop where
  header : e' = { e with body := e'.body }
  data : e'.data = e.data

namespace Entry.Same

variable {e e' : Entry}

theorem block (h : e.Same e') : e'.block = e.block := by rw [h.header]

theorem name (h : e.Same e') : e'.name = e.name := by rw [h.header]; rfl

theorem link? (h : e.Same e') : e'.link? = e.link? := by rw [h.header]; rfl

end Entry.Same

/-! ### One header and its data -/

theorem of_nextRaw {attributes : Option Bytes} (h : nextRaw s attributes = .member r) :
    s = r.body.prepend r.block.bytes ∧ r.block.bytes.length = blockSize ∧
      ∀ body, nextRaw (body.prepend r.block.bytes) attributes = .member { r with body } := by
  unfold nextRaw at h
  split at h
  · cases h
  · cases h
  · rename_i bytes rest next
    obtain ⟨hs, length⟩ := Source.of_nextBlock next
    simp only at h
    split at h
    · cases h
    · rename_i zero
      split at h
      · cases h
      · rename_i sum
        split at h
        · cases h
        · rename_i size hsize
          split at h
          · cases h
          · rename_i room
            cases h
            refine ⟨hs, length, fun body => ?_⟩
            have again := Source.nextBlock_prepend body bytes
            rw [length] at again
            simp only [nextRaw, again, hsize, if_neg zero, if_neg sum, if_neg room]

theorem of_after? (h : r.after? = some rest) :
    ∃ b, r.body = rest.prepend b ∧ b.length = padded r.size ∧ ∀ rest' : Source,
      RawEntry.after? { r with body := rest'.prepend b } = some rest' ∧
        RawEntry.data { r with body := rest'.prepend b } = some (b.take r.size) := by
  obtain ⟨b, hb, length⟩ := Source.of_skip? h
  have enough : r.size ≤ b.length := length ▸ le_padded r.size
  refine ⟨b, hb, length, fun rest' => ⟨?_, ?_⟩⟩
  · rw [RawEntry.after?, ← length, Source.skip?_prepend]
  · have there : ¬(b ++ rest'.bytes).length < r.size := by
      rw [List.length_append]
      omega
    simp only [RawEntry.data, Source.bytes_prepend, there, decide_false, Bool.and_false,
      Bool.false_eq_true, if_false, List.take_append_of_le_length enough]

/-! ### Parts -/

/-- How many bytes of the archive some parts are made of. -/
def dataLength : List Part → Nat
  | [] => 0
  | .hole _ :: rest => dataLength rest
  | .data n :: rest => n + dataLength rest

theorem dataLength_append (a b : List Part) : dataLength (a ++ b) = dataLength a + dataLength b := by
  induction a with
  | nil => simp [dataLength]
  | cons x a ih => cases x <;> simp [dataLength, ih, Nat.add_assoc]

theorem dataLength_reverse (a : List Part) : dataLength a.reverse = dataLength a := by
  induction a with
  | nil => rfl
  | cons x a ih =>
    rw [List.reverse_cons, dataLength_append, ih]
    cases x <;> simp [dataLength, Nat.add_comm]

/-- Parts that are all there are not made of what comes after them. -/
theorem fillParts_append {parts : List Part} (enough : dataLength parts ≤ b.length) (more : Bytes) :
    Entry.fillParts parts (b ++ more) = Entry.fillParts parts b := by
  induction parts generalizing b with
  | nil => rfl
  | cons part parts ih =>
    cases part with
    | hole n => simp only [Entry.fillParts, ih (b := b) enough]
    | data n =>
      rw [dataLength] at enough
      have here : n ≤ b.length := by omega
      have here' : n ≤ (b ++ more).length := by rw [List.length_append]; omega
      have rest := ih (b := b.drop n) (by rw [List.length_drop]; omega)
      simp only [Entry.fillParts, if_neg (Nat.not_lt.2 here), if_neg (Nat.not_lt.2 here'),
        List.drop_append_of_le_length here, List.take_append_of_le_length here, rest]

/-- The parts of a file with holes and what is left of its data make up the size of the data. -/
def Holes.Balanced (size : Nat) (h : Holes) : Prop :=
  dataLength h.parts + h.left = size

theorem Holes.Balanced.add {h h' : Holes} {part : Bytes} (balanced : h.Balanced size)
    (added : h.add size part = some h') : h'.Balanced size := by
  simp only [Holes.add] at added
  split at added
  · cases added
    exact balanced
  · obtain ⟨offset, -, added⟩ := Option.bind_eq_some_iff.1 added
    obtain ⟨length, -, added⟩ := Option.bind_eq_some_iff.1 added
    simp only [Option.pure_def, Option.bind_eq_bind] at added
    split at added
    · cases added
    split at added
    · cases added
    split at added
    · cases added
    split at added
    · cases added
    · rename_i room
      cases added
      rw [Holes.Balanced] at balanced ⊢
      simp only [dataLength]
      split <;> simp only [dataLength, List.nil_append, List.cons_append] <;> omega

theorem Holes.Balanced.addAll {n : Nat} {h h' : Holes} (balanced : h.Balanced size)
    (added : Holes.addAll size n b h = some h') : h'.Balanced size := by
  induction n generalizing b h with
  | zero =>
    cases added
    exact balanced
  | succ n ih =>
    obtain ⟨h₁, first, rest⟩ := Option.bind_eq_some_iff.1 added
    exact ih (balanced.add first) rest

/-- Further blocks of parts are read alike, with as many steps as there are bytes. -/
theorem of_extend {h h' : Holes} (extended : Holes.extend size fuel s h = some (h', rest)) :
    (h.Balanced size → h'.Balanced size) ∧ ∃ b, s = rest.prepend b ∧ ∀ (rest' : Source) fuel',
      b.length < fuel' → Holes.extend size fuel' (rest'.prepend b) h = some (h', rest') := by
  induction fuel generalizing s h with
  | zero => cases extended
  | succ fuel ih =>
    rw [Holes.extend] at extended
    split at extended
    · rename_i block next read
      obtain ⟨hs, length⟩ := Source.of_nextBlock read
      obtain ⟨h₁, added, extended⟩ := Option.bind_eq_some_iff.1 extended
      have again (body : Source) : (body.prepend block).nextBlock blockSize = .block block body :=
        length ▸ Source.nextBlock_prepend body block
      split at extended
      · rename_i another
        obtain ⟨balanced, b, rfl, more⟩ := ih extended
        refine ⟨fun start => balanced (start.addAll added), block ++ b, ?_, fun rest' fuel' enough => ?_⟩
        · rw [hs, Source.prepend_append]
        · obtain ⟨f, rfl⟩ : ∃ f, fuel' = f + 1 := ⟨fuel' - 1, by omega⟩
          rw [List.length_append, length, blockSize] at enough
          rw [Source.prepend_append, Holes.extend, again]
          simp only [added, Option.bind_eq_bind, Option.bind_some, if_pos another]
          exact more rest' f (by omega)
      · rename_i last
        cases extended
        refine ⟨fun start => start.addAll added, block, hs, fun rest' fuel' enough => ?_⟩
        obtain ⟨f, rfl⟩ : ∃ f, fuel' = f + 1 := ⟨fuel' - 1, by omega⟩
        rw [Holes.extend, again]
        simp only [added, Option.bind_eq_bind, Option.bind_some, if_neg last]
        rfl
    · cases extended

def furtherParts (r : RawEntry) (h : Holes) : Option (Holes × Source) :=
  if (r.block.slice 482 1).headD 0 == 1 then Holes.extend r.size (r.body.bytes.length + 1) r.body h
  else some (h, r.body)

theorem sparseParts_eq (r : RawEntry) : sparseParts r =
    if !r.block.isGnu then none
    else (Holes.addAll r.size 4 (r.block.slice 386 96) ⟨0, r.size, []⟩).bind fun h =>
      (furtherParts r h).bind fun (h, body) =>
        (Block.octal? (r.block.slice 483 12)).bind fun real =>
          if h.reached ≠ real ∨ h.left ≠ 0 then none else some (real, h.parts.reverse, body) := by
  simp only [sparseParts, furtherParts, Option.bind_eq_bind, Option.pure_def]
  congr 2
  funext h
  split
  · cases Holes.extend r.size (r.body.bytes.length + 1) r.body h <;> rfl
  · rfl

theorem of_furtherParts {h h' : Holes} {body : Source} (further : furtherParts r h = some (h', body)) :
    (h.Balanced r.size → h'.Balanced r.size) ∧ ∃ b, r.body = body.prepend b ∧ ∀ body' : Source,
      furtherParts { r with body := body'.prepend b } h = some (h', body') := by
  rw [furtherParts] at further
  split at further
  · rename_i another
    obtain ⟨balanced, b, hb, again⟩ := of_extend further
    refine ⟨balanced, b, hb, fun body' => ?_⟩
    rw [furtherParts, if_pos another]
    refine again body' _ ?_
    rw [Source.bytes_prepend, List.length_append]
    omega
  · rename_i last
    cases further
    exact ⟨id, [], rfl, fun body' => if_neg last⟩

theorem of_sparseParts {real : Nat} {parts : List Part} {body : Source}
    (h : sparseParts r = some (real, parts, body)) : dataLength parts = r.size ∧
      ∃ b, r.body = body.prepend b ∧ ∀ body' : Source,
        sparseParts { r with body := body'.prepend b } = some (real, parts, body') := by
  rw [sparseParts_eq] at h
  split at h
  · cases h
  rename_i gnu
  obtain ⟨h₁, first, h⟩ := Option.bind_eq_some_iff.1 h
  obtain ⟨⟨h₂, body₂⟩, further, h⟩ := Option.bind_eq_some_iff.1 h
  obtain ⟨real', number, h⟩ := Option.bind_eq_some_iff.1 h
  split at h
  · cases h
  rename_i complete
  cases h
  have start : Holes.Balanced r.size ⟨0, r.size, []⟩ := Nat.zero_add _
  obtain ⟨balanced, b, hb, again⟩ := of_furtherParts further
  refine ⟨?_, b, hb, fun body' => ?_⟩
  · have whole := balanced (start.addAll first)
    rw [Holes.Balanced] at whole
    rw [dataLength_reverse]
    omega
  · simp only [sparseParts_eq, if_neg gnu, first, Option.bind_some, again, number, if_neg complete]

/-! ### Members -/

theorem same_of_parts {e : Entry} (hb : e.body = rest.prepend b)
    (enough : dataLength e.parts ≤ b.length) (body' : Source) :
    e.Same { e with body := body'.prepend b } := by
  refine ⟨rfl, ?_⟩
  rw [Entry.data, Entry.data, hb]
  exact (fillParts_append enough _).trans (fillParts_append enough _).symm

theorem of_complete {e : Entry} (h : complete r p = .member (e, some rest)) :
    ∃ b, r.body = rest.prepend b ∧ ∀ rest' : Source, ∃ e', e.Same e' ∧
      complete { r with body := rest'.prepend b } p = .member (e', some rest') := by
  rw [complete] at h
  split at h
  · rename_i sparse
    split at h
    · cases h
    · rename_i size parts body holes
      obtain ⟨rfl, skip⟩ := Prod.mk.inj (Next.member.inj h)
      obtain ⟨total, a, ha, again⟩ := of_sparseParts holes
      obtain ⟨b, hb, length⟩ := Source.of_skip? skip
      have enough : dataLength parts ≤ b.length := by
        rw [total, length]
        exact le_padded r.size
      refine ⟨a ++ b, by rw [ha, hb, Source.prepend_append], fun rest' => ⟨_, same_of_parts hb enough rest', ?_⟩⟩
      rw [complete, if_pos sparse, Source.prepend_append, again]
      simp only [← length, Source.skip?_prepend]
  · rename_i dense
    obtain ⟨rfl, skip⟩ := Prod.mk.inj (Next.member.inj h)
    obtain ⟨b, hb, length, again⟩ := of_after? skip
    have enough : dataLength [.data r.size] ≤ b.length := by
      rw [length]
      exact le_padded r.size
    refine ⟨b, hb, fun rest' => ⟨_, same_of_parts hb enough rest', ?_⟩⟩
    rw [complete, if_neg dense, (again rest').1]

/-- A member takes a block at least, and is read alike whatever comes after it. -/
theorem of_nextEntryFrom {e : Entry} (h : nextEntryFrom fuel s p = .member (e, some rest)) :
    ∃ b, s = rest.prepend b ∧ blockSize ≤ b.length ∧ ∀ (rest' : Source) fuel', b.length < fuel' →
      ∃ e', e.Same e' ∧ nextEntryFrom fuel' (rest'.prepend b) p = .member (e', some rest') := by
  induction fuel generalizing s p with
  | zero => cases h
  | succ fuel ih =>
    rw [nextEntryFrom] at h
    split at h
    · cases h
    · split at h <;> cases h
    · rename_i r raw
      obtain ⟨hs, length, again⟩ := of_nextRaw raw
      split at h
      · -- The header belongs to the member that is read after its data.
        rename_i forNext
        split at h
        · rename_i data middle hdata hafter
          obtain ⟨a, ha, -, skipped⟩ := of_after? hafter
          obtain ⟨-, same⟩ := skipped middle
          rw [← ha] at same
          split at h
          · rename_i p' added
            obtain ⟨b, hb, more, read⟩ := ih h
            refine ⟨r.block.bytes ++ (a ++ b), ?_, ?_, fun rest' fuel' enough => ?_⟩
            · rw [hs, ha, hb, Source.prepend_append, Source.prepend_append]
            · rw [List.length_append]
              omega
            · obtain ⟨f, rfl⟩ : ∃ f, fuel' = f + 1 := ⟨fuel' - 1, by omega⟩
              simp only [List.length_append, length, blockSize] at enough
              obtain ⟨e', he, next⟩ := read rest' f (by omega)
              refine ⟨e', he, ?_⟩
              obtain ⟨after', data'⟩ := skipped (rest'.prepend b)
              rw [hdata] at same
              rw [← same] at data'
              rw [Source.prepend_append, Source.prepend_append, nextEntryFrom, again]
              simp only [if_pos forNext, after', data', added]
              exact next
          · cases h
        · cases h
      · rename_i own
        obtain ⟨b, hb, read⟩ := of_complete h
        refine ⟨r.block.bytes ++ b, ?_, ?_, fun rest' fuel' enough => ?_⟩
        · rw [hs, hb, Source.prepend_append]
        · rw [List.length_append]
          omega
        · obtain ⟨f, rfl⟩ : ∃ f, fuel' = f + 1 := ⟨fuel' - 1, by omega⟩
          obtain ⟨e', he, next⟩ := read rest'
          refine ⟨e', he, ?_⟩
          rw [Source.prepend_append, nextEntryFrom, again]
          simp only [if_neg own]
          exact next

theorem of_nextEntry {e : Entry} (h : nextEntry s = .member (e, some rest)) :
    ∃ b, s = rest.prepend b ∧ blockSize ≤ b.length ∧ ∀ rest' : Source, ∃ e', e.Same e' ∧
      nextEntry (rest'.prepend b) = .member (e', some rest') := by
  obtain ⟨b, hs, length, again⟩ := of_nextEntryFrom h
  refine ⟨b, hs, length, fun rest' => again rest' _ ?_⟩
  rw [Source.bytes_prepend, List.length_append]
  omega

/-! ### Archives -/

/-- The members before another one take a block each at least, and with an end right after them they are
all that is read. -/
theorem of_entriesFrom {before after : List Entry} {e : Entry} {whole : Bool}
    (h : entriesFrom fuel s = (before ++ e :: after, whole)) : ∃ b rest alone,
      s = Source.prepend b rest ∧ blockSize * before.length ≤ b.length ∧
        List.Forall₂ Entry.Same before alone ∧ ∀ fuel', before.length < fuel' →
          entriesFrom fuel' (.ofBytes (b ++ ending)) = (alone, true) := by
  induction before generalizing fuel s with
  | nil =>
    refine ⟨[], s, [], rfl, Nat.zero_le _, .nil, fun fuel' enough => ?_⟩
    obtain ⟨f, rfl⟩ : ∃ f, fuel' = f + 1 := ⟨fuel' - 1, by omega⟩
    rw [List.nil_append, entriesFrom, nextEntry_ending]
  | cons x before ih =>
    cases fuel with
    | zero => cases h
    | succ fuel =>
      rw [entriesFrom] at h
      split at h
      · cases h
      · cases h
      · -- Nothing is read after a member that cannot be passed over.
        have none := (List.cons.inj (Prod.mk.inj h).1).2
        simp at none
      · rename_i x' rest next
        obtain ⟨rfl, hrest⟩ : x' = x ∧ entriesFrom fuel rest = (before ++ e :: after, whole) := by
          simp only [List.cons_append, Prod.mk.injEq, List.cons.injEq] at h
          exact ⟨h.1.1, Prod.ext h.1.2 h.2⟩
        obtain ⟨b, hs, length, again⟩ := of_nextEntry next
        obtain ⟨more, rest', alone, hmore, lengths, same, read⟩ := ih hrest
        obtain ⟨x₁, hx₁, next₁⟩ := again (.ofBytes (more ++ ending))
        refine ⟨b ++ more, rest', x₁ :: alone, ?_, ?_, .cons hx₁ same, fun fuel' enough => ?_⟩
        · rw [hs, hmore, Source.prepend_append]
        · rw [List.length_append, List.length_cons, Nat.mul_succ]
          omega
        · obtain ⟨f, rfl⟩ : ∃ f, fuel' = f + 1 := ⟨fuel' - 1, by omega⟩
          rw [List.length_cons] at enough
          rw [List.append_assoc, Source.ofBytes_append, entriesFrom, next₁]
          simp only [read f (by omega)]

/-- An archive can be ended after any member that another one follows. -/
theorem exists_beginning {before after : List Entry} {e : Entry} {whole : Bool}
    (h : entries s = (before ++ e :: after, whole)) : ∃ n alone,
      entries (.ofBytes (s.bytes.take n ++ ending)) = (alone, true) ∧
        List.Forall₂ Entry.Same before alone := by
  obtain ⟨b, rest, alone, rfl, lengths, same, read⟩ := of_entriesFrom h
  refine ⟨b.length, alone, ?_, same⟩
  rw [Source.bytes_prepend, List.take_left, entries]
  refine read _ ?_
  -- There are enough steps, each for a block.
  simp only [Source.ofBytes, List.length_append, blockSize] at lengths ⊢
  omega

end Tar
end ContainerBuild
