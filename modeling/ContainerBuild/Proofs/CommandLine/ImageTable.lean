import ContainerBuild.CommandLine
import ContainerBuild.Proofs.Bytes.Cuts
import ContainerBuild.Proofs.Text.Splitting
import ContainerBuild.Proofs.Traversal

/-!
# Rows of images

Each image has one row, with the longest beginning of its identifier that has room, its size and its names.
But the identifier is cut at a place in its bytes, which may be inside a character: then the row is missing
and so are those after it. A table is complete just if no identifier is torn so.
-/

namespace ContainerBuild
namespace CommandLine

variable {id row : String} {rest shown : List Char} {i : ImageSummary}
  {before after images : List ImageSummary}

/-! ### Rows -/

/-- What is left of an identifier without the stems at its start, however many they are. -/
def Bare (id : String) (rest : List Char) : Prop :=
  ∃ k, id.toList = (List.replicate k digestStem.toList).flatten ++ rest ∧ ¬digestStem.toList <+: rest

/-- What is shown of an identifier: as many whole characters as have room. -/
def Shows (id : String) (shown : List Char) : Prop :=
  ∃ rest, Bare id rest ∧ Utf8.Longest shownBytes rest shown

/-- The row of an image. -/
def IsRow (i : ImageSummary) (row : String) : Prop :=
  ∃ shown, Shows i.id shown ∧
    row = line (String.ofList shown) (toString i.size) (Text.join ", " i.repoTags)

/-- An identifier with a character that begins where there is room and ends where there is none. -/
def Torn (id : String) : Prop :=
  ∃ rest, Bare id rest ∧ Utf8.Splits shownBytes rest

theorem bare_iff :
    Bare id rest ↔ Text.dropAllPrefixesChars digestStem.toList id.toList = rest :=
  (Text.dropAllPrefixesChars_eq_iff (by decide)).symm

theorem exists_bare (id : String) : ∃ rest, Bare id rest :=
  ⟨_, bare_iff.2 rfl⟩

theorem Bare.unique {rest' : List Char} (h : Bare id rest) (h' : Bare id rest') : rest = rest' :=
  (bare_iff.1 h).symm.trans (bare_iff.1 h')

theorem Bare.torn_iff (h : Bare id rest) : Torn id ↔ Utf8.Splits shownBytes rest := by
  constructor
  · intro torn
    obtain ⟨rest', h', splits⟩ := torn
    rwa [h.unique h']
  · intro splits
    exact ⟨rest, h, splits⟩

theorem Bare.shortId?_eq (h : Bare id rest) :
    shortId? id = Utf8.decode? ((Utf8.encode (String.ofList rest)).take shownBytes) := by
  rw [shortId?, Text.dropAllPrefixes, bare_iff.1 h]

theorem row?_of_torn (torn : Torn i.id) : row? i = none := by
  obtain ⟨rest, bare, splits⟩ := torn
  rw [row?, bare.shortId?_eq, Utf8.decode?_take_eq_none_iff.2 splits, Option.map_none]

theorem exists_row? (whole : ¬Torn i.id) : ∃ row, row? i = some row ∧ IsRow i row := by
  obtain ⟨rest, bare⟩ := exists_bare i.id
  obtain ⟨shown, longest⟩ := Utf8.exists_longest shownBytes rest
  rw [bare.torn_iff] at whole
  refine ⟨_, ?_, shown, ⟨rest, bare, longest⟩, rfl⟩
  rw [row?, bare.shortId?_eq, Utf8.decode?_take_eq_some_iff.2 ⟨longest, whole⟩, Option.map_some]

theorem existsUnique_isRow (i : ImageSummary) : ∃! row, IsRow i row := by
  obtain ⟨rest, bare⟩ := exists_bare i.id
  obtain ⟨shown, longest⟩ := Utf8.exists_longest shownBytes rest
  refine ⟨_, ⟨shown, ⟨rest, bare, longest⟩, rfl⟩, ?_⟩
  intro row isRow
  obtain ⟨shown', ⟨rest', bare', longest'⟩, rfl⟩ := isRow
  obtain rfl := bare.unique bare'
  obtain rfl := longest.unique longest'
  rfl

theorem rows_of_torn (torn : Torn i.id) (after : List ImageSummary) :
    rows (i :: after) = ("", false) := by
  simp [rows, row?_of_torn torn]

/-- Images whose identifiers are not torn have their rows before those of the images after them. -/
theorem exists_rows (whole : ∀ i ∈ before, ¬Torn i.id) (after : List ImageSummary) :
    ∃ lines, List.Forall₂ IsRow before lines ∧
      rows (before ++ after) = (String.join lines ++ (rows after).1, (rows after).2) := by
  induction before with
  | nil => exact ⟨[], .nil, by simp⟩
  | cons i before ih =>
    obtain ⟨hi, hbefore⟩ := List.forall_mem_cons.1 whole
    obtain ⟨lines, isRows, hrows⟩ := ih hbefore
    obtain ⟨row, hrow, isRow⟩ := exists_row? hi
    refine ⟨row :: lines, .cons isRow isRows, ?_⟩
    simp [rows, hrow, hrows, String.append_assoc]

/-! ### Tables -/

def exitOf (images : List ImageSummary) : Exit :=
  let out := Utf8.encode (header ++ (rows images).1)
  if (rows images).2 then Exit.success out
  else ⟨Exit.abortCode, out, "an identifier cannot be cut inside a character\n"⟩

/-- All images are listed, one in a row and in their order, and the run succeeds. -/
def Complete (images : List ImageSummary) (exit : Exit) : Prop :=
  ∃ lines, List.Forall₂ IsRow images lines ∧
    exit = Exit.success (Utf8.encode (header ++ String.join lines))

/-- How a run ends that has images to list. There is one row for each of them, and they are all listed
unless an identifier is torn; then the run gives up at the first such image and has listed the ones before. -/
structure Lists (images : List ImageSummary) (exit : Exit) : Prop where
  row : ∀ i ∈ images, ∃! row, IsRow i row
  complete_iff : Complete images exit ↔ ∀ i ∈ images, ¬Torn i.id
  torn : ∀ before i after, images = before ++ i :: after → (∀ j ∈ before, ¬Torn j.id) → Torn i.id →
    exit.code = Exit.abortCode ∧
      ∃ lines, List.Forall₂ IsRow before lines ∧ exit.out = Utf8.encode (header ++ String.join lines)

theorem complete_of_whole (whole : ∀ i ∈ images, ¬Torn i.id) : Complete images (exitOf images) := by
  obtain ⟨lines, isRows, hrows⟩ := exists_rows whole []
  rw [List.append_nil] at hrows
  refine ⟨lines, isRows, ?_⟩
  simp [exitOf, hrows]

theorem exitOf_of_torn (whole : ∀ j ∈ before, ¬Torn j.id) (torn : Torn i.id)
    (after : List ImageSummary) :
    (exitOf (before ++ i :: after)).code = Exit.abortCode ∧
      ∃ lines, List.Forall₂ IsRow before lines ∧
        (exitOf (before ++ i :: after)).out = Utf8.encode (header ++ String.join lines) := by
  obtain ⟨lines, isRows, hrows⟩ := exists_rows whole (i :: after)
  rw [rows_of_torn torn] at hrows
  rw [exitOf, hrows]
  exact ⟨rfl, lines, isRows, by simp⟩

theorem Complete.ne_abortCode {exit : Exit} (h : Complete images exit) :
    exit.code ≠ Exit.abortCode := by
  obtain ⟨lines, -, rfl⟩ := h
  simp [Exit.success, Exit.abortCode]

theorem lists_exitOf (images : List ImageSummary) : Lists images (exitOf images) := by
  refine ⟨fun i _ => existsUnique_isRow i, ⟨?_, complete_of_whole⟩, ?_⟩
  · intro complete
    rcases FirstWithout.all_or_exists (fun i : ImageSummary => ¬Torn i.id) images with
      whole | ⟨i, before, after, rfl, whole, torn⟩
    · exact whole
    · have aborted := (exitOf_of_torn whole (not_not.1 torn) after).1
      exact absurd aborted complete.ne_abortCode
  · intro before i after split whole torn
    subst split
    exact exitOf_of_torn whole torn after

end CommandLine
end ContainerBuild
