import ContainerBuild.Container.Destination
import ContainerBuild.Proofs.FilePath.Texts
import Mathlib.Data.List.DropRight
import Mathlib.Data.List.Induction

/-!
# Where a path puts a file

A path names a file if it does not end with a slash and its last step is a name. Then, and only then, it is
taken apart into a directory and a name, and these have the steps of the path: the name is its last step, and
the directory is the rest of it, or the root where there is nothing else.
-/

namespace ContainerBuild

namespace FilePath

/-- A path that can be the path of a file: it does not end with a slash, and its last step is a name. -/
def NamesFile (path : Bytes) : Prop :=
  path.getLast? ≠ some slash ∧ ∃ n, (components path).getLast? = some (.name n)

/-- The name that a step leads along, if it leads anywhere. -/
def Component.name? : Component → Option Name
  | .up => some dotDot
  | .name n => some n
  | _ => none

/-- The names that the steps of a path lead along, from the root on. -/
def way (path : Bytes) : List Name :=
  (components path).filterMap Component.name?

end FilePath

namespace Destination

open FilePath Utf8

variable {piece first name : List Char} {pieces rest before : List (List Char)} {p : String} {d : Destination}

/-! ### Pieces that name nothing -/

theorem isVoid_iff :
    isVoid piece = true ↔ encode (String.ofList piece) = [] ∨ encode (String.ofList piece) = dot := by
  have empty : encode (String.ofList piece) = [] ↔ piece = [] := by
    rw [encode_eq_nil_iff, ← String.toList_inj, String.toList_ofList]
    rfl
  have single : encode (String.ofList piece) = dot ↔ piece = ['.'] := by
    rw [show dot = encode (String.ofList ['.']) from rfl, encode_inj, String.ofList_inj]
  rw [empty, single, isVoid]
  simp

theorem isName_iff (plain : '/' ∉ piece) : isName piece = true ↔ IsName (encode (String.ofList piece)) := by
  have double : encode (String.ofList piece) = dotDot ↔ piece = ['.', '.'] := by
    rw [show dotDot = encode (String.ofList ['.', '.']) from rfl, encode_inj, String.ofList_inj]
  have slash : slash ∉ encode (String.ofList piece) := by
    rwa [slash_mem_encode_iff, String.toList_ofList]
  rw [FilePath.isName_iff, isName, Bool.and_eq_true, Bool.not_eq_true', Bool.eq_false_iff, Ne, isVoid_iff,
    bne_iff_ne, Ne, ← double, not_or]
  exact ⟨fun ⟨⟨ne, one⟩, two⟩ => ⟨ne, slash, one, two⟩, fun ⟨ne, _, one, two⟩ => ⟨⟨ne, one⟩, two⟩⟩

theorem dropVoidEnd_concat (pieces : List (List Char)) (piece : List Char) :
    dropVoidEnd (pieces ++ [piece]) = if isVoid piece then dropVoidEnd pieces else pieces ++ [piece] := by
  rw [dropVoidEnd, List.reverse_concat, List.dropWhile_cons]
  split
  · rfl
  · rw [List.reverse_cons, List.reverse_reverse]

/-- Pieces end with some that name nothing, and before them stands one that does, or there is none. -/
theorem dropVoidEnd_cases (pieces : List (List Char)) :
    dropVoidEnd pieces = [] ∧ (∀ piece ∈ pieces, isVoid piece = true) ∨
      ∃ before last voids, pieces = before ++ last :: voids ∧ dropVoidEnd pieces = before ++ [last] ∧
        isVoid last = false ∧ ∀ piece ∈ voids, isVoid piece = true := by
  induction pieces using List.reverseRecOn with
  | nil => exact .inl ⟨rfl, by simp⟩
  | append_singleton pieces piece ih =>
    rw [dropVoidEnd_concat]
    cases void : isVoid piece with
    | false => exact .inr ⟨pieces, piece, [], rfl, rfl, void, by simp⟩
    | true =>
      rw [if_pos rfl]
      rcases ih with ⟨nothing, all⟩ | ⟨before, last, voids, rfl, left, named, all⟩
      · exact .inl ⟨nothing, by simpa [or_imp, forall_and, void] using all⟩
      · exact .inr ⟨before, last, voids ++ [piece], by simp, left, named,
          by simpa [or_imp, forall_and, void] using all⟩

/-! ### Steps -/

def trailOf (pieces : List (List Char)) : List Component :=
  trail (pieces.map fun piece => encode (String.ofList piece))

theorem trailOf_append (a b : List (List Char)) : trailOf (a ++ b) = trailOf a ++ trailOf b := by
  rw [trailOf, List.map_append, trail_append]
  rfl

theorem trailOf_of_void (h : ∀ piece ∈ pieces, isVoid piece = true) : trailOf pieces = [] := by
  refine trail_of_void fun n hn => ?_
  obtain ⟨piece, hp, rfl⟩ := List.mem_map.1 hn
  exact isVoid_iff.1 (h piece hp)

theorem trailOf_cons (named : isVoid piece = false) (h : ∀ void ∈ rest, isVoid void = true) :
    trailOf (piece :: rest) = [.ofPiece (encode (String.ofList piece))] := by
  rw [Bool.eq_false_iff, Ne, isVoid_iff, not_or] at named
  rw [← List.singleton_append, trailOf_append, trailOf_of_void h, List.append_nil]
  exact trail_singleton named.1 named.2

theorem trailOf_dropVoidEnd (pieces : List (List Char)) : trailOf (dropVoidEnd pieces) = trailOf pieces := by
  rcases dropVoidEnd_cases pieces with ⟨nothing, all⟩ | ⟨before, last, voids, rfl, left, named, all⟩
  · rw [nothing, trailOf_of_void all]
    rfl
  · rw [left, trailOf_append, trailOf_append, trailOf_cons named all, trailOf_cons named (by simp)]

def startOf (first : List Char) (rest : List (List Char)) : List Component :=
  start (encode (String.ofList first)) (rest.map fun piece => encode (String.ofList piece))

def stepsOf (first : List Char) (rest : List (List Char)) : List Component :=
  startOf first rest ++ trailOf rest

theorem components_eq_stepsOf (h : Text.splitChars '/' piece = first :: rest) :
    components (encode (String.ofList piece)) = stepsOf first rest := by
  refine components_of_split ?_
  rw [split_encode, h, List.map_cons]

/-- The directory made of pieces has their steps; nothing at all stands for the root. -/
theorem components_directoryOf (plain : ∀ piece ∈ first :: before, '/' ∉ piece) (more : rest ≠ []) :
    components (encode (String.ofList (directoryOf (first :: before)))) =
      startOf first rest ++ trailOf before := by
  have others : (rest.map fun piece => encode (String.ofList piece)) ≠ [] := by simpa using more
  unfold directoryOf
  simp only
  split
  · rename_i empty
    obtain ⟨rfl, rfl⟩ : first = [] ∧ before = [] := by
      cases before with
      | nil => simpa using empty
      | cons second before => simp [List.intercalate_cons_cons] at empty
    have empty : encode (String.ofList []) = [] := rfl
    rw [startOf, start, if_pos empty, if_neg others]
    rfl
  · rename_i nonempty
    have cut : Text.splitChars '/' (['/'].intercalate (first :: before)) = first :: before := by
      rw [Text.splitChars_eq_splitOn]
      apply List.splitOn_intercalate
      · exact plain
      · exact List.cons_ne_nil _ _
    rw [components_eq_stepsOf cut, stepsOf]
    congr 1
    by_cases alone : before = []
    · subst alone
      have named : encode (String.ofList first) ≠ [] := by
        rw [Ne, encode_eq_nil_iff, ← String.toList_inj, String.toList_ofList]
        simpa using nonempty
      exact (if_neg named).trans (if_neg named).symm
    · exact start_congr (by simpa using alone) others

theorem directoryOf_ne_nil (pieces : List (List Char)) : directoryOf pieces ≠ [] := by
  unfold directoryOf
  simp only
  split
  · exact List.cons_ne_nil _ _
  · rename_i nonempty
    simpa using nonempty

theorem startOf_of_isName (named : IsName (encode (String.ofList first))) (rest : List (List Char)) :
    startOf first rest = [.name (encode (String.ofList first))] := by
  rw [startOf, start, if_neg named.nonempty, if_neg named.ne_dot, Component.ofPiece, if_neg named.ne_dotDot]

/-- A piece that counts and is no name leads upwards. -/
theorem ofPiece_of_not_isName (plain : '/' ∉ piece) (counts : isVoid piece = false)
    (unnamed : ¬IsName (encode (String.ofList piece))) :
    Component.ofPiece (encode (String.ofList piece)) = .up := by
  rw [Bool.eq_false_iff, Ne, isVoid_iff, not_or] at counts
  refine if_pos ?_
  by_contra other
  refine unnamed (FilePath.isName_iff.2 ⟨counts.1, ?_, counts.2, other⟩)
  rwa [slash_mem_encode_iff, String.toList_ofList]

theorem getLast?_startOf_ne_name (plain : '/' ∉ first) (unnamed : ¬IsName (encode (String.ofList first)))
    (rest : List (List Char)) (n : Name) : (startOf first rest).getLast? ≠ some (.name n) := by
  cases void : isVoid first with
  | false =>
    have counts := void
    rw [Bool.eq_false_iff, Ne, isVoid_iff, not_or] at counts
    rw [startOf, start, if_neg counts.1, if_neg counts.2, ofPiece_of_not_isName plain void unnamed]
    simp
  | true =>
    unfold startOf start
    rcases isVoid_iff.1 void with empty | here
    · rw [if_pos empty]
      split <;> simp
    · rw [here, if_neg (by decide), if_pos rfl]
      simp

/-! ### Parts of a path -/

/-- What a directory and a name in it have to do with some steps: together they have these steps, unless the
name is the only one. A path of one name is one in the root. -/
structure Parts (steps : List Component) (directory name : String) : Prop where
  isName : IsName (encode name)
  nonempty : directory ≠ ""
  eq : steps = components (encode directory) ++ [.name (encode name)] ∨
    steps = [.name (encode name)] ∧ directory = "/"

/-- Pieces are taken apart if the last one that counts is a name. -/
theorem ofPieces_cases (plain : ∀ piece ∈ first :: rest, '/' ∉ piece) :
    (∃ directory name, ofPieces first rest = .ok (directory, name) ∧
      Parts (stepsOf first rest) (String.ofList directory) (String.ofList name)) ∨
    ofPieces first rest = .error .noName ∧ ∀ n, (stepsOf first rest).getLast? ≠ some (.name n) := by
  obtain ⟨plainFirst, plainRest⟩ := List.forall_mem_cons.1 plain
  unfold ofPieces
  rcases dropVoidEnd_cases rest with ⟨nothing, all⟩ | ⟨before, name, voids, rfl, left, counts, all⟩
  · rw [nothing, stepsOf, trailOf_of_void all, List.append_nil]
    simp only [List.reverse_nil]
    split
    · rename_i named
      rw [isName_iff plainFirst] at named
      rw [startOf_of_isName named]
      exact .inl ⟨['/'], first, rfl, named, by decide, .inr ⟨rfl, rfl⟩⟩
    · rename_i unnamed
      rw [isName_iff plainFirst] at unnamed
      exact .inr ⟨rfl, getLast?_startOf_ne_name plainFirst unnamed rest⟩
  · have plainName : '/' ∉ name := plainRest name (by simp)
    rw [left, List.reverse_concat, stepsOf, trailOf_append, trailOf_cons counts all, ← List.append_assoc]
    simp only [List.reverse_reverse]
    split
    · rename_i named
      rw [isName_iff plainName] at named
      have last : Component.ofPiece (encode (String.ofList name)) = .name _ := if_neg named.ne_dotDot
      have fewer : ∀ piece ∈ first :: dropVoidEnd before, '/' ∉ piece := by
        refine List.forall_mem_cons.2 ⟨plainFirst, fun piece hp => plainRest piece ?_⟩
        have kept : dropVoidEnd before <+: before := List.rdropWhile_prefix isVoid before
        exact List.mem_append_left _ (kept.subset hp)
      refine .inl ⟨_, name, rfl, named, ?_, .inl ?_⟩
      · rw [Ne, ← String.toList_inj, String.toList_ofList]
        exact directoryOf_ne_nil _
      · have more : before ++ name :: voids ≠ [] := by simp
        rw [components_directoryOf fewer more, trailOf_dropVoidEnd, last]
    · rename_i unnamed
      rw [isName_iff plainName] at unnamed
      refine .inr ⟨rfl, fun n => ?_⟩
      rw [ofPiece_of_not_isName plainName counts unnamed, List.getLast?_concat]
      exact fun h => Component.noConfusion (Option.some.inj h)

/-- A path that names a file is taken apart into a directory and a name; any other path is refused. -/
theorem parse_cases (p : String) :
    NamesFile (encode p) ∧ (∃ d, parse p = .ok d ∧ Parts (components (encode p)) d.directory d.name) ∨
    ¬NamesFile (encode p) ∧ ∃ flaw : Flaw, parse p = .error (.archive (flaw.reason p)) := by
  unfold parse ofChars NamesFile
  rw [Ne, getLast?_encode_iff]
  by_cases ends : p.toList.getLast? = some '/'
  · rw [if_pos ends]
    exact .inr ⟨fun h => h.1 ends, .namesDirectory, rfl⟩
  · rw [if_neg ends]
    obtain ⟨first, rest, cut⟩ := List.exists_cons_of_ne_nil (Text.splitChars_ne_nil '/' p.toList)
    have steps : components (encode p) = stepsOf first rest := by
      rw [← components_eq_stepsOf cut, String.ofList_toList]
    have plain : ∀ piece ∈ first :: rest, '/' ∉ piece := by
      rw [← cut]
      exact fun piece hp => Text.notMem_of_mem_splitChars hp
    rw [cut, steps]
    simp only
    rcases ofPieces_cases plain with ⟨directory, name, taken, parts⟩ | ⟨refused, unnamed⟩
    · rw [taken]
      refine .inl ⟨⟨ends, encode (String.ofList name), ?_⟩, _, rfl, parts⟩
      rcases parts.eq with eq | ⟨eq, -⟩
      · rw [eq, List.getLast?_concat]
      · rw [eq]
        rfl
    · rw [refused]
      exact .inr ⟨fun ⟨_, n, hn⟩ => unnamed n hn, .noName, rfl⟩

theorem Parts.way {path : Bytes} {directory name : String} (h : Parts (components path) directory name) :
    way path = way (encode directory) ++ [encode name] := by
  unfold FilePath.way
  rcases h.eq with eq | ⟨eq, rfl⟩
  · rw [eq, List.filterMap_append]
    rfl
  · rw [eq]
    rfl

end Destination
end ContainerBuild
