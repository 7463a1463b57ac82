import ContainerBuild.CommandLine
import ContainerBuild.Proofs.Bytes.Characters
import ContainerBuild.Proofs.FilePath.Steps
import ContainerBuild.Proofs.Text.Splitting

/-!
# Paths that are texts

No character but the slash itself has the byte of a slash in its encoding. So a text and its bytes are cut at
the same places, and a name that is joined to a directory is one more step at the end.
-/

namespace ContainerBuild

namespace Utf8

variable {c : Char} {x : UInt8}

/-- A byte below 128 is in the encoding of no character but the one that has this number. -/
theorem toNat_eq_of_mem_utf8EncodeChar (h : x ∈ String.utf8EncodeChar c) (small : x.toNat < 128) :
    c.toNat = x.toNat := by
  have large {n : Nat} (hn : 128 ≤ n) (hn' : n < 256) : x ≠ UInt8.ofNat n := by
    rw [Ne, eq_ofNat_iff hn']
    omega
  rw [← Char.ofNat_toNat c, encodeChar_ofNat (n := c.toNat) c.valid] at h
  split at h
  · rename_i ascii
    have value := (eq_ofNat_iff (by omega)).1 (List.mem_singleton.1 h)
    exact value.symm
  split at h
  · simp only [List.mem_cons, List.not_mem_nil, or_false] at h
    rcases h with h | h
    all_goals exact absurd h (large (by omega) (by omega))
  split at h
  · simp only [List.mem_cons, List.not_mem_nil, or_false] at h
    rcases h with h | h | h
    all_goals exact absurd h (large (by omega) (by omega))
  · simp only [List.mem_cons, List.not_mem_nil, or_false] at h
    rcases h with h | h | h | h
    all_goals exact absurd h (large (by omega) (by omega))

theorem slash_mem_utf8EncodeChar_iff : FilePath.slash ∈ String.utf8EncodeChar c ↔ c = '/' := by
  constructor
  · intro h
    exact Char.toNat_inj.1 (toNat_eq_of_mem_utf8EncodeChar h (by decide))
  · rintro rfl
    decide

theorem encode_ofList_cons (c : Char) (cs : List Char) :
    encode (String.ofList (c :: cs)) = String.utf8EncodeChar c ++ encode (String.ofList cs) := by
  rw [encode_ofList, encode_ofList, List.flatMap_cons]

theorem encode_inj {s t : String} : encode s = encode t ↔ s = t := by
  constructor
  · intro h
    have back := decode?_encode s
    rw [h, decode?_encode] at back
    exact (Option.some.inj back).symm
  · rintro rfl
    rfl

theorem encode_eq_nil_iff {s : String} : encode s = [] ↔ s = "" :=
  encode_inj (t := "")

end Utf8

namespace Bytes

variable {sep : UInt8}

theorem split_append_of_notMem {a : Bytes} (h : sep ∉ a) (b : Bytes) :
    split sep (a ++ b) = (a ++ (split sep b).headD []) :: (split sep b).tail := by
  induction a with
  | nil =>
    obtain ⟨first, rest, hs⟩ := List.exists_cons_of_ne_nil (split_ne_nil sep b)
    rw [List.nil_append, hs]
    rfl
  | cons x a ih =>
    rw [List.mem_cons, not_or] at h
    rw [List.cons_append, split_cons_of_ne (Ne.symm h.1), ih h.2]
    rfl

end Bytes

namespace FilePath

open Utf8 (encode)

variable {path : Bytes} {first n : Name} {rest : List Name} {cs : List Char}

theorem slash_mem_encode_iff {s : String} : slash ∈ encode s ↔ '/' ∈ s.toList := by
  rw [← String.ofList_toList (s := s), Utf8.encode_ofList, List.mem_flatMap, String.toList_ofList]
  simp [Utf8.slash_mem_utf8EncodeChar_iff]

theorem getLast?_encode_iff {s : String} :
    (encode s).getLast? = some slash ↔ s.toList.getLast? = some '/' := by
  rw [← String.ofList_toList (s := s), String.toList_ofList]
  rcases List.eq_nil_or_concat s.toList with h | ⟨cs, c, h⟩
  · rw [h]
    decide
  · have nonempty := String.utf8EncodeChar_ne_nil (c := c)
    rw [h, List.concat_eq_append, Utf8.encode_ofList, List.flatMap_append, List.flatMap_singleton,
      List.getLast?_append, List.getLast?_eq_some_getLast nonempty, Option.some_or,
      ← List.getLast?_eq_some_getLast nonempty, List.getLast?_concat, Option.some.injEq]
    constructor
    · exact fun last => Utf8.slash_mem_utf8EncodeChar_iff.1 (List.mem_of_getLast? last)
    · rintro rfl
      decide

theorem split_encode (cs : List Char) : Bytes.split slash (encode (String.ofList cs)) =
    (Text.splitChars '/' cs).map fun piece => encode (String.ofList piece) := by
  induction cs with
  | nil => rfl
  | cons c cs ih =>
    rw [Utf8.encode_ofList_cons, Text.splitChars]
    by_cases hc : c = '/'
    · subst hc
      rw [if_pos rfl, List.map_cons, ← ih]
      exact Bytes.split_cons_self slash _
    · obtain ⟨piece, pieces, hp⟩ := List.exists_cons_of_ne_nil (Text.splitChars_ne_nil '/' cs)
      rw [if_neg hc, Bytes.split_append_of_notMem (mt Utf8.slash_mem_utf8EncodeChar_iff.1 hc), ih, hp]
      simp only [List.map_cons, List.headD_cons, List.tail_cons, Utf8.encode_ofList_cons]

/-! ### Steps by pieces -/

/-- The step of the piece before the first slash. An empty one is the root, if there is a slash after it. -/
def start (first : Name) (rest : List Name) : List Component :=
  if first = [] then if rest = [] then [] else [.root]
  else if first = dot then [.here] else [.ofPiece first]

theorem start_congr {rest' : List Name} (h : rest ≠ []) (h' : rest' ≠ []) :
    start first rest = start first rest' := by
  rw [start, start, if_neg h, if_neg h']

def trail (rest : List Name) : List Component :=
  steps (rest.filter fun piece => !piece.isEmpty)

theorem trail_append (a b : List Name) : trail (a ++ b) = trail a ++ trail b := by
  rw [trail, List.filter_append, steps, List.filter_append, List.map_append]
  rfl

theorem trail_of_void (h : ∀ n ∈ rest, n = [] ∨ n = dot) : trail rest = [] := by
  rw [trail, steps, List.map_eq_nil_iff, List.filter_filter, List.filter_eq_nil_iff]
  intro n hn
  rcases h n hn with rfl | rfl <;> decide

theorem trail_nothing : trail [[]] = [] := rfl

theorem trail_singleton (hn : n ≠ []) (hd : n ≠ dot) : trail [n] = [.ofPiece n] := by
  simp [trail, steps, hn, hd]

theorem components_of_split (h : Bytes.split slash path = first :: rest) :
    components path = start first rest ++ trail rest := by
  have whole := Bytes.intercalate_split slash path
  have cut : pieces path = (first :: rest).filter fun piece => !piece.isEmpty := by rw [pieces, h]
  rw [h] at whole
  rw [components_eq, cut, start]
  by_cases hf : first = []
  · subst hf
    cases rest with
    | nil =>
      obtain rfl : [] = path := whole
      rfl
    | cons second rest =>
      rw [List.intercalate_cons_cons] at whole
      have absolute : isAbsolute path = true := by
        rw [← whole]
        rfl
      simp [absolute, trail]
  · have piece : IsPiece first :=
      ⟨hf, Bytes.notMem_of_mem_split (by rw [h]; exact List.mem_cons_self)⟩
    have relative : isAbsolute path = false := by
      cases rest with
      | nil =>
        rw [List.intercalate_singleton] at whole
        rw [← whole, isAbsolute_of_isPiece piece]
      | cons second rest =>
        rw [List.intercalate_cons_cons, List.append_assoc] at whole
        rw [← whole, isAbsolute_append hf, isAbsolute_of_isPiece piece]
    rw [relative, List.filter_cons_of_pos (by simpa using hf), if_neg hf]
    simp only [Bool.false_eq_true, if_false]
    by_cases hd : first = dot
    · rw [if_pos hd, if_pos hd]
      rfl
    · rw [if_neg hd, if_neg hd, steps, List.filter_cons_of_pos (by simpa using hd), List.map_cons]
      rfl

/-! ### Names in a directory -/

theorem split_append_slash {a : Bytes} (cut : Bytes.split slash a = first :: rest) (hn : slash ∉ n) :
    Bytes.split slash (a ++ slash :: n) = first :: (rest ++ [n]) := by
  rw [Bytes.split_append, cut, Bytes.split_of_notMem hn]
  rfl

/-- A slash at the end of a path is no step, unless it is the whole path. -/
theorem components_append_slash {a : Bytes} (ha : a ≠ []) : components (a ++ [slash]) = components a := by
  obtain ⟨first, rest, cut⟩ := List.exists_cons_of_ne_nil (Bytes.split_ne_nil slash a)
  have longer := split_append_slash cut List.not_mem_nil
  have begin : start first (rest ++ [[]]) = start first rest := by
    unfold start
    split
    · rename_i hf
      have more : rest ≠ [] := by
        rintro rfl
        have whole := Bytes.intercalate_split slash a
        rw [cut, hf] at whole
        exact ha whole.symm
      rw [if_neg (by simp), if_neg more]
    · rfl
  rw [components_of_split longer, components_of_split cut, begin, trail_append,
    trail_nothing, List.append_nil]

theorem components_append_name (a : Bytes) (hn : IsName n) :
    components (a ++ slash :: n) = components (a ++ [slash]) ++ [.name n] := by
  obtain ⟨first, rest, cut⟩ := List.exists_cons_of_ne_nil (Bytes.split_ne_nil slash a)
  have named := split_append_slash cut hn.no_slash
  have ended := split_append_slash cut List.not_mem_nil
  have last : Component.ofPiece n = .name n := if_neg hn.ne_dotDot
  have begin : start first (rest ++ [n]) = start first (rest ++ [[]]) := start_congr (by simp) (by simp)
  rw [components_of_split named, components_of_split ended, begin, trail_append, trail_append,
    trail_nothing, trail_singleton hn.nonempty hn.ne_dot, last, List.append_nil, List.append_assoc]

theorem endsWith_slash_iff {s : String} :
    Text.endsWith "/" s = true ↔ ∃ before, s = before ++ "/" := by
  have drop (cs : List Char) :
      (Text.dropPrefixChars ['/'] cs).isSome = true ↔ ∃ rest, cs = '/' :: rest := by
    cases cs with
    | nil => simp [Text.dropPrefixChars]
    | cons c cs =>
      rw [Text.dropPrefixChars]
      by_cases hc : '/' = c
      · subst hc
        simp [Text.dropPrefixChars]
      · simp [hc, Ne.symm hc]
  rw [Text.endsWith]
  refine (drop _).trans ?_
  constructor
  · rintro ⟨rest, h⟩
    refine ⟨String.ofList rest.reverse, ?_⟩
    rw [← String.toList_inj, String.toList_append, String.toList_ofList, ← List.reverse_reverse s.toList, h,
      List.reverse_cons]
    rfl
  · rintro ⟨before, rfl⟩
    refine ⟨before.toList.reverse, ?_⟩
    rw [String.toList_append, List.reverse_append]
    rfl

theorem components_joinPath {directory name : String} (hd : directory ≠ "") (hn : IsName (encode name)) :
    components (encode (CommandLine.joinPath directory name)) =
      components (encode directory) ++ [.name (encode name)] := by
  have separator : encode "/" = [slash] := rfl
  unfold CommandLine.joinPath
  split
  · rename_i ends
    obtain ⟨before, rfl⟩ := endsWith_slash_iff.1 ends
    rw [Utf8.encode_append, Utf8.encode_append, separator, List.append_assoc]
    exact components_append_name _ hn
  · rw [Utf8.encode_append, Utf8.encode_append, separator, List.append_assoc, List.singleton_append,
      components_append_name _ hn, components_append_slash (mt Utf8.encode_eq_nil_iff.1 hd)]

end FilePath
end ContainerBuild
