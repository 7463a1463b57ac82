import ContainerBuild.ImageReference
import ContainerBuild.Proofs.Text.Splitting

/-!
# Which texts name an image

A text has a digest, a tag, a host and a repository where its separators put them, whether or not it
names an image. It names one if none of the parts is empty, and then the reference holds these
parts. Put together again they are the text, so a reference prints as it was written.
-/

namespace ContainerBuild
namespace ImageReference

/-! ### The parts of a text -/

/-- What stands before the first at sign. -/
def beforeDigest (t : List Char) : List Char :=
  t.takeWhile (· != '@')

def digestOf (t : List Char) : Option (List Char) :=
  if '@' ∈ t then some (t.dropWhile (· != '@')).tail else none

def lastSegment (rest : List Char) : List Char :=
  Text.lastPiece '/' rest

/-- What stands after the last colon of the last segment. -/
def tagOf (rest : List Char) : Option (List Char) :=
  if ':' ∈ lastSegment rest then some (Text.lastPiece ':' (lastSegment rest)) else none

/-- What is left without the tag and its colon. -/
def beforeTag (rest : List Char) : List Char :=
  match tagOf rest with
  | some tag => rest.take (rest.length - (tag.length + 1))
  | none => rest

def firstSegment (name : List Char) : List Char :=
  name.takeWhile (· != '/')

def NamesHost (segment : List Char) : Prop :=
  '.' ∈ segment ∨ ':' ∈ segment ∨ segment = "localhost".toList

instance (segment : List Char) : Decidable (NamesHost segment) :=
  inferInstanceAs (Decidable (_ ∨ _))

/-- The first segment, if it is followed by a slash and names a host. -/
def hostOf (name : List Char) : Option (List Char) :=
  if '/' ∈ name ∧ NamesHost (firstSegment name) then some (firstSegment name) else none

def afterHost (name : List Char) : List Char :=
  match hostOf name with
  | some host => name.drop (host.length + 1)
  | none => name

/-- The text without tag and digest. -/
def nameOf (t : List Char) : List Char :=
  beforeTag (beforeDigest t)

/-- The reference that has the parts of a text. -/
def ofParts (t : List Char) : ImageReference where
  registry := (hostOf (nameOf t)).map String.ofList
  repository := String.ofList (afterHost (nameOf t))
  tag := (tagOf (beforeDigest t)).map String.ofList
  digest := (digestOf t).map String.ofList

/-- A text that names an image. -/
structure Acceptable (t : List Char) : Prop where
  nonempty : t ≠ []
  solid : ∀ c ∈ t, Text.isBlank c = false
  digest : digestOf t ≠ some []
  tag : tagOf (beforeDigest t) ≠ some []
  repository : afterHost (nameOf t) ≠ []
  segments : [] ∉ (afterHost (nameOf t)).splitOn '/'

variable {t rest name tag host digest : List Char} {r : ImageReference}

/-! ### Putting a text together again -/

theorem at_notMem_beforeDigest (t : List Char) : '@' ∉ beforeDigest t :=
  Text.notMem_takeWhile '@' t

theorem digestOf_eq_some (h : digestOf t = some digest) : beforeDigest t ++ '@' :: digest = t := by
  unfold digestOf at h
  split at h
  · rename_i hm
    obtain rfl := Option.some.inj h
    exact Text.takeWhile_append_tail hm
  · cases h

theorem beforeDigest_of_none (h : digestOf t = none) : beforeDigest t = t := by
  unfold digestOf at h
  split at h
  · cases h
  · rename_i hm
    exact Text.takeWhile_of_notMem hm

theorem splitLastSegment_append (rest : List Char) :
    (splitLastSegment rest).1 ++ (splitLastSegment rest).2 = rest := by
  unfold splitLastSegment
  split
  · rename_i hs
    rw [(Text.splitLastChars_eq_some_iff.1 hs).1, List.append_assoc, List.singleton_append]
  · rfl

theorem splitLastSegment_snd (rest : List Char) : (splitLastSegment rest).2 = lastSegment rest := by
  unfold splitLastSegment lastSegment
  split
  · rename_i hs
    obtain ⟨rfl, hn⟩ := Text.splitLastChars_eq_some_iff.1 hs
    rw [Text.lastPiece_append hn]
  · rename_i hs
    rw [Text.lastPiece_of_notMem (Text.splitLastChars_eq_none_iff.1 hs)]

theorem tagOf_eq_some (h : tagOf rest = some tag) : beforeTag rest ++ ':' :: tag = rest := by
  have hb : beforeTag rest = rest.take (rest.length - (tag.length + 1)) := by
    rw [beforeTag, h]
  obtain ⟨front, hf⟩ : ∃ front, rest = front ++ ':' :: tag := by
    unfold tagOf at h
    split at h
    · rename_i hm
      obtain rfl := Option.some.inj h
      obtain ⟨stem, hs⟩ := Text.exists_lastPiece hm
      refine ⟨(splitLastSegment rest).1 ++ stem, ?_⟩
      rw [List.append_assoc, ← hs, ← splitLastSegment_snd, splitLastSegment_append]
    · cases h
  rw [hb, hf]
  simp

theorem beforeTag_of_none (h : tagOf rest = none) : beforeTag rest = rest := by
  rw [beforeTag, h]

theorem hostOf_eq_some (h : hostOf name = some host) : host ++ '/' :: afterHost name = name := by
  have ha : afterHost name = name.drop (host.length + 1) := by
    rw [afterHost, h]
  obtain ⟨more, hm⟩ : ∃ more, name = host ++ '/' :: more := by
    unfold hostOf at h
    split at h
    · rename_i hm
      obtain rfl := Option.some.inj h
      exact ⟨_, (Text.takeWhile_append_tail hm.1).symm⟩
    · cases h
  rw [ha, hm]
  simp

theorem afterHost_of_none (h : hostOf name = none) : afterHost name = name := by
  rw [afterHost, h]

theorem toList_name_ofParts (t : List Char) : (ofParts t).name.toList = nameOf t := by
  cases h : hostOf (nameOf t) with
  | none => simp [name, ofParts, h, afterHost_of_none]
  | some host =>
    have hn := hostOf_eq_some h
    simpa [name, ofParts, h] using hn

theorem toList_text (r : ImageReference) : r.text.toList =
    r.name.toList ++ r.tag.elim [] (fun tag => ':' :: tag.toList) ++
      r.digest.elim [] fun digest => '@' :: digest.toList := by
  obtain ⟨registry, repository, _ | tag, _ | digest⟩ := r <;> simp [text]

theorem beforeTag_append (rest : List Char) :
    beforeTag rest ++ (tagOf rest).elim [] (fun tag => ':' :: tag) = rest := by
  cases h : tagOf rest with
  | none => rw [beforeTag_of_none h, Option.elim_none, List.append_nil]
  | some tag => exact tagOf_eq_some h

theorem beforeDigest_append (t : List Char) :
    beforeDigest t ++ (digestOf t).elim [] (fun digest => '@' :: digest) = t := by
  cases h : digestOf t with
  | none => rw [beforeDigest_of_none h, Option.elim_none, List.append_nil]
  | some digest => exact digestOf_eq_some h

/-- Whatever the parts of a text are, printing them gives the text. -/
theorem text_ofParts (t : List Char) : (ofParts t).text = String.ofList t := by
  rw [← String.toList_inj, String.toList_ofList, toList_text, toList_name_ofParts]
  simp only [ofParts, Option.elim_map, Function.comp_def, String.toList_ofList]
  rw [nameOf, beforeTag_append, beforeDigest_append]

/-- A tag is part of one segment before the digest, with no colon in it. -/
theorem notMem_tag (h : tagOf (beforeDigest t) = some tag) :
    '/' ∉ tag ∧ ':' ∉ tag ∧ '@' ∉ tag := by
  have hrest := tagOf_eq_some h
  unfold tagOf at h
  split at h
  · rename_i hm
    obtain rfl := Option.some.inj h
    obtain ⟨stem, hs⟩ := Text.exists_lastPiece hm
    refine ⟨fun hslash => ?_, Text.notMem_lastPiece ':' _, fun ha => ?_⟩
    · apply Text.notMem_lastPiece '/' (beforeDigest t)
      rw [← lastSegment, hs]
      exact List.mem_append_right _ (List.mem_cons_of_mem _ hslash)
    · apply at_notMem_beforeDigest t
      rw [← hrest]
      exact List.mem_append_right _ (List.mem_cons_of_mem _ ha)
  · cases h

/-! ### Reading a text -/

theorem splitDigest_eq (t : List Char) : splitDigest t =
    if digestOf t = some [] then .error .emptyDigest else .ok (beforeDigest t, digestOf t) := by
  unfold splitDigest
  by_cases hm : '@' ∈ t
  · have hd : digestOf t = some (t.dropWhile (· != '@')).tail := if_pos hm
    rw [Text.splitFirstChars_of_mem hm, hd]
    simp only [List.isEmpty_iff, Option.some.injEq]
    rfl
  · have hd : digestOf t = none := if_neg hm
    rw [Text.splitFirstChars_eq_none_iff.2 hm, hd, if_neg nofun, beforeDigest_of_none hd]

theorem splitTag_eq (rest : List Char) : splitTag rest =
    if tagOf rest = some [] then .error .emptyTag else .ok (beforeTag rest, tagOf rest) := by
  unfold splitTag
  by_cases hm : ':' ∈ lastSegment rest
  · have ht : tagOf rest = some (Text.lastPiece ':' (lastSegment rest)) := if_pos hm
    obtain ⟨stem, hs⟩ := Text.exists_lastPiece hm
    have hcut := Text.splitLastChars_eq_some_iff.2 ⟨hs, Text.notMem_lastPiece ':' _⟩
    have hfront : (splitLastSegment rest).1 ++ stem = beforeTag rest := by
      have hrest := splitLastSegment_append rest
      rw [splitLastSegment_snd, hs, ← List.append_assoc] at hrest
      exact List.append_cancel_right (hrest.trans (tagOf_eq_some ht).symm)
    simp only [splitLastSegment_snd, hcut, hfront, ht, List.isEmpty_iff, Option.some.injEq]
  · have ht : tagOf rest = none := if_neg hm
    have hcut := Text.splitLastChars_eq_none_iff.2 hm
    rw [ht, if_neg nofun, beforeTag_of_none ht]
    simp only [splitLastSegment_snd, hcut]

theorem looksLikeHost_iff (segment : List Char) :
    looksLikeHost segment = true ↔ NamesHost segment := by
  simp [looksLikeHost, NamesHost, or_assoc]

theorem splitRegistry_eq (name : List Char) :
    splitRegistry name = (hostOf name, afterHost name) := by
  unfold splitRegistry
  by_cases hm : '/' ∈ name
  · have hcut := Text.splitFirstChars_of_mem hm
    rw [← firstSegment] at hcut
    rw [hcut]
    dsimp only
    by_cases hl : NamesHost (firstSegment name)
    · have hh : hostOf name = some (firstSegment name) := if_pos ⟨hm, hl⟩
      have htail := (Text.takeWhile_append_tail hm).trans (hostOf_eq_some hh).symm
      have hsame := (List.cons.inj (List.append_cancel_left htail)).2
      rw [if_pos ((looksLikeHost_iff _).2 hl), hh, hsame]
    · have hh : hostOf name = none := if_neg fun h => hl h.2
      rw [if_neg (mt (looksLikeHost_iff _).1 hl), hh, afterHost_of_none hh]
  · have hh : hostOf name = none := if_neg fun h => hm h.1
    rw [Text.splitFirstChars_eq_none_iff.2 hm, hh, afterHost_of_none hh]

theorem any_isEmpty_pieces (cs : List Char) :
    (Text.splitChars '/' cs).any List.isEmpty = true ↔ [] ∈ cs.splitOn '/' := by
  rw [Text.splitChars_eq_splitOn, List.any_eq_true]
  simp only [List.isEmpty_iff, exists_eq_right]

/-- The checks one after another, each on a part of the text. -/
theorem ofChars_eq (t : List Char) : ofChars t =
    if t = [] then .error .empty
    else if t.any Text.isBlank then .error .whitespace
    else if digestOf t = some [] then .error .emptyDigest
    else if tagOf (beforeDigest t) = some [] then .error .emptyTag
    else if [] ∈ (afterHost (nameOf t)).splitOn '/' then .error .emptySegment
    else .ok (ofParts t) := by
  unfold ofChars
  by_cases h0 : t = []
  · rw [if_pos h0, if_pos (List.isEmpty_iff.2 h0)]
    rfl
  rw [if_neg h0, if_neg (mt List.isEmpty_iff.1 h0)]
  by_cases h1 : t.any Text.isBlank = true
  · rw [if_pos h1, if_pos h1]
    rfl
  rw [if_neg h1, if_neg h1, splitDigest_eq]
  by_cases h2 : digestOf t = some []
  · rw [if_pos h2, if_pos h2]
    rfl
  rw [if_neg h2, if_neg h2]
  simp only [bind, Except.bind, pure, Except.pure, splitTag_eq, splitRegistry_eq]
  by_cases h3 : tagOf (beforeDigest t) = some []
  · rw [if_pos h3, if_pos h3]
  rw [if_neg h3, if_neg h3]
  dsimp only
  rw [← nameOf]
  by_cases h4 : [] ∈ (afterHost (nameOf t)).splitOn '/'
  · rw [if_pos h4, if_pos ((any_isEmpty_pieces _).2 h4)]
    rfl
  rw [if_neg h4, if_neg (mt (any_isEmpty_pieces _).1 h4)]
  rfl

theorem ofChars_of_acceptable (h : Acceptable t) : ofChars t = .ok (ofParts t) := by
  have hsolid : ¬t.any Text.isBlank = true := by
    rw [Bool.not_eq_true, List.any_eq_false]
    intro c hc
    rw [h.solid c hc]
    exact Bool.false_ne_true
  rw [ofChars_eq, if_neg h.nonempty, if_neg hsolid, if_neg h.digest, if_neg h.tag,
    if_neg h.segments]

theorem exists_flaw (h : ¬Acceptable t) : ∃ flaw, ofChars t = .error flaw := by
  rw [ofChars_eq]
  split
  · exact ⟨_, rfl⟩
  rename_i hnonempty
  split
  · exact ⟨_, rfl⟩
  rename_i hsolid
  split
  · exact ⟨_, rfl⟩
  rename_i hdigest
  split
  · exact ⟨_, rfl⟩
  rename_i htag
  split
  · exact ⟨_, rfl⟩
  rename_i hsegments
  refine absurd ⟨hnonempty, ?_, hdigest, htag, ?_, hsegments⟩ h
  · intro c hc
    rw [Bool.not_eq_true, List.any_eq_false] at hsolid
    exact Bool.eq_false_iff.2 (hsolid c hc)
  · intro hr
    apply hsegments
    rw [hr, List.splitOn_nil]
    exact List.mem_singleton_self []

theorem tag_ofParts (h : Acceptable t) {tag : String} (ht : (ofParts t).tag = some tag) :
    tag ≠ "" ∧ '/' ∉ tag.toList ∧ ':' ∉ tag.toList ∧ '@' ∉ tag.toList := by
  obtain ⟨cs, hcs, rfl⟩ := Option.map_eq_some_iff.1 ht
  rw [String.toList_ofList]
  refine ⟨fun hempty => ?_, notMem_tag hcs⟩
  rw [String.ofList_eq_empty_iff.1 hempty] at hcs
  exact h.tag hcs

/-- A text is read exactly if it names an image. The reference has the parts of the text and prints
as the text, and its tag belongs to the last segment alone. -/
theorem parse_by_parts (s : String) :
    match parse s with
    | .ok r => Acceptable (Text.trim s).toList ∧ r = ofParts (Text.trim s).toList ∧
        r.text = Text.trim s ∧
          ∀ tag ∈ r.tag, tag ≠ "" ∧ '/' ∉ tag.toList ∧ ':' ∉ tag.toList ∧ '@' ∉ tag.toList
    | .error e => ¬Acceptable (Text.trim s).toList ∧
        ∃ flaw : Flaw, e = .invalidImageReference s flaw.reason := by
  by_cases h : Acceptable (Text.trim s).toList
  · have hp : parse s = .ok (ofParts (Text.trim s).toList) := by
      rw [parse, ← Text.toList_trim, ofChars_of_acceptable h]
      rfl
    rw [hp]
    dsimp only
    refine ⟨h, rfl, ?_, fun tag htag => tag_ofParts h htag⟩
    rw [text_ofParts, String.ofList_toList]
  · obtain ⟨flaw, hflaw⟩ := exists_flaw h
    have hp : parse s = .error (.invalidImageReference s flaw.reason) := by
      rw [parse, ← Text.toList_trim, hflaw]
      rfl
    rw [hp]
    exact ⟨h, flaw, rfl⟩

example : parse " localhost:5000/team/app:1.2@sha256:0f\n" =
    .ok ⟨some "localhost:5000", "team/app", some "1.2", some "sha256:0f"⟩ := by rfl

end ImageReference
end ContainerBuild
