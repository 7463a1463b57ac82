import ContainerBuild.Container.Environment
import ContainerBuild.Proofs.Text.Splitting
import ContainerBuild.Proofs.Traversal
import Mathlib.Data.List.Induction

/-!
# The two forms of an environment

Both forms are refused for the same entry. What the list gives to a name is read off its entries again,
each cut at its first equals sign, so it agrees with the dictionary exactly when no secret has an equals
sign in its key.
-/

namespace ContainerBuild

namespace Dictionary

variable {κ α : Type} [LT κ] [DecidableLT κ] [LE κ] [Std.IsLinearOrder κ] [Std.LawfulOrderLT κ]
variable [BEq κ] [LawfulBEq κ]

theorem get?_insertAll (d : Dictionary κ α) (l : List (κ × α)) (k : κ) :
    (d.insertAll l).get? k = (l.reverse.lookup k).or (d.get? k) := by
  induction l generalizing d with
  | nil => rfl
  | cons e l ih =>
    obtain ⟨key, value⟩ := e
    change ((d.insert key value).insertAll l).get? k = _
    have turn : (key == k) = (k == key) := Bool.beq_comm
    rw [ih, get?_insert, List.reverse_cons, List.lookup_append, List.lookup_cons, List.lookup_nil,
      turn]
    cases l.reverse.lookup k with
    | some v => rfl
    | none => cases k == key <;> rfl

theorem get?_ofList (l : List (κ × α)) (k : κ) : (ofList l).get? k = l.reverse.lookup k := by
  rw [ofList, get?_insertAll, get?_empty, Option.or_none]

end Dictionary

namespace Environment

variable {entry name value : String} {entries : List String} {pairs : List (String × String)}

/-- An entry with an equals sign after a key that is not empty. -/
def IsEntry (entry : String) : Prop :=
  '=' ∈ entry.toList ∧ entry.toList.head? ≠ some '='

/-- The entry gives a value to a name: the name stands before its first equals sign and the value
after it. -/
def Assigns (entry name value : String) : Prop :=
  entry = name ++ "=" ++ value ∧ '=' ∉ name.toList

/-- The value that a list of entries gives to a name is that of the last entry with the name. -/
def Gives (entries : List String) (name value : String) : Prop :=
  ∃ before entry after, entries = before ++ entry :: after ∧ Assigns entry name value ∧
    ∀ later ∈ after, ∀ v, ¬Assigns later name v

/-- Every name has the same value in a list and a dictionary, or none in both. -/
def Same (entries : List String) (d : Dictionary String String) : Prop :=
  ∀ name value, Gives entries name value ↔ d.get? name = some value

/-! ### Reading entries -/

theorem assigns_iff : Assigns entry name value ↔ Text.splitFirst '=' entry = some (name, value) := by
  rw [Text.splitFirst_eq_some_iff, Assigns, ← String.toList_inj]
  simp

theorem assigns_entryText_iff {p : String × String} (h : '=' ∉ p.1.toList) :
    Assigns (entryText p) name value ↔ p = (name, value) := by
  have cut : Assigns (entryText p) p.1 p.2 := ⟨rfl, h⟩
  rw [assigns_iff, assigns_iff.1 cut, Option.some.injEq]

/-- An entry is read as the key and the value that it is written with. -/
theorem parseEntry_of_isEntry (h : IsEntry entry) :
    ∃ p, parseEntry entry = .ok p ∧ entryText p = entry ∧ '=' ∉ p.1.toList := by
  obtain ⟨mem, head⟩ := h
  cases hs : Text.splitFirst '=' entry with
  | none => exact absurd mem (Text.splitFirst_eq_none_iff.1 hs)
  | some p =>
    obtain ⟨key, value⟩ := p
    have assigned := assigns_iff.2 hs
    have nonempty : key.isEmpty = false := by
      rw [← Bool.not_eq_true, String.isEmpty_iff]
      rintro rfl
      rw [assigned.1] at head
      simp at head
    refine ⟨(key, value), ?_, assigned.1.symm, assigned.2⟩
    simp only [parseEntry, hs, nonempty, Bool.false_eq_true, if_false]

theorem parseEntry_of_not_isEntry (h : ¬IsEntry entry) :
    parseEntry entry = .error (.invalidEnv entry) := by
  unfold parseEntry
  split
  · rename_i key value hs
    obtain ⟨text, -⟩ := Text.splitFirst_eq_some_iff.1 hs
    have empty : key.toList = [] := by
      by_contra hne
      obtain ⟨c, cs, hc⟩ := List.exists_cons_of_ne_nil hne
      rw [Text.splitFirst_eq_some_iff, hc] at hs
      refine h ⟨by rw [hs.1]; simp, ?_⟩
      rw [hs.1, List.cons_append, List.head?_cons]
      rintro heq
      obtain rfl := Option.some.inj heq
      exact hs.2 List.mem_cons_self
    rw [if_pos (by simpa using empty)]
  · rfl

theorem parseAll_eq_mapM (entries : List String) : parseAll entries = entries.mapM parseEntry := by
  induction entries with
  | nil => rfl
  | cons entry entries ih =>
    rw [List.mapM_cons, ← ih]
    rfl

theorem parseAll_of_forall (h : ∀ entry ∈ entries, IsEntry entry) : ∃ pairs,
    parseAll entries = .ok pairs ∧ pairs.map entryText = entries ∧ ∀ p ∈ pairs, '=' ∉ p.1.toList := by
  obtain ⟨pairs, hp, hall⟩ := exists_mapM fun entry he => parseEntry_of_isEntry (h entry he)
  refine ⟨pairs, (parseAll_eq_mapM entries).trans hp, ?_⟩
  clear hp h
  induction hall with
  | nil => exact ⟨rfl, by simp⟩
  | cons first rest ih =>
    obtain ⟨texts, keys⟩ := ih
    exact ⟨congrArg₂ List.cons first.1 texts, List.forall_mem_cons.2 ⟨first.2, keys⟩⟩

theorem parseAll_of_firstWithout (h : FirstWithout IsEntry entries entry) :
    parseAll entries = .error (.invalidEnv entry) := by
  rw [parseAll_eq_mapM]
  refine mapM_of_firstWithout (fun e he => ?_) h (parseEntry_of_not_isEntry h.lacks)
  obtain ⟨p, hp, -⟩ := parseEntry_of_isEntry he
  exact ⟨p, hp⟩

/-! ### What a list gives -/

theorem gives_concat_iff : Gives (entries ++ [entry]) name value ↔
    Assigns entry name value ∨ Gives entries name value ∧ ∀ v, ¬Assigns entry name v := by
  constructor
  · rintro ⟨before, e, after, heq, assigns, none⟩
    rcases List.eq_nil_or_concat after with rfl | ⟨after, last, rfl⟩
    · obtain ⟨-, hlast⟩ := List.append_inj' heq rfl
      obtain rfl := List.singleton_inj.1 hlast
      exact .inl assigns
    · rw [List.concat_eq_append] at heq none
      rw [← List.cons_append, ← List.append_assoc] at heq
      obtain ⟨rfl, hlast⟩ := List.append_inj' heq rfl
      obtain rfl := List.singleton_inj.1 hlast
      refine .inr ⟨⟨before, e, after, rfl, assigns, fun later hl => ?_⟩, none entry (by simp)⟩
      exact none later (List.mem_append_left _ hl)
  · rintro (assigns | ⟨⟨before, e, after, rfl, assigns, none⟩, last⟩)
    · exact ⟨entries, entry, [], rfl, assigns, by simp⟩
    · refine ⟨before, e, after ++ [entry], by simp, assigns, fun later hl => ?_⟩
      rcases List.mem_append.1 hl with hl | hl
      · exact none later hl
      · rw [List.mem_singleton.1 hl]
        exact last

/-- Entries whose keys have no equals sign give what the last of them says. -/
theorem gives_map_entryText_iff (h : ∀ p ∈ pairs, '=' ∉ p.1.toList) :
    Gives (pairs.map entryText) name value ↔ pairs.reverse.lookup name = some value := by
  induction pairs using List.reverseRecOn with
  | nil =>
    refine iff_of_false ?_ (by simp)
    rintro ⟨before, entry, after, heq, -⟩
    simp at heq
  | append_singleton pairs p ih =>
    have hp := h p (by simp)
    have ih := ih fun q hq => h q (List.mem_append_left _ hq)
    rw [List.map_append, List.map_singleton, gives_concat_iff, ih, List.reverse_append]
    simp only [assigns_entryText_iff hp]
    rw [List.reverse_singleton, List.singleton_append, List.lookup_cons]
    obtain ⟨key, v⟩ := p
    by_cases hk : name = key
    · subst hk
      simp
    · have hne : (name == key) = false := beq_false_of_ne hk
      simp [hne, Ne.symm hk]

theorem not_gives_of_mem (h : '=' ∈ name.toList) : ¬Gives entries name value := by
  rintro ⟨before, entry, after, text, assigns, none⟩
  exact assigns.2 h

/-! ### The two forms -/

/-- The list says the same as the dictionary exactly when no key has an equals sign. -/
theorem same_iff (hpairs : ∀ p ∈ pairs, '=' ∉ p.1.toList) (secrets : List (String × String)) :
    Same ((pairs ++ secrets).map entryText) ((Dictionary.ofList pairs).insertAll secrets) ↔
      ∀ p ∈ secrets, '=' ∉ p.1.toList := by
  have found (name : String) : ((Dictionary.ofList pairs).insertAll secrets).get? name =
      (pairs ++ secrets).reverse.lookup name := by
    rw [Dictionary.get?_insertAll, Dictionary.get?_ofList, List.reverse_append, List.lookup_append]
  constructor
  · intro same p hp hmem
    have present : ((pairs ++ secrets).reverse.lookup p.1).isSome := by
      rw [List.lookup_isSome_iff]
      exact ⟨p, by simp [hp]⟩
    obtain ⟨v, hv⟩ := Option.isSome_iff_exists.1 present
    exact not_gives_of_mem hmem ((same p.1 v).2 ((found p.1).trans hv))
  · intro hsecrets name value
    rw [found]
    apply gives_map_entryText_iff
    intro p hp
    rcases List.mem_append.1 hp with hp | hp
    · exact hpairs p hp
    · exact hsecrets p hp

theorem forms_of_firstWithout {c : ContainerConfig} (h : FirstWithout IsEntry c.env entry) :
    toList c = .error (.invalidEnv entry) ∧ toDictionary c = .error (.invalidEnv entry) := by
  have refused := parseAll_of_firstWithout h
  constructor
  · rw [toList, refused]
    rfl
  · rw [toDictionary, refused]
    rfl

theorem forms_of_forall {c : ContainerConfig} (h : ∀ entry ∈ c.env, IsEntry entry) : ∃ pairs,
    toList c = .ok ((pairs ++ c.secrets.entries).map entryText) ∧
      toDictionary c = .ok ((Dictionary.ofList pairs).insertAll c.secrets.entries) ∧
        ∀ p ∈ pairs, '=' ∉ p.1.toList := by
  obtain ⟨pairs, hp, texts, keys⟩ := parseAll_of_forall h
  refine ⟨pairs, ?_, ?_, keys⟩
  · rw [toList, hp, List.map_append]
    rfl
  · rw [toDictionary, hp]
    rfl

/-- Both forms are refused for the first entry without an equals sign or with an empty key. Otherwise
both are made, and they are the same environment exactly when no secret has an equals sign in its
key. -/
theorem forms_agree_iff (c : ContainerConfig) :
    (∃ entry, FirstWithout IsEntry c.env entry ∧ toList c = .error (.invalidEnv entry) ∧
      toDictionary c = .error (.invalidEnv entry)) ∨
    (∀ entry ∈ c.env, IsEntry entry) ∧ ∃ l d, toList c = .ok l ∧ toDictionary c = .ok d ∧
      (Same l d ↔ ∀ key ∈ c.secrets.keys, '=' ∉ key.toList) := by
  rcases FirstWithout.all_or_exists IsEntry c.env with all | ⟨entry, first⟩
  · obtain ⟨pairs, list, dictionary, keys⟩ := forms_of_forall all
    refine .inr ⟨all, _, _, list, dictionary, ?_⟩
    rw [same_iff keys, Dictionary.keys, List.forall_mem_map]
  · exact .inl ⟨entry, first, forms_of_firstWithout first⟩

/-- A secret whose key has an equals sign is another variable in the list than in the dictionary. -/
theorem forms_differ_for_secret :
    let c := { ContainerConfig.ofImage "alpine" with secrets := Dictionary.ofList [("A=B", "c")] }
    ∃ l d, toList c = .ok l ∧ toDictionary c = .ok d ∧ Gives l "A" "B=c" ∧ d.get? "A" = none ∧
      d.get? "A=B" = some "c" ∧ ∀ v, ¬Gives l "A=B" v := by
  refine ⟨_, _, rfl, rfl, ?_, by decide, by decide, fun v => not_gives_of_mem (by decide)⟩
  exact ⟨[], "A=B=c", [], rfl, ⟨rfl, by decide⟩, by simp⟩

end Environment
end ContainerBuild
