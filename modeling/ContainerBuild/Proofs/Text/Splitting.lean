import ContainerBuild.Text

/-!
# Text at its ends and at its separators

Blanks around a text are dropped, however many they are. A text is cut at its first separator when
nothing before the cut is one, and at its last when nothing after the cut is one. Cut at every
separator it gives the same pieces as a list of the library.
-/

namespace ContainerBuild
namespace Text

variable {sep : Char} {cs before after : List Char} {s key value : String}

/-! ### Ends -/

theorem dropWhile_isBlank_of_no_blank (h : ∀ c ∈ cs, isBlank c = false) :
    cs.dropWhile isBlank = cs := by
  cases cs with
  | nil => rfl
  | cons c cs => rw [List.dropWhile_cons, h c List.mem_cons_self, if_neg Bool.false_ne_true]

theorem trimChars_of_no_blank (h : ∀ c ∈ cs, isBlank c = false) : trimChars cs = cs := by
  have hr : ∀ c ∈ cs.reverse, isBlank c = false := fun c hc => h c (List.mem_reverse.1 hc)
  rw [trimChars, trimStartChars, dropWhile_isBlank_of_no_blank h, trimEndChars,
    dropWhile_isBlank_of_no_blank hr, List.reverse_reverse]

theorem trimChars_append_blanks (ha : ∀ c ∈ after, isBlank c = true) :
    trimChars (cs ++ after) = trimChars cs := by
  have hn : after.dropWhile isBlank = [] := by
    rw [← List.append_nil after, List.dropWhile_append_of_pos ha, List.dropWhile_nil]
  have hr : ∀ c ∈ after.reverse, isBlank c = true := fun c hc => ha c (List.mem_reverse.1 hc)
  rw [trimChars, trimChars, trimStartChars, trimStartChars, List.dropWhile_append]
  split
  · rename_i he
    rw [List.isEmpty_iff.1 he, hn]
  · rw [trimEndChars, trimEndChars, List.reverse_append, List.dropWhile_append_of_pos hr]

theorem trimChars_blanks_append (hb : ∀ c ∈ before, isBlank c = true) :
    trimChars (before ++ cs) = trimChars cs := by
  rw [trimChars, trimStartChars, List.dropWhile_append_of_pos hb]
  rfl

theorem trimChars_surrounded (hb : ∀ c ∈ before, isBlank c = true)
    (h : ∀ c ∈ cs, isBlank c = false) (ha : ∀ c ∈ after, isBlank c = true) :
    trimChars (before ++ cs ++ after) = cs := by
  rw [trimChars_append_blanks ha, trimChars_blanks_append hb, trimChars_of_no_blank h]

/-! ### Separators -/

theorem splitFirstChars_eq_none_iff : splitFirstChars sep cs = none ↔ sep ∉ cs := by
  induction cs with
  | nil => simp [splitFirstChars]
  | cons c cs ih =>
    by_cases hc : c = sep
    · simp [splitFirstChars, hc]
    · simp [splitFirstChars, hc, ih, Ne.symm hc]

theorem splitFirstChars_eq_some_iff :
    splitFirstChars sep cs = some (before, after) ↔ cs = before ++ sep :: after ∧ sep ∉ before := by
  induction cs generalizing before with
  | nil => simp [splitFirstChars]
  | cons c cs ih =>
    by_cases hc : c = sep
    · subst hc
      rw [splitFirstChars, if_pos rfl, Option.some.injEq, Prod.mk.injEq]
      constructor
      · rintro ⟨rfl, rfl⟩
        exact ⟨rfl, List.not_mem_nil⟩
      · rintro ⟨h, hn⟩
        cases before with
        | nil => exact ⟨rfl, (List.cons.inj h).2⟩
        | cons d before =>
          obtain ⟨rfl, -⟩ := List.cons.inj h
          exact absurd List.mem_cons_self hn
    · rw [splitFirstChars, if_neg hc, Option.map_eq_some_iff]
      constructor
      · rintro ⟨⟨b, a⟩, h, heq⟩
        obtain ⟨rfl, rfl⟩ := Prod.mk.inj heq
        obtain ⟨rfl, hn⟩ := ih.1 h
        refine ⟨rfl, ?_⟩
        rw [List.mem_cons, not_or]
        exact ⟨Ne.symm hc, hn⟩
      · rintro ⟨h, hn⟩
        cases before with
        | nil => exact absurd (List.cons.inj h).1 hc
        | cons d before =>
          obtain ⟨rfl, rfl⟩ := List.cons.inj h
          exact ⟨(before, after), ih.2 ⟨rfl, fun m => hn (List.mem_cons_of_mem _ m)⟩, rfl⟩

theorem notMem_takeWhile (sep : Char) (cs : List Char) : sep ∉ cs.takeWhile (· != sep) := by
  intro h
  have hne := List.all_eq_true.1 List.all_takeWhile sep h
  exact bne_iff_ne.1 hne rfl

theorem bne_of_notMem (h : sep ∉ cs) : ∀ c ∈ cs, (c != sep) = true := by
  intro c hc
  rw [bne_iff_ne]
  rintro rfl
  exact h hc

theorem takeWhile_of_notMem (h : sep ∉ cs) : cs.takeWhile (· != sep) = cs := by
  rw [← List.append_nil cs, List.takeWhile_append_of_pos (bne_of_notMem h), List.takeWhile_nil]

theorem takeWhile_append_tail (h : sep ∈ cs) :
    cs.takeWhile (· != sep) ++ sep :: (cs.dropWhile (· != sep)).tail = cs := by
  obtain ⟨before, after, rfl, hn⟩ := List.eq_append_cons_of_mem h
  have hb := bne_of_notMem hn
  rw [List.takeWhile_append_of_pos hb, List.dropWhile_append_of_pos hb]
  simp

theorem splitFirstChars_of_mem (h : sep ∈ cs) : splitFirstChars sep cs =
    some (cs.takeWhile (· != sep), (cs.dropWhile (· != sep)).tail) :=
  splitFirstChars_eq_some_iff.2 ⟨(takeWhile_append_tail h).symm, notMem_takeWhile sep cs⟩

theorem splitLastChars_eq_none_iff : splitLastChars sep cs = none ↔ sep ∉ cs := by
  rw [splitLastChars, Option.map_eq_none_iff, splitFirstChars_eq_none_iff, List.mem_reverse]

theorem splitLastChars_eq_some_iff :
    splitLastChars sep cs = some (before, after) ↔ cs = before ++ sep :: after ∧ sep ∉ after := by
  rw [splitLastChars, Option.map_eq_some_iff]
  constructor
  · rintro ⟨⟨a, b⟩, h, heq⟩
    obtain ⟨rfl, rfl⟩ := Prod.mk.inj heq
    obtain ⟨hr, hn⟩ := splitFirstChars_eq_some_iff.1 h
    refine ⟨?_, by simpa using hn⟩
    rw [← List.reverse_reverse cs, hr]
    simp
  · rintro ⟨rfl, hn⟩
    refine ⟨(after.reverse, before.reverse), splitFirstChars_eq_some_iff.2 ⟨?_, ?_⟩, ?_⟩
    · simp
    · simpa using hn
    · simp

theorem splitLast_append {sepText : String} (hs : sepText.toList = [sep]) {s t : String}
    (h : sep ∉ t.toList) : splitLast sep (s ++ sepText ++ t) = some (s, t) := by
  have hcut : splitLastChars sep (s ++ sepText ++ t).toList = some (s.toList, t.toList) :=
    splitLastChars_eq_some_iff.2 ⟨by simp [hs], h⟩
  rw [splitLast, hcut]
  simp

theorem dropPrefixChars_append (start cs : List Char) :
    dropPrefixChars start (start ++ cs) = some cs := by
  induction start with
  | nil => rfl
  | cons c start ih => rw [List.cons_append, dropPrefixChars, if_pos rfl, ih]

theorem dropPrefix?_append (start s : String) : dropPrefix? start (start ++ s) = some s := by
  rw [dropPrefix?, String.toList_append, dropPrefixChars_append, Option.map_some,
    String.ofList_toList]

theorem dropPrefixChars_eq_some {start cs rest : List Char}
    (h : dropPrefixChars start cs = some rest) : cs = start ++ rest := by
  induction start generalizing cs with
  | nil => exact Option.some.inj h
  | cons c start ih =>
    cases cs with
    | nil => cases h
    | cons d cs =>
      rw [dropPrefixChars] at h
      split at h
      · rename_i hc
        rw [hc, ih h, List.cons_append]
      · cases h

theorem dropPrefix?_eq_some_iff {start s rest : String} :
    dropPrefix? start s = some rest ↔ s = start ++ rest := by
  constructor
  · intro h
    obtain ⟨cs, hcs, rfl⟩ := Option.map_eq_some_iff.1 h
    apply String.toList_inj.1
    rw [String.toList_append, String.toList_ofList]
    exact dropPrefixChars_eq_some hcs
  · rintro rfl
    exact dropPrefix?_append start rest

theorem dropAllPrefixesChars_append {start : List Char} (hs : start ≠ []) (cs : List Char) :
    dropAllPrefixesChars start (start ++ cs) = dropAllPrefixesChars start cs := by
  have shorter : cs.length < (start ++ cs).length := by
    simpa using List.length_pos_iff.2 hs
  rw [dropAllPrefixesChars, dropPrefixChars_append]
  simp only [dif_pos shorter]

theorem dropAllPrefixesChars_of_not_isPrefix {start cs : List Char} (h : ¬start <+: cs) :
    dropAllPrefixesChars start cs = cs := by
  rw [dropAllPrefixesChars]
  cases hd : dropPrefixChars start cs with
  | none => rfl
  | some rest => exact absurd ⟨rest, (dropPrefixChars_eq_some hd).symm⟩ h

/-- All copies of a text at the start of another are dropped, and it does not begin with one any more. -/
theorem dropAllPrefixesChars_eq_iff {start cs rest : List Char} (hs : start ≠ []) :
    dropAllPrefixesChars start cs = rest ↔
      ∃ k, cs = (List.replicate k start).flatten ++ rest ∧ ¬start <+: rest := by
  constructor
  · intro h
    induction hn : cs.length using Nat.strongRecOn generalizing cs with
    | ind n ih =>
      by_cases hp : start <+: cs
      · obtain ⟨more, rfl⟩ := hp
        have positive := List.length_pos_iff.2 hs
        rw [List.length_append] at hn
        rw [dropAllPrefixesChars_append hs] at h
        obtain ⟨k, rfl, hrest⟩ := ih more.length (by omega) h rfl
        exact ⟨k + 1, by simp [List.replicate_succ], hrest⟩
      · rw [dropAllPrefixesChars_of_not_isPrefix hp] at h
        subst h
        exact ⟨0, by simp, hp⟩
  · rintro ⟨k, rfl, hrest⟩
    induction k with
    | zero => simpa using dropAllPrefixesChars_of_not_isPrefix hrest
    | succ k ih =>
      rw [List.replicate_succ, List.flatten_cons, List.append_assoc, dropAllPrefixesChars_append hs, ih]

theorem splitFirst_eq_none_iff : splitFirst sep s = none ↔ sep ∉ s.toList := by
  rw [splitFirst, Option.map_eq_none_iff, splitFirstChars_eq_none_iff]

theorem splitFirst_eq_some_iff :
    splitFirst sep s = some (key, value) ↔
      s.toList = key.toList ++ sep :: value.toList ∧ sep ∉ key.toList := by
  rw [splitFirst, Option.map_eq_some_iff]
  constructor
  · rintro ⟨⟨b, a⟩, h, heq⟩
    obtain ⟨rfl, rfl⟩ := Prod.mk.inj heq
    simpa using splitFirstChars_eq_some_iff.1 h
  · intro h
    exact ⟨(key.toList, value.toList), splitFirstChars_eq_some_iff.2 h, by simp⟩

theorem splitChars_eq_splitOn (sep : Char) (cs : List Char) :
    splitChars sep cs = cs.splitOn sep := by
  induction cs with
  | nil => rfl
  | cons c cs ih =>
    rw [List.splitOn_cons_eq_if_modifyHead, splitChars, ih]
    by_cases hc : c = sep
    · simp [hc]
    · obtain ⟨piece, pieces, hp⟩ := List.exists_cons_of_ne_nil (List.splitOn_ne_nil sep cs)
      simp [hc, hp]

theorem split_append {sepText : String} (hs : sepText.toList = [sep]) (s t : String) :
    split sep (s ++ sepText ++ t) = split sep s ++ split sep t := by
  simp only [split, splitChars_eq_splitOn, String.toList_append, hs]
  rw [List.append_assoc, List.singleton_append, List.splitOn_append_cons_self, List.map_append]

theorem join_cons_cons (sepText s t : String) (texts : List String) :
    join sepText (s :: t :: texts) = s ++ sepText ++ join sepText (t :: texts) :=
  String.intercalate_cons_cons

theorem join_singleton (sepText s : String) : join sepText [s] = s :=
  String.intercalate_singleton

theorem notMem_join {c : Char} {sepText : String} {pieces : List String} (hs : c ∉ sepText.toList)
    (hp : ∀ p ∈ pieces, c ∉ p.toList) : c ∉ (join sepText pieces).toList := by
  induction pieces with
  | nil => simp [join]
  | cons p pieces ih =>
    obtain ⟨hc, hrest⟩ := List.forall_mem_cons.1 hp
    cases pieces with
    | nil => rwa [join_singleton]
    | cons q pieces =>
      rw [join_cons_cons, String.toList_append, String.toList_append]
      simp only [List.mem_append, not_or]
      exact ⟨⟨hc, hs⟩, ih hrest⟩

theorem split_join {sepText : String} {pieces : List String} (hs : sepText.toList = [sep])
    (hp : ∀ p ∈ pieces, sep ∉ p.toList) (hne : pieces ≠ []) :
    split sep (join sepText pieces) = pieces := by
  have hcut : splitChars sep (join sepText pieces).toList = pieces.map String.toList := by
    rw [splitChars_eq_splitOn, join, String.toList_intercalate, hs]
    apply List.splitOn_intercalate
    · intro cs hcs
      obtain ⟨p, hmem, rfl⟩ := List.mem_map.1 hcs
      exact hp p hmem
    · simpa using hne
  rw [split, hcut, List.map_map]
  simp [Function.comp_def]

theorem notMem_of_mem_splitChars {piece : List Char} (h : piece ∈ splitChars sep cs) :
    sep ∉ piece := by
  induction cs generalizing piece with
  | nil =>
    obtain rfl := List.mem_singleton.1 h
    exact List.not_mem_nil
  | cons c cs ih =>
    rw [splitChars] at h
    split at h
    · rcases List.mem_cons.1 h with rfl | h
      · exact List.not_mem_nil
      · exact ih h
    · rename_i hc
      split at h
      · obtain rfl := List.mem_singleton.1 h
        simpa using Ne.symm hc
      · rename_i first rest hcs
        rcases List.mem_cons.1 h with rfl | h
        · have hfirst : sep ∉ first := ih (hcs ▸ List.mem_cons_self)
          simpa [Ne.symm hc] using hfirst
        · exact ih (hcs ▸ List.mem_cons_of_mem _ h)

theorem notMem_of_mem_split {piece : String} (h : piece ∈ split sep s) : sep ∉ piece.toList := by
  obtain ⟨cs, hcs, rfl⟩ := List.mem_map.1 h
  rw [String.toList_ofList]
  exact notMem_of_mem_splitChars hcs

theorem mem_of_mem_splitChars {c : Char} {piece : List Char} (h : piece ∈ splitChars sep cs)
    (hc : c ∈ piece) : c ∈ cs := by
  induction cs generalizing piece with
  | nil =>
    obtain rfl := List.mem_singleton.1 h
    exact hc
  | cons d cs ih =>
    rw [splitChars] at h
    split at h
    · rcases List.mem_cons.1 h with rfl | h
      · cases hc
      · exact List.mem_cons_of_mem _ (ih h hc)
    · split at h
      · obtain rfl := List.mem_singleton.1 h
        exact List.mem_cons.2 (.inl (List.mem_singleton.1 hc))
      · rename_i first rest hcs
        rcases List.mem_cons.1 h with rfl | h
        · rcases List.mem_cons.1 hc with rfl | hc
          · exact List.mem_cons_self
          · exact List.mem_cons_of_mem _ (ih (hcs ▸ List.mem_cons_self) hc)
        · exact List.mem_cons_of_mem _ (ih (hcs ▸ List.mem_cons_of_mem _ h) hc)

theorem mem_of_mem_split {c : Char} {piece : String} (h : piece ∈ split sep s) (hc : c ∈ piece.toList) :
    c ∈ s.toList := by
  obtain ⟨cs, hcs, rfl⟩ := List.mem_map.1 h
  rw [String.toList_ofList] at hc
  exact mem_of_mem_splitChars hcs hc

/-- What stands after the last separator; all of a text that has none. -/
def lastPiece (sep : Char) (cs : List Char) : List Char :=
  (cs.splitOn sep).getLastD []

theorem lastPiece_of_notMem (h : sep ∉ cs) : lastPiece sep cs = cs := by
  rw [lastPiece, List.splitOn_eq_singleton h]
  rfl

theorem lastPiece_append (h : sep ∉ after) : lastPiece sep (before ++ sep :: after) = after := by
  rw [lastPiece, List.splitOn_append_cons_self, List.splitOn_eq_singleton h,
    List.getLastD_eq_getLast?, List.getLast?_append, List.getLast?_singleton]
  rfl

theorem notMem_lastPiece (sep : Char) (cs : List Char) : sep ∉ lastPiece sep cs := by
  cases h : splitLastChars sep cs with
  | none =>
    have hn := splitLastChars_eq_none_iff.1 h
    rwa [lastPiece_of_notMem hn]
  | some cut =>
    obtain ⟨rfl, hn⟩ := splitLastChars_eq_some_iff.1 h
    rwa [lastPiece_append hn]

theorem lastPiece_append_cons (sep : Char) (before after : List Char) :
    lastPiece sep (before ++ sep :: after) = lastPiece sep after := by
  obtain ⟨piece, pieces, hp⟩ := List.exists_cons_of_ne_nil (List.splitOn_ne_nil sep after)
  rw [lastPiece, lastPiece, List.splitOn_append_cons_self, hp, List.getLastD_eq_getLast?,
    List.getLastD_eq_getLast?, List.getLast?_append, List.getLast?_cons]
  rfl

theorem exists_lastPiece (h : sep ∈ cs) : ∃ before, cs = before ++ sep :: lastPiece sep cs := by
  cases hs : splitLastChars sep cs with
  | none => exact absurd h (splitLastChars_eq_none_iff.1 hs)
  | some cut =>
    obtain ⟨hcs, hn⟩ := splitLastChars_eq_some_iff.1 hs
    refine ⟨cut.1, ?_⟩
    rw [hcs, lastPiece_append hn]

/-- Without a separator in it, an ending goes on with the last piece. -/
theorem lastPiece_append_of_notMem (h : sep ∉ after) :
    lastPiece sep (cs ++ after) = lastPiece sep cs ++ after := by
  by_cases hm : sep ∈ cs
  · obtain ⟨before, hcs⟩ := exists_lastPiece hm
    have hlast : sep ∉ lastPiece sep cs ++ after := by
      simp [notMem_lastPiece, h]
    calc lastPiece sep (cs ++ after)
        = lastPiece sep (before ++ sep :: (lastPiece sep cs ++ after)) := by
          rw [← List.cons_append, ← List.append_assoc, ← hcs]
      _ = lastPiece sep cs ++ after := lastPiece_append hlast
  · rw [lastPiece_of_notMem hm, lastPiece_of_notMem (by simp [hm, h])]

/-- An ending without a separator leaves no piece empty that was not. -/
theorem nil_notMem_splitOn_append (hcs : [] ∉ cs.splitOn sep) (h : sep ∉ after) :
    [] ∉ (cs ++ after).splitOn sep := by
  by_cases hm : sep ∈ cs
  · obtain ⟨before, last, rfl, hn⟩ : ∃ before last, cs = before ++ sep :: last ∧ sep ∉ last := by
      obtain ⟨before, hlast⟩ := exists_lastPiece hm
      exact ⟨before, _, hlast, notMem_lastPiece sep cs⟩
    rw [List.splitOn_append_cons_self, List.splitOn_eq_singleton hn] at hcs
    have hlast : sep ∉ last ++ after := by
      simp [hn, h]
    rw [List.append_assoc, List.cons_append, List.splitOn_append_cons_self,
      List.splitOn_eq_singleton hlast]
    simp only [List.mem_append, List.mem_singleton, not_or] at hcs ⊢
    refine ⟨hcs.1, fun he => hcs.2 ?_⟩
    rw [(List.append_eq_nil_iff.1 he.symm).1]
  · have hne : cs ≠ [] := by
      rintro rfl
      simp at hcs
    have hnone : sep ∉ cs ++ after := by
      simp [hm, h]
    rw [List.splitOn_eq_singleton hnone]
    simp [hne]

end Text
end ContainerBuild
