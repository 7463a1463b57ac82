import Mathlib.Data.List.TakeWhile
import ContainerBuild.Http.Target
import ContainerBuild.Proofs.FilePath.Texts
import ContainerBuild.Proofs.Http.Percent
import ContainerBuild.Proofs.Text.Folding
import ContainerBuild.Proofs.Text.Trimming

/-!
# Plain texts in paths

A text that is put into a path as it is comes through if none of its characters is special there and none
of its segments leads elsewhere: the path is then the text encoded, which decodes to the text. Whatever
the text is, its path has no question mark, so the parameters that follow are read back.
-/

namespace ContainerBuild
namespace Http
namespace Target

open Percent (decodeChars decode? splitTarget PlainKey)

structure Plain (s : String) : Prop where
  chars : ∀ c ∈ s.toList, isEdge c = false ∧ c ≠ '?' ∧ c ≠ '#' ∧ c ≠ '%'
  segments : ∀ segment ∈ Text.split '/' s, segment ≠ "." ∧ segment ≠ ".."

-- The characters of the text are gone through, and never all characters that there are.
instance (s : String) : Decidable (Plain s) :=
  decidable_of_decidable_of_iff
    (p := (s.toList.all fun c => !isEdge c && c != '?' && c != '#' && c != '%') = true ∧
      ((Text.split '/' s).all fun segment => segment != "." && segment != "..") = true) <| by
    simp only [List.all_eq_true, Bool.and_eq_true, Bool.not_eq_true', bne_iff_ne, and_assoc]
    exact ⟨fun h => ⟨h.1, h.2⟩, fun h => ⟨h.chars, h.segments⟩⟩

variable {s t : String} {b : UInt8} {cs : List Char} {reached segments : List String}

/-! ### Encoded text -/

theorem isPathByte_table : ∀ n < 256, isPathByte (UInt8.ofNat n) = true → n < 128 ∧ n ≠ 0x3F := by
  decide +kernel

theorem of_isPathByte (h : isPathByte b = true) : b.toNat < 128 ∧ b.toNat ≠ 0x3F :=
  isPathByte_table b.toNat b.toNat_lt (by rwa [UInt8.ofNat_toNat])

theorem toNat_char (h : b.toNat < 128) : (Char.ofNat b.toNat).toNat = b.toNat :=
  Utf8.toNat_ofNat_of_valid (.inl (by omega))

theorem encodePath_append (s t : String) : encodePath (s ++ t) = encodePath s ++ encodePath t := by
  rw [encodePath, encodePath, encodePath, Utf8.encode_append, List.flatMap_append, String.ofList_append]

theorem question_notMem_encodePath (s : String) : '?' ∉ (encodePath s).toList := by
  rw [encodePath, String.toList_ofList, List.mem_flatMap]
  rintro ⟨b, -, hb⟩
  unfold encodePathByte at hb
  split at hb
  · rename_i hp
    obtain ⟨hlt, hne⟩ := of_isPathByte hp
    apply hne
    rw [← toNat_char hlt, ← List.mem_singleton.1 hb]
    rfl
  · rcases List.mem_cons.1 hb with hb | hb
    · cases hb
    · have high := Percent.isHexDigit_hexDigit (Percent.high_lt b)
      have low := Percent.isHexDigit_hexDigit (Percent.low_lt b)
      have hq : ¬Percent.IsHexDigit '?' := by unfold Percent.IsHexDigit; decide
      rcases List.mem_cons.1 hb with hb | hb
      · exact hq (hb ▸ high)
      · exact hq (List.mem_singleton.1 hb ▸ low)

theorem decodeChars_encodePathByte (h : b ≠ 0x25) (cs : List Char) :
    decodeChars (encodePathByte b ++ cs) = b :: decodeChars cs := by
  unfold encodePathByte
  split
  · rename_i hp
    have hlt := (of_isPathByte hp).1
    have hc : Char.ofNat b.toNat ≠ '%' := by
      intro hc
      apply h
      rw [← UInt8.toNat_inj, ← toNat_char hlt, hc]
      rfl
    rw [List.singleton_append, Percent.decodeChars_plain hc, Utf8.encode_singleton_ascii hlt]
    rfl
  · exact Percent.decodeChars_hexPair b cs

theorem percent_notMem_encode (h : '%' ∉ s.toList) : 0x25 ∉ Utf8.encode s := by
  rw [← String.ofList_toList (s := s), Utf8.encode_ofList, List.mem_flatMap]
  rintro ⟨c, hc, hb⟩
  have hn := Utf8.toNat_eq_of_mem_utf8EncodeChar hb (by decide)
  obtain rfl : c = '%' := Char.toNat_inj.1 hn
  exact h hc

/-- A text without percent signs is read back from its encoding. -/
theorem decode?_encodePath (h : '%' ∉ s.toList) : decode? (encodePath s) = some s := by
  have bytes : ∀ b : Bytes, 0x25 ∉ b → decodeChars (b.flatMap encodePathByte) = b := by
    intro b hb
    induction b with
    | nil => rfl
    | cons x b ih =>
      rw [List.mem_cons, not_or] at hb
      rw [List.flatMap_cons, decodeChars_encodePathByte (Ne.symm hb.1), ih hb.2]
  rw [decode?, encodePath, String.toList_ofList, bytes _ (percent_notMem_encode h),
    Utf8.decode?_encode]

/-! ### Segments -/

theorem mem_follow (h : s ∈ follow reached segments) : s ∈ reached ∨ s ∈ segments ∨ s = "" := by
  fun_induction follow reached segments with
  | case1 reached => exact .inl h
  | case2 reached last =>
    rcases List.mem_cons.1 h with rfl | h
    · exact .inr (.inr rfl)
    · exact .inl (List.mem_of_mem_tail h)
  | case3 reached last =>
    rcases List.mem_cons.1 h with rfl | h
    · exact .inr (.inr rfl)
    · exact .inl h
  | case4 reached last =>
    rcases List.mem_cons.1 h with rfl | h
    · exact .inr (.inl List.mem_cons_self)
    · exact .inl h
  | case5 reached segment rest _ _ ih =>
    rcases ih h with h | h | h
    · exact .inl (List.mem_of_mem_tail h)
    · exact .inr (.inl (List.mem_cons_of_mem _ h))
    · exact .inr (.inr h)
  | case6 reached segment rest _ _ _ ih =>
    rcases ih h with h | h | h
    · exact .inl h
    · exact .inr (.inl (List.mem_cons_of_mem _ h))
    · exact .inr (.inr h)
  | case7 reached segment rest _ _ _ ih =>
    rcases ih h with h | h | h
    · rcases List.mem_cons.1 h with rfl | h
      · exact .inr (.inl List.mem_cons_self)
      · exact .inl h
    · exact .inr (.inl (List.mem_cons_of_mem _ h))
    · exact .inr (.inr h)

theorem follow_of_still (h : ∀ s ∈ segments, isDot s = false ∧ isDotDot s = false) :
    follow reached segments = segments.reverse ++ reached := by
  fun_induction follow reached segments with
  | case1 reached => rfl
  | case2 reached last up => cases up.symm.trans (h last List.mem_cons_self).2
  | case3 reached last _ here => cases here.symm.trans (h last List.mem_cons_self).1
  | case4 reached last => rfl
  | case5 reached segment rest _ up => cases up.symm.trans (h segment List.mem_cons_self).2
  | case6 reached segment rest _ _ here => cases here.symm.trans (h segment List.mem_cons_self).1
  | case7 reached segment rest _ _ _ ih =>
    rw [ih fun s hs => h s (List.mem_cons_of_mem _ hs), List.reverse_cons, List.append_assoc]
    rfl

/-- The texts that may be folded to a text. -/
def spellings : List Char → List (List Char)
  | [] => [[]]
  | d :: ds => (spellings ds).flatMap fun cs =>
    (d :: cs) :: if 97 ≤ d.toNat then [Char.ofNat (d.toNat - 32) :: cs] else []

theorem mem_spellings (cs : List Char) : cs ∈ spellings (cs.map Char.toLower) := by
  induction cs with
  | nil => exact List.mem_singleton_self []
  | cons c cs ih =>
    rw [List.map_cons, spellings, List.mem_flatMap]
    refine ⟨cs, ih, ?_⟩
    rcases Text.eq_of_toLower (c := c) rfl with h | ⟨letter, h⟩
    · rw [← h]
      exact List.mem_cons_self
    · rw [if_pos letter, ← h]
      exact List.mem_cons_of_mem _ (List.mem_singleton_self _)

/-- However it is folded, a segment that leads nowhere or up stands for full stops. -/
theorem decode?_of_folded {words : List String} {stops : String}
    (table : ∀ w ∈ words, ∀ cs ∈ spellings w.toList, decode? (String.ofList cs) = some stops)
    (h : words.contains (Text.lowerAscii t) = true) : decode? t = some stops := by
  have hmem := mem_spellings t.toList
  have hw := List.contains_iff_mem.1 h
  have hlower : (Text.lowerAscii t).toList = t.toList.map Char.toLower := String.toList_ofList
  rw [← hlower] at hmem
  have hdecode := table _ hw _ hmem
  rwa [String.ofList_toList] at hdecode

theorem decode?_of_isDot (h : isDot t = true) : decode? t = some "." :=
  decode?_of_folded (by decide +kernel) h

theorem decode?_of_isDotDot (h : isDotDot t = true) : decode? t = some ".." :=
  decode?_of_folded (by decide +kernel) h

theorem question_notMem_path (s : String) : '?' ∉ (path s).toList := by
  rw [path, String.toList_append, List.mem_append, not_or]
  refine ⟨by decide, Text.notMem_join (by decide) ?_⟩
  intro segment hs
  rcases mem_follow (List.mem_reverse.1 hs) with hs | hs | rfl
  · cases hs
  · obtain ⟨piece, -, rfl⟩ := List.mem_map.1 hs
    exact question_notMem_encodePath piece
  · exact List.not_mem_nil

/-- The parameters of a target are read back, whatever its path is. -/
theorem splitTarget_make (s : String) {params : List (String × String)}
    (hk : ∀ p ∈ params, PlainKey p.1) : splitTarget (make s params) = some (path s, params) :=
  Percent.splitTarget_query (question_notMem_path s) hk

theorem join_encodePath (pieces : List String) :
    Text.join "/" (pieces.map encodePath) = encodePath (Text.join "/" pieces) := by
  have slash : encodePath "/" = "/" := by decide
  induction pieces with
  | nil => rfl
  | cons piece pieces ih =>
    cases pieces with
    | nil => rfl
    | cons next pieces =>
      rw [List.map_cons, List.map_cons, Text.join_cons_cons, Text.join_cons_cons, encodePath_append,
        encodePath_append, slash, ← ih, List.map_cons]

theorem Plain.append (hs : Plain s) (ht : Plain t) : Plain (s ++ "/" ++ t) where
  chars := by
    intro c hc
    rw [String.toList_append, String.toList_append, List.mem_append, List.mem_append] at hc
    rcases hc with (hc | hc) | hc
    · exact hs.chars c hc
    · rw [List.mem_singleton.1 hc]
      decide
    · exact ht.chars c hc
  segments := by
    rw [Text.split_append rfl, List.forall_mem_append]
    exact ⟨hs.segments, ht.segments⟩

theorem isIgnored_of_isEdge {c : Char} (h : isEdge c = false) : isIgnored c = false := by
  cases hi : isIgnored c with
  | false => rfl
  | true =>
    simp only [isIgnored, Bool.or_eq_true, beq_iff_eq] at hi
    obtain (rfl | rfl) | rfl := hi <;> cases h

theorem trimEdges_of_no_edge (h : ∀ c ∈ cs, isEdge c = false) : trimEdges cs = cs := by
  have drop : ∀ ds : List Char, (∀ c ∈ ds, c ∈ cs) → ds.dropWhile isEdge = ds := by
    intro ds hds
    rw [List.dropWhile_eq_self_iff]
    intro hl
    rw [h _ (hds _ (List.getElem_mem hl))]
    exact Bool.false_ne_true
  rw [trimEdges, drop cs fun c hc => hc, drop cs.reverse fun c hc => List.mem_reverse.1 hc,
    List.reverse_reverse]

/-- A segment that leads nowhere or up is one or two full stops, encoded or not. -/
theorem Plain.still (h : Plain s) (hs : t ∈ Text.split '/' s) :
    isDot (encodePath t) = false ∧ isDotDot (encodePath t) = false := by
  have hpercent : '%' ∉ t.toList := fun hm => (h.chars '%' (Text.mem_of_mem_split hs hm)).2.2.2 rfl
  have hdecode := decode?_encodePath hpercent
  refine ⟨Bool.eq_false_iff.2 fun hd => ?_, Bool.eq_false_iff.2 fun hd => ?_⟩
  · exact (h.segments t hs).1 (Option.some.inj (hdecode.symm.trans (decode?_of_isDot hd)))
  · exact (h.segments t hs).2 (Option.some.inj (hdecode.symm.trans (decode?_of_isDotDot hd)))

theorem Plain.path_eq (h : Plain s) : path ("/" ++ s) = encodePath ("/" ++ s) := by
  have hchars : ("/" ++ s).toList = '/' :: s.toList := String.toList_append
  have plain : ∀ c ∈ '/' :: s.toList, isEdge c = false ∧ c ≠ '?' ∧ c ≠ '#' ∧ c ≠ '%' :=
    List.forall_mem_cons.2 ⟨by decide, h.chars⟩
  have htrim : trimEdges ('/' :: s.toList) = '/' :: s.toList :=
    trimEdges_of_no_edge fun c hc => (plain c hc).1
  have hfilter : ('/' :: s.toList).filter (fun c => !isIgnored c) = '/' :: s.toList :=
    List.filter_eq_self.2 fun c hc => by rw [isIgnored_of_isEdge (plain c hc).1]; rfl
  have htake : ('/' :: s.toList).takeWhile (fun c => c != '?' && c != '#') = '/' :: s.toList :=
    List.takeWhile_eq_self_iff.2 fun c hc => by
      simp [(plain c hc).2.1, (plain c hc).2.2.1]
  have hstill : ∀ segment ∈ (Text.split '/' s).map encodePath,
      isDot segment = false ∧ isDotDot segment = false := by
    intro segment hs
    obtain ⟨piece, hp, rfl⟩ := List.mem_map.1 hs
    exact h.still hp
  have slash : encodePath "/" = "/" := by decide
  simp only [path]
  rw [hchars, htrim, hfilter, htake, List.drop_succ_cons, List.drop_zero, String.ofList_toList,
    follow_of_still hstill, List.append_nil, List.reverse_reverse, join_encodePath,
    Text.join_split rfl, encodePath_append, slash]

/-- A plain text is read back from its path. -/
theorem Plain.decode?_path (h : Plain s) : decode? (path ("/" ++ s)) = some ("/" ++ s) := by
  rw [h.path_eq]
  apply decode?_encodePath
  rw [String.toList_append, List.mem_append, not_or]
  exact ⟨by decide, fun hm => (h.chars '%' hm).2.2.2 rfl⟩

end Target
end Http
end ContainerBuild
