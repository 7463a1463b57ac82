import ContainerBuild.Proofs.Json.ScalarRecognition

/-!
# Values are recognized

The reader finds a value in front of a text exactly if the text begins with blanks and the text of the
value. A number is found up to what cannot go on with it, and every other value whatever follows.
-/

namespace ContainerBuild
namespace Json

variable {c : UInt8} {p q v b rest : Bytes} {fuel : Nat} {r : Reading} {items : List Reading}
  {members : List (Option String × Reading)}

/-! ### Blanks -/

theorem skipSpace_cons (h : isSpace c = false) : skipSpace (c :: b) = c :: b := by
  rw [skipSpace, List.dropWhile_cons, h, if_neg Bool.false_ne_true]

theorem Blank.skipSpace_append (hp : Blank p) (b : Bytes) : skipSpace (p ++ b) = skipSpace b :=
  List.dropWhile_append_of_pos hp

theorem exists_blank (b : Bytes) : ∃ p, b = p ++ skipSpace b ∧ Blank p :=
  ⟨b.takeWhile isSpace, List.takeWhile_append_dropWhile.symm, fun _ hx => List.mem_takeWhile_imp hx⟩

theorem skipSpace_skipSpace (b : Bytes) : skipSpace (skipSpace b) = skipSpace b := by
  obtain ⟨p, hb, hp⟩ := exists_blank b
  conv_rhs => rw [hb, hp.skipSpace_append]

theorem endsNumber_of_isSpace (h : isSpace c = true) : EndsNumber (c :: rest) := by
  rintro x ⟨⟩
  simp only [isSpace, Bool.or_eq_true, beq_iff_eq] at h
  obtain ((rfl | rfl) | rfl) | rfl := h <;> decide

theorem Blank.endsNumber (hq : Blank q) (hr : EndsNumber rest) : EndsNumber (q ++ rest) := by
  cases q with
  | nil => exact hr
  | cons x q => exact endsNumber_of_isSpace (hq x List.mem_cons_self)

theorem readValue_skipSpace (fuel : Nat) (b : Bytes) :
    readValue (fuel + 1) (skipSpace b) = readValue (fuel + 1) b := by
  rw [readValue, readValue, skipSpace_skipSpace]

theorem Blank.readValue_append (hp : Blank p) (fuel : Nat) (b : Bytes) :
    readValue (fuel + 1) (p ++ b) = readValue (fuel + 1) b := by
  rw [readValue, readValue, hp.skipSpace_append]

theorem readItems_skipSpace (fuel : Nat) (b : Bytes) :
    readItems (fuel + 2) (skipSpace b) = readItems (fuel + 2) b := by
  rw [readItems, readItems, readValue_skipSpace]

theorem readMembers_skipSpace (fuel : Nat) (b : Bytes) :
    readMembers (fuel + 1) (skipSpace b) = readMembers (fuel + 1) b := by
  rw [readMembers, readMembers, skipSpace_skipSpace]

/-! ### One step of reading -/

theorem readValue_array (h : skipSpace b = c :: rest) (hc : c ≠ 0x5D) :
    readValue (fuel + 1) (0x5B :: b) =
      (.array (readItems fuel (c :: rest)).1 (break? (readItems fuel (c :: rest)).2),
        (readItems fuel (c :: rest)).2) := by
  rw [readValue, skipSpace_cons rfl]
  dsimp only
  rw [if_neg (by decide), if_pos rfl, h]
  split
  · rename_i heq
    exact absurd (List.cons.inj heq).1 hc
  · rfl

theorem readValue_object (h : skipSpace b = c :: rest) (hc : c ≠ 0x7D) :
    readValue (fuel + 1) (0x7B :: b) =
      (.object (readMembers fuel (c :: rest)).1 (break? (readMembers fuel (c :: rest)).2),
        (readMembers fuel (c :: rest)).2) := by
  rw [readValue, skipSpace_cons rfl]
  dsimp only
  rw [if_neg (by decide), if_neg (by decide), if_pos rfl, h]
  split
  · rename_i heq
    exact absurd (List.cons.inj heq).1 hc
  · rfl

section Step

variable {after : Bytes}

theorem readItems_last (h : readValue fuel b = (r, .ok after)) (hs : skipSpace after = 0x5D :: rest) :
    readItems (fuel + 1) b = ([r], .ok rest) := by
  rw [readItems, h]
  simp only [hs]

theorem readItems_more (h : readValue fuel b = (r, .ok after)) (hs : skipSpace after = 0x2C :: rest) :
    readItems (fuel + 1) b = (r :: (readItems fuel rest).1, (readItems fuel rest).2) := by
  rw [readItems, h]
  simp only [hs]

variable {key : Option String} {text colon value : Bytes}

theorem readMembers_last (hq : skipSpace b = 0x22 :: text) (hk : readText text = .ok (key, colon))
    (hc : skipSpace colon = 0x3A :: value) (h : readValue fuel value = (r, .ok after))
    (hs : skipSpace after = 0x7D :: rest) : readMembers (fuel + 1) b = ([(key, r)], .ok rest) := by
  rw [readMembers, hq]
  simp only [hk, hc, h, hs]

theorem readMembers_more (hq : skipSpace b = 0x22 :: text) (hk : readText text = .ok (key, colon))
    (hc : skipSpace colon = 0x3A :: value) (h : readValue fuel value = (r, .ok after))
    (hs : skipSpace after = 0x2C :: rest) : readMembers (fuel + 1) b =
      ((key, r) :: (readMembers fuel rest).1, (readMembers fuel rest).2) := by
  rw [readMembers, hq]
  simp only [hk, hc, h, hs]

end Step

/-! ### Spelled values are read -/

theorem Spells.exists_cons (h : Spells v r) :
    ∃ c w, v = c :: w ∧ isSpace c = false ∧ c ≠ 0x5D := by
  cases h with
  | word h =>
    simp only [words, List.mem_cons, List.not_mem_nil, or_false, Prod.mk.injEq] at h
    obtain ⟨rfl, rfl⟩ | ⟨rfl, rfl⟩ | ⟨rfl, rfl⟩ := h <;>
      exact ⟨_, _, rfl, by decide, by decide⟩
  | number h =>
    obtain ⟨x, t, rfl, hx⟩ := h.exists_cons
    exact ⟨x, t, rfl, hx.isSpace, hx.ne rfl⟩
  | text h | illFormed h =>
    obtain ⟨t, rfl, -⟩ := readText_string h []
    exact ⟨_, _, rfl, by decide, by decide⟩
  | emptyArray | array | emptyObject | object => exact ⟨_, _, rfl, by decide, by decide⟩

/-- Whether a value ends where the rest of a text begins; only a number might go on. -/
def Ends (r : Reading) (rest : Bytes) : Prop :=
  match r with
  | .integer _ | .fraction => EndsNumber rest
  | _ => True

theorem EndsNumber.ends (h : EndsNumber rest) : Ends r rest := by
  unfold Ends
  split
  · exact h
  · exact h
  · trivial

/-- The value is read in front of what does not go on with it. Fuel as long as its text is enough. -/
def ReadsAs (v : Bytes) (r : Reading) : Prop :=
  ∀ (fuel : Nat) (rest : Bytes), v.length ≤ fuel → Ends r rest →
    readValue fuel (v ++ rest) = (r, .ok rest)

theorem readsAs_succ (hv : v ≠ []) (h : ∀ (fuel : Nat) (rest : Bytes), v.length ≤ fuel + 1 →
    Ends r rest → readValue (fuel + 1) (v ++ rest) = (r, .ok rest)) : ReadsAs v r := by
  rintro (_ | fuel) rest hf hr
  · exact absurd (List.length_eq_zero_iff.1 (Nat.le_zero.1 hf)) hv
  · exact h fuel rest hf hr

theorem readsAs_word {s : String} (h : (s, r) ∈ words) : ReadsAs (Utf8.encode s) r := by
  simp only [words, List.mem_cons, List.not_mem_nil, or_false, Prod.mk.injEq] at h
  obtain ⟨rfl, rfl⟩ | ⟨rfl, rfl⟩ | ⟨rfl, rfl⟩ := h <;>
    exact readsAs_succ (by decide) fun _ _ _ _ => rfl

def stringReading : Option String → Reading
  | some s => .text s
  | none => .illFormed

theorem SpellsString.readsAs {s? : Option String} (h : SpellsString v s?) :
    ReadsAs v (stringReading s?) := by
  refine readsAs_succ (by obtain ⟨-⟩ := h; exact List.cons_ne_nil _ _) fun fuel rest _ _ => ?_
  obtain ⟨t, rfl, ht⟩ := readText_string h rest
  rw [List.cons_append, readValue, skipSpace_cons rfl]
  dsimp only
  rw [if_pos rfl, ht]
  cases s? <;> rfl

theorem SpellsNumber.endsNumber (h : SpellsNumber v r) (hr : Ends r rest) : EndsNumber rest := by
  have unsigned {negative : Bool} {b : Bytes} (h : SpellsUnsigned negative b r) : EndsNumber rest := by
    obtain ⟨-, -, -⟩ := h
    unfold numberReading at hr
    split at hr <;> exact hr
  cases h with
  | negative h => exact unsigned h
  | plain h => exact unsigned h

theorem SpellsNumber.readsAs (h : SpellsNumber v r) : ReadsAs v r := by
  obtain ⟨c, t, rfl, hc⟩ := h.exists_cons
  refine readsAs_succ (List.cons_ne_nil _ _) fun fuel rest _ hr => ?_
  have hn := h.read (h.endsNumber hr)
  rw [List.cons_append] at hn ⊢
  rw [readValue, skipSpace_cons hc.isSpace]
  dsimp only
  rw [if_neg (hc.ne rfl), if_neg (hc.ne rfl), if_neg (hc.ne rfl), if_neg (hc.ne rfl),
    if_neg (hc.ne rfl), if_neg (hc.ne rfl), hn]

/-- Values with texts up to some length are read. -/
def ReadsUpTo (n : Nat) : Prop :=
  ∀ v r, v.length ≤ n → Spells v r → ReadsAs v r

variable {n : Nat}

/-- A value is read with the blanks before it, and those after it are skipped. -/
theorem ReadsUpTo.padded (ih : ReadsUpTo n) (h : Padded Spells b r) (hn : b.length ≤ n)
    (hf : b.length ≤ fuel) (hc : c = 0x2C ∨ c = 0x5D ∨ c = 0x7D) (rest : Bytes) :
    ∃ after, readValue fuel (b ++ c :: rest) = (r, .ok after) ∧ skipSpace after = c :: rest := by
  obtain ⟨hp, h, hq⟩ := h
  rename_i p v q
  have hv : v.length ≤ (p ++ v ++ q).length := by
    simp only [List.length_append]
    omega
  have hcspace : isSpace c = false := by
    obtain rfl | rfl | rfl := hc <;> rfl
  obtain ⟨d, w, hd, -⟩ := h.exists_cons
  obtain _ | fuel := fuel
  · simp [hd] at hf
  refine ⟨q ++ c :: rest, ?_, by rw [hq.skipSpace_append, skipSpace_cons hcspace]⟩
  rw [List.append_assoc, List.append_assoc, hp.readValue_append]
  exact ih v r (hv.trans hn) h (fuel + 1) _ (hv.trans hf) (hq.endsNumber (endsNumber_cons hc)).ends

theorem ReadsUpTo.readItems (ih : ReadsUpTo n) (h : Joined (Padded Spells) b items)
    (hn : b.length ≤ n) (hf : b.length < fuel) (rest : Bytes) :
    readItems fuel (b ++ 0x5D :: rest) = (items, .ok rest) := by
  induction h generalizing fuel with
  | last h =>
    obtain _ | fuel := fuel
    · exact absurd hf (Nat.not_lt_zero _)
    obtain ⟨after, hv, hs⟩ := ih.padded h hn (Nat.le_of_lt_succ hf) (.inr (.inl rfl)) rest
    exact readItems_last hv hs
  | @more b b' r items h _ ihitems =>
    obtain _ | fuel := fuel
    · exact absurd hf (Nat.not_lt_zero _)
    simp only [List.length_append, List.length_cons] at hf hn
    have hn' : b.length ≤ n := by omega
    have hf' : b.length ≤ fuel := by omega
    obtain ⟨after, hv, hs⟩ := ih.padded h hn' hf' (.inl rfl) (b' ++ 0x5D :: rest)
    rw [List.append_assoc, List.cons_append, readItems_more hv hs, ihitems (by omega) (by omega)]

theorem Padded.readText {key : Option String} (h : Padded SpellsString b key) (rest : Bytes) :
    ∃ text colon, skipSpace (b ++ 0x3A :: rest) = 0x22 :: text ∧ readText text = .ok (key, colon) ∧
      skipSpace colon = 0x3A :: rest := by
  obtain ⟨hp, h, hq⟩ := h
  rename_i p k q
  obtain ⟨t, rfl, ht⟩ := readText_string h (q ++ 0x3A :: rest)
  refine ⟨_, _, ?_, ht, by rw [hq.skipSpace_append, skipSpace_cons rfl]⟩
  rw [List.append_assoc, List.append_assoc, hp.skipSpace_append, List.cons_append,
    skipSpace_cons rfl]

theorem ReadsUpTo.readMembers (ih : ReadsUpTo n) (h : Joined (SpellsMember Spells) b members)
    (hn : b.length ≤ n) (hf : b.length < fuel) (rest : Bytes) :
    readMembers fuel (b ++ 0x7D :: rest) = (members, .ok rest) := by
  induction h generalizing fuel with
  | last h =>
    obtain _ | fuel := fuel
    · exact absurd hf (Nat.not_lt_zero _)
    obtain ⟨hk, h⟩ := h
    rename_i b b' key r
    simp only [List.length_append, List.length_cons] at hf hn
    have hn' : b'.length ≤ n := by omega
    have hf' : b'.length ≤ fuel := by omega
    obtain ⟨after, hv, hs⟩ := ih.padded h hn' hf' (.inr (.inr rfl)) rest
    obtain ⟨text, colon, hq, ht, hc⟩ := hk.readText (b' ++ 0x7D :: rest)
    rw [List.append_assoc, List.cons_append]
    exact readMembers_last hq ht hc hv hs
  | @more b b' m members h _ ihmembers =>
    obtain _ | fuel := fuel
    · exact absurd hf (Nat.not_lt_zero _)
    obtain ⟨hk, h⟩ := h
    rename_i k v key r
    simp only [List.length_append, List.length_cons] at hf hn
    have hn' : v.length ≤ n := by omega
    have hf' : v.length ≤ fuel := by omega
    obtain ⟨after, hv, hs⟩ := ih.padded h hn' hf' (.inl rfl) (b' ++ 0x7D :: rest)
    obtain ⟨text, colon, hq, ht, hc⟩ := hk.readText (v ++ 0x2C :: (b' ++ 0x7D :: rest))
    rw [List.append_assoc, List.append_assoc, List.cons_append, List.cons_append,
      readMembers_more hq ht hc hv hs, ihmembers (by omega) (by omega)]

theorem Joined.exists_head {α : Type} {P : Bytes → α → Prop} {l : List α} (h : Joined P b l) :
    ∃ t a more, P t a ∧ b = t ++ more := by
  cases h with
  | last h => exact ⟨_, _, [], h, (List.append_nil _).symm⟩
  | more h => exact ⟨_, _, _, h, rfl⟩

theorem Joined.exists_skipSpace (h : Joined (Padded Spells) b items) (rest : Bytes) :
    ∃ c w, skipSpace (b ++ rest) = c :: w ∧ c ≠ 0x5D := by
  obtain ⟨t, r, more, ⟨hp, hv, hq⟩, rfl⟩ := h.exists_head
  obtain ⟨c, w, rfl, hs, hc⟩ := hv.exists_cons
  rename_i p q
  refine ⟨c, w ++ (q ++ (more ++ rest)), ?_, hc⟩
  simp only [List.append_assoc]
  rw [hp.skipSpace_append, List.cons_append, skipSpace_cons hs]

theorem Joined.exists_quote (h : Joined (SpellsMember Spells) b members) (rest : Bytes) :
    ∃ w, skipSpace (b ++ rest) = 0x22 :: w := by
  obtain ⟨t, m, more, ⟨hk, -⟩, rfl⟩ := h.exists_head
  simp only [List.append_assoc, List.cons_append]
  obtain ⟨text, colon, hq, -⟩ := hk.readText _
  exact ⟨text, hq⟩

theorem readsAs_array (ih : ReadsUpTo b.length) (h : Joined (Padded Spells) b items) :
    ReadsAs (0x5B :: (b ++ [0x5D])) (.array items none) := by
  refine readsAs_succ (List.cons_ne_nil _ _) fun fuel rest hf _ => ?_
  simp only [List.length_cons, List.length_append, List.length_nil] at hf
  obtain ⟨c, w, hs, hc⟩ := h.exists_skipSpace (0x5D :: rest)
  have hf' : b.length < fuel := by omega
  have hitems := ih.readItems h le_rfl hf' rest
  have hb : 0 < b.length := by
    apply List.length_pos_iff.2
    rintro rfl
    obtain ⟨c, w, hs, -⟩ := h.exists_skipSpace []
    cases hs
  obtain ⟨fuel, rfl⟩ : ∃ k, fuel = k + 2 := ⟨fuel - 2, by omega⟩
  rw [← readItems_skipSpace, hs] at hitems
  rw [List.cons_append, List.append_assoc, List.singleton_append, readValue_array hs hc, hitems]
  rfl

theorem readsAs_object (ih : ReadsUpTo b.length) (h : Joined (SpellsMember Spells) b members) :
    ReadsAs (0x7B :: (b ++ [0x7D])) (.object members none) := by
  refine readsAs_succ (List.cons_ne_nil _ _) fun fuel rest hf _ => ?_
  simp only [List.length_cons, List.length_append, List.length_nil] at hf
  obtain ⟨w, hs⟩ := h.exists_quote (0x7D :: rest)
  have hf' : b.length < fuel := by omega
  have hmembers := ih.readMembers h le_rfl hf' rest
  obtain ⟨fuel, rfl⟩ : ∃ k, fuel = k + 1 := ⟨fuel - 1, by omega⟩
  rw [← readMembers_skipSpace, hs] at hmembers
  rw [List.cons_append, List.append_assoc, List.singleton_append,
    readValue_object hs (by decide), hmembers]
  rfl

theorem Blank.readsAs_array (h : Blank b) : ReadsAs (0x5B :: (b ++ [0x5D])) (.array [] none) := by
  refine readsAs_succ (List.cons_ne_nil _ _) fun fuel rest _ _ => ?_
  have hs : skipSpace (b ++ 0x5D :: rest) = 0x5D :: rest := by
    rw [h.skipSpace_append, skipSpace_cons rfl]
  rw [List.cons_append, List.append_assoc, List.singleton_append, readValue, skipSpace_cons rfl]
  simp only [hs]
  rfl

theorem Blank.readsAs_object (h : Blank b) : ReadsAs (0x7B :: (b ++ [0x7D])) (.object [] none) := by
  refine readsAs_succ (List.cons_ne_nil _ _) fun fuel rest _ _ => ?_
  have hs : skipSpace (b ++ 0x7D :: rest) = 0x7D :: rest := by
    rw [h.skipSpace_append, skipSpace_cons rfl]
  rw [List.cons_append, List.append_assoc, List.singleton_append, readValue, skipSpace_cons rfl]
  simp only [hs]
  rfl

/-- Every value is read, by induction on the length of its text. -/
theorem readsUpTo (n : Nat) : ReadsUpTo n := by
  induction n using Nat.strongRecOn with
  | ind n ih =>
    intro v r hv h
    cases h with
    | word h => exact readsAs_word h
    | number h => exact h.readsAs
    | text h => exact h.readsAs
    | illFormed h => exact h.readsAs
    | emptyArray h => exact h.readsAs_array
    | emptyObject h => exact h.readsAs_object
    | @array b items h =>
      simp only [List.length_cons, List.length_append] at hv
      exact readsAs_array (ih b.length (by omega)) h
    | @object b members h =>
      simp only [List.length_cons, List.length_append] at hv
      exact readsAs_object (ih b.length (by omega)) h

theorem Spells.scan (h : Spells v r) (hr : Ends r rest) : scan (v ++ rest) = (r, .ok rest) :=
  readsUpTo v.length v r le_rfl h _ rest (by simp only [List.length_append]; omega) hr

/-! ### Values that are read are spelled -/

def ValuesSound (fuel : Nat) : Prop :=
  ∀ b r rest, readValue fuel b = (r, .ok rest) → ∃ p v, b = p ++ v ++ rest ∧ Blank p ∧ Spells v r

def ItemsSound (fuel : Nat) : Prop :=
  ∀ b items rest, Json.readItems fuel b = (items, .ok rest) →
    ∃ t, b = t ++ 0x5D :: rest ∧ Joined (Padded Spells) t items

def MembersSound (fuel : Nat) : Prop :=
  ∀ b members rest, Json.readMembers fuel b = (members, .ok rest) →
    ∃ t, b = t ++ 0x7D :: rest ∧ Joined (SpellsMember Spells) t members

theorem Blank.append (hp : Blank p) (hq : Blank q) : Blank (p ++ q) :=
  List.forall_mem_append.2 ⟨hp, hq⟩

theorem Padded.prepend {α : Type} {P : Bytes → α → Prop} {a : α} (h : Padded P b a)
    (hq : Blank q) : Padded P (q ++ b) a := by
  obtain ⟨hp, h, hp'⟩ := h
  rw [← List.append_assoc, ← List.append_assoc]
  exact .intro (hq.append hp) h hp'

theorem SpellsMember.prepend {P : Bytes → Reading → Prop} {m : Option String × Reading}
    (h : SpellsMember P b m) (hq : Blank q) : SpellsMember P (q ++ b) m := by
  obtain ⟨hk, hv⟩ := h
  rw [← List.append_assoc]
  exact .intro (hk.prepend hq) hv

theorem Joined.prepend {α : Type} {P : Bytes → α → Prop} {l : List α} (h : Joined P b l)
    (hP : ∀ b a, P b a → P (q ++ b) a) : Joined P (q ++ b) l := by
  cases h with
  | last h => exact .last (hP _ _ h)
  | more h rest =>
    rw [← List.append_assoc]
    exact .more (hP _ _ h) rest

theorem eq_append_of_dropWord {word : Bytes} (h : dropWord word b = .ok rest) :
    b = word ++ rest := by
  fun_induction dropWord word b with
  | case1 b => exact Except.ok.inj h
  | case2 | case4 => cases h
  | case3 w word b ih => rw [ih h, List.cons_append]

theorem spells_of_readWord {ending s : String} {found : Reading}
    (h : readWord ending found b = (r, .ok rest)) (hw : (s, found) ∈ words)
    (hc : c :: Utf8.encode ending = Utf8.encode s) : ∃ v, c :: b = v ++ rest ∧ Spells v r := by
  unfold readWord at h
  split at h
  · rename_i hd
    obtain ⟨rfl, hrest⟩ := Prod.mk.inj h
    cases hrest
    exact ⟨Utf8.encode s, by rw [← hc, eq_append_of_dropWord hd, List.cons_append], .word hw⟩
  · cases h

/-- The blanks before the first item belong to it. -/
theorem ItemsSound.spells_array (hi : ItemsSound fuel) (hp : Blank p)
    (h : Json.readItems fuel b = (items, .ok rest)) :
    ∃ v, 0x5B :: (p ++ b) = v ++ rest ∧ Spells v (.array items none) := by
  obtain ⟨t, rfl, ht⟩ := hi _ _ _ h
  have hj : Joined (Padded Spells) (p ++ t) items := ht.prepend fun _ _ h => h.prepend hp
  exact ⟨0x5B :: (p ++ t ++ [0x5D]), by simp, .array hj⟩

theorem MembersSound.spells_object (hm : MembersSound fuel) (hp : Blank p)
    (h : Json.readMembers fuel b = (members, .ok rest)) :
    ∃ v, 0x7B :: (p ++ b) = v ++ rest ∧ Spells v (.object members none) := by
  obtain ⟨t, rfl, ht⟩ := hm _ _ _ h
  have hj : Joined (SpellsMember Spells) (p ++ t) members := ht.prepend fun _ _ h => h.prepend hp
  exact ⟨0x7B :: (p ++ t ++ [0x7D]), by simp, .object hj⟩

theorem valuesSound_succ (hi : ItemsSound fuel) (hm : MembersSound fuel) :
    ValuesSound (fuel + 1) := by
  intro b r rest h
  rw [readValue] at h
  obtain ⟨p, hb, hp⟩ := exists_blank b
  suffices hv : ∃ v, skipSpace b = v ++ rest ∧ Spells v r by
    obtain ⟨v, hv, hs⟩ := hv
    exact ⟨p, v, by rw [List.append_assoc, ← hv, ← hb], hp, hs⟩
  generalize skipSpace b = text at *
  split at h
  · cases h
  · rename_i c after
    split at h
    · -- A string.
      rename_i hc
      subst hc
      split at h
      · rename_i hread
        cases h
        obtain ⟨t, ht, hs⟩ := string_of_readText hread
        exact ⟨t, ht, .text hs⟩
      · rename_i hread
        cases h
        obtain ⟨t, ht, hs⟩ := string_of_readText hread
        exact ⟨t, ht, .illFormed hs⟩
      · cases h
    split at h
    · -- A list.
      rename_i hc
      subst hc
      obtain ⟨q, hafter, hq⟩ := exists_blank after
      split at h
      · rename_i more hskip
        cases h
        exact ⟨0x5B :: (q ++ [0x5D]), by rw [hafter, hskip]; simp, .emptyArray hq⟩
      · obtain ⟨hr, hrest⟩ := Prod.mk.inj h
        have hv := hi.spells_array hq (Prod.ext rfl hrest)
        rw [← hafter] at hv
        rw [← hr, hrest]
        exact hv
    split at h
    · -- An object.
      rename_i hc
      subst hc
      obtain ⟨q, hafter, hq⟩ := exists_blank after
      split at h
      · rename_i more hskip
        cases h
        exact ⟨0x7B :: (q ++ [0x7D]), by rw [hafter, hskip]; simp, .emptyObject hq⟩
      · obtain ⟨hr, hrest⟩ := Prod.mk.inj h
        have hv := hm.spells_object hq (Prod.ext rfl hrest)
        rw [← hafter] at hv
        rw [← hr, hrest]
        exact hv
    split at h
    · rename_i hc
      subst hc
      exact spells_of_readWord h (s := "null") (by simp [words]) (by decide)
    split at h
    · rename_i hc
      subst hc
      exact spells_of_readWord h (s := "true") (by simp [words]) (by decide)
    split at h
    · rename_i hc
      subst hc
      exact spells_of_readWord h (s := "false") (by simp [words]) (by decide)
    split at h
    · rename_i hread
      cases h
      obtain ⟨t, ht, hn⟩ := number_of_readNumber hread
      exact ⟨t, ht, .number hn⟩
    · cases h

theorem itemsSound_succ (hv : ValuesSound fuel) (hi : ItemsSound fuel) : ItemsSound (fuel + 1) := by
  intro b items rest h
  rw [Json.readItems] at h
  split at h
  · cases h
  · rename_i item after hread
    obtain ⟨p, v, rfl, hp, hs⟩ := hv _ _ _ hread
    obtain ⟨q, hafter, hq⟩ := exists_blank after
    split at h
    · rename_i more hskip
      obtain ⟨rfl, hmore⟩ := Prod.mk.inj h
      obtain ⟨t, rfl, ht⟩ := hi more _ rest (Prod.ext rfl hmore)
      refine ⟨p ++ v ++ q ++ 0x2C :: t, ?_, .more (.intro hp hs hq) ht⟩
      rw [hafter, hskip]
      simp
    · rename_i more hskip
      cases h
      refine ⟨p ++ v ++ q, ?_, .last (.intro hp hs hq)⟩
      rw [hafter, hskip]
      simp
    · cases h

theorem membersSound_succ (hv : ValuesSound fuel) (hm : MembersSound fuel) :
    MembersSound (fuel + 1) := by
  intro b members rest h
  rw [Json.readMembers] at h
  obtain ⟨p, hb, hp⟩ := exists_blank b
  split at h
  · rename_i text hquote
    split at h
    · cases h
    · rename_i key colon hread
      obtain ⟨k, hk, hkey⟩ := string_of_readText hread
      obtain ⟨q, hcolon, hq⟩ := exists_blank colon
      split at h
      · rename_i value hskip
        have hbefore : b = p ++ k ++ q ++ 0x3A :: value := by
          rw [hb, hquote, hk, hcolon, hskip]
          simp
        split at h
        · cases h
        · rename_i r after hvalue
          obtain ⟨p', v, rfl, hp', hs⟩ := hv _ _ _ hvalue
          obtain ⟨q', hafter, hq'⟩ := exists_blank after
          have member : SpellsMember Spells (p ++ k ++ q ++ 0x3A :: (p' ++ v ++ q')) (key, r) :=
            .intro (.intro hp hkey hq) (.intro hp' hs hq')
          split at h
          · rename_i more hcomma
            obtain ⟨rfl, hmore⟩ := Prod.mk.inj h
            obtain ⟨t, rfl, ht⟩ := hm more _ rest (Prod.ext rfl hmore)
            refine ⟨_, ?_, .more member ht⟩
            rw [hbefore, hafter, hcomma]
            simp
          · rename_i more hclose
            cases h
            refine ⟨_, ?_, .last member⟩
            rw [hbefore, hafter, hclose]
            simp
          · cases h
      · cases h
  · cases h

theorem sound (fuel : Nat) : ValuesSound fuel ∧ ItemsSound fuel ∧ MembersSound fuel := by
  induction fuel with
  | zero =>
    refine ⟨fun b r rest h => ?_, fun b items rest h => ?_, fun b members rest h => ?_⟩
    · rw [readValue] at h
      cases h
    · rw [Json.readItems] at h
      cases h
    · rw [Json.readMembers] at h
      cases h
  | succ fuel ih =>
    obtain ⟨hv, hi, hm⟩ := ih
    exact ⟨valuesSound_succ hi hm, itemsSound_succ hv hi, membersSound_succ hv hm⟩

/-- What is found in front of a text is spelled there, after blanks. -/
theorem spells_of_scan (h : scan b = (r, .ok rest)) :
    ∃ p v, b = p ++ v ++ rest ∧ Blank p ∧ Spells v r :=
  (sound _).1 b r rest h

end Json
end ContainerBuild
