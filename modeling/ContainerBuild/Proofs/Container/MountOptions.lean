import ContainerBuild.Container.MountOptions
import ContainerBuild.Proofs.Text.Splitting
import ContainerBuild.Proofs.Traversal

/-!
# What mount options mean

An option is accepted or refused by its kind of mount alone, whatever stands before it, and an accepted
option changes nothing that belongs to another kind. So the options of a mount are read to the end, or
refused for the first that its kind does not have; and what was read is all that the words say into
which it is rendered.
-/

namespace ContainerBuild

namespace Propagation

theorem eq_name_of_ofName? {word : String} {p : Propagation} (h : ofName? word = some p) :
    word = p.name := by
  unfold ofName? at h
  split at h
  all_goals cases h
  all_goals rfl

end Propagation

namespace MountOptions

variable {kind : VolumeKind} {option : String} {o : MountOptions} {v : Volume}

/-! ### Accepted options -/

def Allowed (kind : VolumeKind) (option : String) : Prop :=
  option = "ro" ∨ option = "readonly" ∨ option = "rw" ∨
    match kind with
    | .bind => ∃ p : Propagation, option = p.name
    | .volume => option = "nocopy"
    | .tmpfs => (∃ size n, option = "size=" ++ size ∧ parseSize size = some n) ∨
        ∃ mode n, option = "mode=" ++ mode ∧ parseMode mode = some n

/-- Nothing is said that belongs to another kind of mount. -/
structure OfKind (kind : VolumeKind) (o : MountOptions) : Prop where
  propagation : kind ≠ .bind → o.propagation = .none
  noCopy : kind ≠ .volume → o.noCopy = false
  size : kind ≠ .tmpfs → o.tmpfsSize = .none
  mode : kind ≠ .tmpfs → o.tmpfsMode = .none

theorem ofKind_none (kind : VolumeKind) : OfKind kind none :=
  ⟨fun _ => rfl, fun _ => rfl, fun _ => rfl, fun _ => rfl⟩

theorem splitFirst_keyed {key value : String} (h : '=' ∉ key.toList) :
    Text.splitFirst '=' (key ++ "=" ++ value) = some (key, value) := by
  rw [Text.splitFirst_eq_some_iff]
  exact ⟨by simp, h⟩

theorem apply_word (h : Text.splitFirst '=' option = .none) :
    apply kind option o = applyWord kind option o := by
  rw [apply, h]

theorem apply_keyed {key value : String} (h : '=' ∉ key.toList) :
    apply kind (key ++ "=" ++ value) o = applyValue kind key value o := by
  rw [apply, splitFirst_keyed h]

theorem splitFirst_name (p : Propagation) : Text.splitFirst '=' p.name = .none := by
  cases p <;> decide

/-- An option of its kind is accepted and leaves alone what belongs to other kinds. -/
theorem apply_of_allowed (h : Allowed kind option) (ho : OfKind kind o) :
    ∃ o', apply kind option o = .ok o' ∧ OfKind kind o' := by
  obtain ⟨hp, hn, hs, hm⟩ := ho
  rcases h with rfl | rfl | rfl | h
  · exact ⟨{ o with readOnly := true }, rfl, hp, hn, hs, hm⟩
  · exact ⟨{ o with readOnly := true }, rfl, hp, hn, hs, hm⟩
  · exact ⟨{ o with readOnly := false }, rfl, hp, hn, hs, hm⟩
  cases kind with
  | bind =>
    obtain ⟨p, rfl⟩ := h
    refine ⟨{ o with propagation := some p }, ?_, fun hk => absurd rfl hk, hn, hs, hm⟩
    rw [apply_word (splitFirst_name p)]
    cases p <;> rfl
  | volume =>
    obtain rfl : option = "nocopy" := h
    exact ⟨{ o with noCopy := true }, rfl, hp, fun hk => absurd rfl hk, hs, hm⟩
  | tmpfs =>
    rcases h with ⟨size, n, rfl, hsize⟩ | ⟨mode, n, rfl, hmode⟩
    · refine ⟨{ o with tmpfsSize := some n }, ?_, hp, hn, fun hk => absurd rfl hk, hm⟩
      change apply .tmpfs ("size" ++ "=" ++ size) o = _
      rw [apply_keyed (by decide)]
      simp only [applyValue, hsize]
    · refine ⟨{ o with tmpfsMode := some n }, ?_, hp, hn, hs, fun hk => absurd rfl hk⟩
      change apply .tmpfs ("mode" ++ "=" ++ mode) o = _
      rw [apply_keyed (by decide)]
      simp only [applyValue, hmode]

theorem applyWord_of_not_allowed (h : ¬Allowed kind option) :
    ∃ flaw, applyWord kind option o = .error flaw := by
  have read : ¬(option = "ro" ∨ option = "readonly") := fun hr =>
    hr.elim (fun hr => h (.inl hr)) fun hr => h (.inr (.inl hr))
  have write : option ≠ "rw" := fun hr => h (.inr (.inr (.inl hr)))
  unfold applyWord
  rw [if_neg read, if_neg write]
  cases kind with
  | bind =>
    simp only
    split
    · rename_i p hp
      exact absurd (.inr (.inr (.inr ⟨p, Propagation.eq_name_of_ofName? hp⟩))) h
    · exact ⟨_, rfl⟩
  | volume =>
    simp only
    split
    · rename_i hn
      exact absurd (.inr (.inr (.inr hn))) h
    · exact ⟨_, rfl⟩
  | tmpfs => exact ⟨_, rfl⟩

theorem applyValue_of_not_allowed {key value : String} (h : ¬Allowed kind (key ++ "=" ++ value)) :
    ∃ flaw, applyValue kind key value o = .error flaw := by
  unfold applyValue
  split
  · split
    · rename_i n hn
      exact absurd (.inr (.inr (.inr (.inl ⟨value, n, rfl, hn⟩)))) h
    · exact ⟨_, rfl⟩
  · split
    · rename_i n hn
      exact absurd (.inr (.inr (.inr (.inr ⟨value, n, rfl, hn⟩)))) h
    · exact ⟨_, rfl⟩
  · exact ⟨_, rfl⟩

theorem apply_of_not_allowed (h : ¬Allowed kind option) :
    ∃ flaw, apply kind option o = .error flaw := by
  cases hs : Text.splitFirst '=' option with
  | none =>
    rw [apply_word hs]
    exact applyWord_of_not_allowed h
  | some p =>
    obtain ⟨key, value⟩ := p
    obtain ⟨text, hkey⟩ := Text.splitFirst_eq_some_iff.1 hs
    obtain rfl : option = key ++ "=" ++ value := by
      rw [← String.toList_inj, text]
      simp
    rw [apply_keyed hkey]
    exact applyValue_of_not_allowed h

/-! ### All options of a mount -/

/-- A mount that has only options of its kind. -/
def Accepted (v : Volume) : Prop := ∀ option ∈ v.options, Allowed v.kind option

theorem parseFrom_of_allowed {options : List String} (h : ∀ option ∈ options, Allowed v.kind option)
    (ho : OfKind v.kind o) : ∃ o', parseFrom v o options = .ok o' ∧ OfKind v.kind o' := by
  induction options generalizing o with
  | nil => exact ⟨o, rfl, ho⟩
  | cons option options ih =>
    obtain ⟨hoption, hrest⟩ := List.forall_mem_cons.1 h
    obtain ⟨o', happly, ho'⟩ := apply_of_allowed hoption ho
    rw [parseFrom, happly]
    exact ih hrest ho'

theorem parseFrom_of_firstWithout {options : List String}
    (h : FirstWithout (Allowed v.kind) options option) (ho : OfKind v.kind o) :
    ∃ reason, parseFrom v o options = .error (.invalidMount v.target option reason) := by
  obtain ⟨before, after, rfl, fine, bad⟩ := h
  induction before generalizing o with
  | nil =>
    obtain ⟨flaw, hflaw⟩ := apply_of_not_allowed bad
    exact ⟨flaw.reason, by rw [List.nil_append, parseFrom, hflaw]⟩
  | cons first before ih =>
    obtain ⟨hfirst, fine⟩ := List.forall_mem_cons.1 fine
    obtain ⟨o', happly, ho'⟩ := apply_of_allowed hfirst ho
    rw [List.cons_append, parseFrom, happly]
    exact ih ho' fine

/-- The options of a mount are all read, and belong to its kind. -/
theorem parse_of_accepted (h : Accepted v) : ∃ o, parse v = .ok o ∧ OfKind v.kind o :=
  parseFrom_of_allowed h (ofKind_none v.kind)

theorem parse_of_firstWithout (h : FirstWithout (Allowed v.kind) v.options option) :
    ∃ reason, parse v = .error (.invalidMount v.target option reason) :=
  parseFrom_of_firstWithout h (ofKind_none v.kind)

/-! ### Options as words -/

/-- One thing that can be said of a mount. -/
inductive Statement
  | readOnly
  | propagation (p : Propagation)
  | noCopy
  | size (n : Nat)
  | mode (n : Nat)

namespace Statement

/-- The word for it: sizes are in decimal and modes in octal digits. -/
def word : Statement → String
  | readOnly => "ro"
  | propagation p => p.name
  | noCopy => "nocopy"
  | size n => "size=" ++ String.ofList (Nat.toDigits 10 n)
  | mode n => "mode=" ++ String.ofList (Nat.toDigits 8 n)

theorem toDigits_inj {b m n : Nat} (hb : 1 < b) (hb' : b ≤ 10)
    (h : Nat.toDigits b m = Nat.toDigits b n) : m = n := by
  rw [← Nat.ofDigitChars_toDigits hb hb' (n := m), h, Nat.ofDigitChars_toDigits hb hb']

/-- Different things have different words. -/
theorem word_inj {s t : Statement} (h : s.word = t.word) : s = t := by
  have chars := congrArg String.toList h
  cases s with
  | readOnly =>
    cases t with
    | readOnly => rfl
    | propagation q => cases q <;> simp [word, Propagation.name] at chars
    | _ => simp [word] at chars
  | propagation p =>
    cases t with
    | propagation q =>
      have names := congrArg Propagation.ofName? h
      rw [word, word, Propagation.ofName?_name, Propagation.ofName?_name] at names
      rw [Option.some.inj names]
    | _ => cases p <;> simp [word, Propagation.name] at chars
  | noCopy =>
    cases t with
    | noCopy => rfl
    | propagation q => cases q <;> simp [word, Propagation.name] at chars
    | _ => simp [word] at chars
  | size m =>
    cases t with
    | size n =>
      rw [toDigits_inj (by decide) (by decide) (show Nat.toDigits 10 m = _ by simpa [word] using chars)]
    | propagation q => cases q <;> simp [word, Propagation.name] at chars
    | _ => simp [word] at chars
  | mode m =>
    cases t with
    | mode n =>
      rw [toDigits_inj (by decide) (by decide) (show Nat.toDigits 8 m = _ by simpa [word] using chars)]
    | propagation q => cases q <;> simp [word, Propagation.name] at chars
    | _ => simp [word] at chars

/-- Whether options make a statement. -/
def HoldsOf (o : MountOptions) : Statement → Prop
  | readOnly => o.readOnly = true
  | propagation p => o.propagation = some p
  | noCopy => o.noCopy = true
  | size n => o.tmpfsSize = some n
  | mode n => o.tmpfsMode = some n

end Statement

/-- The words make the same statements as the options, and every word makes one. -/
structure Says (words : List String) (o : MountOptions) : Prop where
  same : ∀ s : Statement, s.word ∈ words ↔ s.HoldsOf o
  only : ∀ word ∈ words, ∃ s : Statement, word = s.word

theorem mem_render_iff {word : String} :
    word ∈ o.render ↔ ∃ s : Statement, s.HoldsOf o ∧ word = s.word := by
  have decimal (n : Nat) : toString n = String.ofList (Nat.toDigits 10 n) :=
    Nat.toString_eq_ofList_toDigits
  simp only [render, List.mem_append, Option.mem_toList, Option.map_eq_some_iff,
    List.mem_ite_nil_right, List.mem_singleton, decimal]
  constructor
  · rintro ((((⟨hr, rfl⟩ | ⟨p, hp, rfl⟩) | ⟨hc, rfl⟩) | ⟨n, hn, rfl⟩) | ⟨n, hn, rfl⟩)
    · exact ⟨.readOnly, hr, rfl⟩
    · exact ⟨.propagation p, hp, rfl⟩
    · exact ⟨.noCopy, hc, rfl⟩
    · exact ⟨.size n, hn, rfl⟩
    · exact ⟨.mode n, hn, rfl⟩
  · rintro ⟨s, hs, rfl⟩
    cases s with
    | readOnly => exact .inl (.inl (.inl (.inl ⟨hs, rfl⟩)))
    | propagation p => exact .inl (.inl (.inl (.inr ⟨p, hs, rfl⟩)))
    | noCopy => exact .inl (.inl (.inr ⟨hs, rfl⟩))
    | size n => exact .inl (.inr ⟨n, hs, rfl⟩)
    | mode n => exact .inr ⟨n, hs, rfl⟩

theorem says_render (o : MountOptions) : Says o.render o := by
  constructor
  · intro s
    rw [mem_render_iff]
    constructor
    · rintro ⟨t, ht, heq⟩
      rwa [Statement.word_inj heq]
    · exact fun hs => ⟨s, hs, rfl⟩
  · intro word hw
    obtain ⟨s, -, heq⟩ := mem_render_iff.1 hw
    exact ⟨s, heq⟩

end MountOptions
end ContainerBuild
