import ContainerBuild.Proofs.Container.MountOptions
import ContainerBuild.Proofs.Text.Folding
import ContainerBuild.Proofs.Text.Numbers

/-!
# What each mount option sets

An option that a kind of mount has sets one thing, whatever was set before it. So the meaning of a list of
options is what the last option of each sort has set, and the words into which the meaning is rendered set
the same things again.
-/

namespace ContainerBuild
namespace MountOptions

variable {kind : VolumeKind} {option : String} {options : List String} {o o' : MountOptions} {v : Volume}

/-! ### Sizes and permissions -/

/-- The units of sizes in small letters, with the number of bytes that each stands for. -/
def units : List (String × Nat) :=
  [("", 1), ("b", 1), ("k", 1024), ("kb", 1024), ("m", 1024 * 1024), ("mb", 1024 * 1024),
    ("g", 1024 * 1024 * 1024), ("gb", 1024 * 1024 * 1024)]

/-- A text says a size: decimal digits and a unit in any letter case, for no more bytes than a signed number
of 64 bits can count. -/
def IsSize (s : String) (n : Nat) : Prop :=
  ∃ digits unit scale, s.toList = digits ++ unit ∧ digits ≠ [] ∧ (∀ c ∈ digits, Text.IsDigit 10 c) ∧
    (Text.lowerAscii (String.ofList unit), scale) ∈ units ∧
    n = Nat.ofDigitChars 10 digits 0 * scale ∧ n ≤ Text.maxSigned64

/-- A text says permissions: octal digits, with a plus sign or without, for an unsigned number of 32 bits. -/
def IsMode (s : String) (n : Nat) : Prop :=
  ∃ digits, (s.toList = digits ∨ s.toList = '+' :: digits) ∧ digits ≠ [] ∧
    (∀ c ∈ digits, Text.IsDigit 8 c) ∧ n = Nat.ofDigitChars 8 digits 0 ∧ n < UInt32.size

theorem unitScale?_eq_some_iff {unit : List Char} {scale : Nat} :
    unitScale? unit = some scale ↔ (Text.lowerAscii (String.ofList unit), scale) ∈ units := by
  rw [unitScale?, Text.lowerAscii, String.toList_ofList]
  generalize String.ofList (unit.map Char.toLower) = name
  constructor
  · intro h
    split at h
    all_goals cases h
    all_goals decide
  · intro h
    simp only [units, List.mem_cons, Prod.mk.injEq, List.not_mem_nil, or_false] at h
    rcases h with ⟨rfl, rfl⟩ | ⟨rfl, rfl⟩ | ⟨rfl, rfl⟩ | ⟨rfl, rfl⟩ | ⟨rfl, rfl⟩ | ⟨rfl, rfl⟩ |
      ⟨rfl, rfl⟩ | ⟨rfl, rfl⟩
    all_goals rfl

/-- There is no digit in a unit, so the digits end where the unit begins. -/
theorem isDigit_of_mem_unit {unit : List Char} {scale : Nat}
    (h : (Text.lowerAscii (String.ofList unit), scale) ∈ units) : ∀ c ∈ unit, c.isDigit = false := by
  intro c hc
  have letters : ∀ u ∈ units, ∀ c ∈ u.1.toList, c.isDigit = false := by simp [units]
  have lower := letters _ h c.toLower (by simpa [Text.lowerAscii] using ⟨c, hc, rfl⟩)
  cases hd : c.isDigit with
  | false => rfl
  | true =>
    have low : c.isUpper = false := by
      rw [Bool.eq_false_iff, Ne, Text.isUpper_iff]
      have bound := Char.isDigit_iff_toNat.1 hd
      change 48 ≤ c.toNat ∧ c.toNat ≤ 57 at bound
      omega
    rw [Text.toLower_of_not_isUpper low, hd] at lower
    exact lower

theorem parseSize_eq_some_iff {s : String} {n : Nat} : parseSize s = some n ↔ IsSize s n := by
  unfold parseSize
  simp only [Option.bind_eq_bind, Option.bind_eq_some_iff, unitScale?_eq_some_iff,
    Text.digits?_eq_some_iff]
  constructor
  · rintro ⟨scale, unit, count, ⟨any, all, rfl⟩, small⟩
    split at small
    · obtain rfl := Option.some.inj small
      exact ⟨_, _, scale, List.takeWhile_append_dropWhile.symm, any, all, unit, rfl, by assumption⟩
    · cases small
  · rintro ⟨digits, unit, scale, text, any, all, known, rfl, small⟩
    have decimal : ∀ c ∈ digits, c.isDigit = true := fun c hc => Text.isDigit_ten_iff.1 (all c hc)
    have other := isDigit_of_mem_unit known
    have front : s.toList.takeWhile Char.isDigit = digits := by
      rw [text, List.takeWhile_append_of_pos decimal]
      cases unit with
      | nil => simp
      | cons c unit => simp [other c (by simp)]
    have back : s.toList.dropWhile Char.isDigit = unit := by
      rw [text, List.dropWhile_append_of_pos decimal]
      cases unit with
      | nil => rfl
      | cons c unit => simp [other c (by simp)]
    rw [front, back]
    exact ⟨scale, known, _, ⟨any, all, rfl⟩, if_pos small⟩

theorem parseMode_eq_some_iff {s : String} {n : Nat} : parseMode s = some n ↔ IsMode s n := by
  rw [parseMode, Text.unsigned?_eq_some_iff, IsMode]
  rw [Nat.le_sub_one_iff_lt (by decide)]

theorem isSize_toDigits {n : Nat} (h : n ≤ Text.maxSigned64) :
    IsSize (String.ofList (Nat.toDigits 10 n)) n := by
  refine ⟨Nat.toDigits 10 n, [], 1, by simp, Nat.toDigits_ne_nil, fun c hc => ?_, by decide, ?_, h⟩
  · exact Text.isDigit_of_mem_toDigits (by decide) (by decide) hc
  · rw [Nat.ofDigitChars_toDigits (by decide) (by decide), Nat.mul_one]

theorem isMode_toDigits {n : Nat} (h : n < UInt32.size) : IsMode (String.ofList (Nat.toDigits 8 n)) n := by
  refine ⟨Nat.toDigits 8 n, .inl (by simp), Nat.toDigits_ne_nil, fun c hc => ?_, ?_, h⟩
  · exact Text.isDigit_of_mem_toDigits (by decide) (by decide) hc
  · rw [Nat.ofDigitChars_toDigits (by decide) (by decide)]

/-! ### One option -/

/-- What an option can set. -/
inductive Setting
  | readOnly (value : Bool)
  | propagation (p : Propagation)
  | noCopy
  | size (n : Nat)
  | mode (n : Nat)

namespace Setting

/-- Options after a setting: it takes the place of what was set before. -/
def on : Setting → MountOptions → MountOptions
  | readOnly value, o => { o with readOnly := value }
  | propagation p, o => { o with propagation := some p }
  | noCopy, o => { o with noCopy := true }
  | size n, o => { o with tmpfsSize := some n }
  | mode n, o => { o with tmpfsMode := some n }

theorem on_none_inj {s t : Setting} (h : s.on MountOptions.none = t.on MountOptions.none) : s = t := by
  cases s <;> cases t <;> simp_all [on, MountOptions.none]

end Setting

/-- The options of each kind of mount, and what they set. -/
inductive Sets : VolumeKind → String → Setting → Prop
  | ro (kind : VolumeKind) : Sets kind "ro" (.readOnly true)
  | readonly (kind : VolumeKind) : Sets kind "readonly" (.readOnly true)
  | rw (kind : VolumeKind) : Sets kind "rw" (.readOnly false)
  | propagation (p : Propagation) : Sets .bind p.name (.propagation p)
  | noCopy : Sets .volume "nocopy" .noCopy
  | size {text : String} {n : Nat} (h : IsSize text n) : Sets .tmpfs ("size=" ++ text) (.size n)
  | mode {text : String} {n : Nat} (h : IsMode text n) : Sets .tmpfs ("mode=" ++ text) (.mode n)

theorem allowed_iff : Allowed kind option ↔ ∃ s, Sets kind option s := by
  constructor
  · rintro (rfl | rfl | rfl | h)
    · exact ⟨_, .ro kind⟩
    · exact ⟨_, .readonly kind⟩
    · exact ⟨_, .rw kind⟩
    cases kind with
    | bind =>
      obtain ⟨p, rfl⟩ := h
      exact ⟨_, .propagation p⟩
    | volume =>
      obtain rfl : option = "nocopy" := h
      exact ⟨_, .noCopy⟩
    | tmpfs =>
      rcases h with ⟨text, n, rfl, h⟩ | ⟨text, n, rfl, h⟩
      · exact ⟨_, .size (parseSize_eq_some_iff.1 h)⟩
      · exact ⟨_, .mode (parseMode_eq_some_iff.1 h)⟩
  · rintro ⟨s, h⟩
    cases h with
    | ro => exact .inl rfl
    | readonly => exact .inr (.inl rfl)
    | rw => exact .inr (.inr (.inl rfl))
    | propagation p => exact .inr (.inr (.inr ⟨p, rfl⟩))
    | noCopy => exact .inr (.inr (.inr rfl))
    | size h => exact .inr (.inr (.inr (.inl ⟨_, _, rfl, parseSize_eq_some_iff.2 h⟩)))
    | mode h => exact .inr (.inr (.inr (.inr ⟨_, _, rfl, parseMode_eq_some_iff.2 h⟩)))

theorem apply_of_sets {s : Setting} (h : Sets kind option s) (o : MountOptions) :
    apply kind option o = .ok (s.on o) := by
  cases h with
  | ro => rfl
  | readonly => rfl
  | rw => rfl
  | propagation p =>
    rw [apply_word (splitFirst_name p)]
    cases p <;> rfl
  | noCopy => rfl
  | @size text n h =>
    change apply .tmpfs ("size" ++ "=" ++ text) o = _
    rw [apply_keyed (by decide)]
    simp only [applyValue, parseSize_eq_some_iff.2 h]
    rfl
  | @mode text n h =>
    change apply .tmpfs ("mode" ++ "=" ++ text) o = _
    rw [apply_keyed (by decide)]
    simp only [applyValue, parseMode_eq_some_iff.2 h]
    rfl

/-- An option is read exactly if its kind of mount has it, and then it sets what it says. -/
theorem apply_eq_ok_iff : apply kind option o = .ok o' ↔ ∃ s, Sets kind option s ∧ o' = s.on o := by
  constructor
  · intro h
    by_cases allowed : Allowed kind option
    · obtain ⟨s, hs⟩ := allowed_iff.1 allowed
      rw [apply_of_sets hs] at h
      exact ⟨s, hs, (Except.ok.inj h).symm⟩
    · obtain ⟨flaw, refused⟩ := apply_of_not_allowed (o := o) allowed
      rw [refused] at h
      cases h
  · rintro ⟨s, hs, rfl⟩
    exact apply_of_sets hs o

/-- No option sets two things. -/
theorem Sets.unique {s t : Setting} (hs : Sets kind option s) (ht : Sets kind option t) : s = t := by
  have same := apply_of_sets hs none
  rw [apply_of_sets ht none] at same
  exact (Setting.on_none_inj (Except.ok.inj same)).symm

/-- Why a kind of mount refuses an option that it does not have: the key of the option may be right. -/
def flawOf (kind : VolumeKind) (option : String) : Flaw :=
  match kind, (Text.splitFirst '=' option).map Prod.fst with
  | .tmpfs, some "size" => .noSize
  | .tmpfs, some "mode" => .noMode
  | kind, _ => .unsupported kind

theorem applyWord_eq_error {flaw : Flaw} (h : applyWord kind option o = .error flaw) :
    flaw = .unsupported kind := by
  unfold applyWord at h
  split at h
  · cases h
  split at h
  · cases h
  split at h
  · split at h
    · cases h
    · exact (Except.error.inj h).symm
  · split at h
    · cases h
    · exact (Except.error.inj h).symm
  · exact (Except.error.inj h).symm

theorem apply_eq_error {flaw : Flaw} (h : apply kind option o = .error flaw) :
    flaw = flawOf kind option := by
  cases cut : Text.splitFirst '=' option with
  | none =>
    rw [apply_word cut] at h
    rw [applyWord_eq_error h]
    unfold flawOf
    rw [cut]
    cases kind <;> rfl
  | some pieces =>
    obtain ⟨key, value⟩ := pieces
    rw [apply, cut] at h
    change applyValue kind key value o = .error flaw at h
    unfold flawOf
    rw [cut, Option.map_some]
    unfold applyValue at h
    split at h
    · split at h
      · cases h
      · exact (Except.error.inj h).symm
    · split at h
      · cases h
      · exact (Except.error.inj h).symm
    · rename_i noSize noMode
      rw [← Except.error.inj h]
      split
      · rename_i hk
        exact absurd (Option.some.inj hk) (noSize rfl)
      · rename_i hk
        exact absurd (Option.some.inj hk) (noMode rfl)
      · rfl

/-! ### The options of a mount one after another -/

theorem parseFrom_cons_of_sets {s : Setting} (h : Sets v.kind option s) :
    parseFrom v o (option :: options) = parseFrom v (s.on o) options := by
  rw [parseFrom, apply_of_sets h]

theorem parseFrom_append (v : Volume) (o : MountOptions) (before after : List String) :
    parseFrom v o (before ++ after) = parseFrom v o before >>= fun o' => parseFrom v o' after := by
  induction before generalizing o with
  | nil => rfl
  | cons option before ih =>
    rw [List.cons_append, parseFrom, parseFrom]
    cases apply v.kind option o with
    | ok o' => exact ih o'
    | error flaw => rfl

theorem parseFrom_singleton_iff :
    parseFrom v o [option] = .ok o' ↔ ∃ s, Sets v.kind option s ∧ o' = s.on o := by
  rw [← apply_eq_ok_iff, parseFrom]
  cases apply v.kind option o with
  | ok o₁ =>
    change Except.ok o₁ = Except.ok o' ↔ Except.ok o₁ = Except.ok o'
    rw [Except.ok.injEq, Except.ok.injEq]
  | error flaw => simp

/-- One more option is read exactly if its kind of mount has it. -/
theorem parseFrom_concat_iff : parseFrom v o (options ++ [option]) = .ok o' ↔
    ∃ o₁ s, parseFrom v o options = .ok o₁ ∧ Sets v.kind option s ∧ o' = s.on o₁ := by
  rw [parseFrom_append, bind_eq_ok_iff]
  simp only [parseFrom_singleton_iff, exists_and_left]

theorem parse_eq_ok_iff :
    (∃ o, parse v = .ok o) ↔ ∀ option ∈ v.options, ∃ s, Sets v.kind option s := by
  simp only [← allowed_iff]
  constructor
  · rintro ⟨o, read⟩
    rcases FirstWithout.all_or_exists (Allowed v.kind) v.options with all | ⟨option, first⟩
    · exact all
    · obtain ⟨reason, refused⟩ := parse_of_firstWithout first
      rw [refused] at read
      cases read
  · intro all
    obtain ⟨o, read, -⟩ := parse_of_accepted all
    exact ⟨o, read⟩

/-- Options are refused for the first one that its kind of mount has not, with the reason for that one. -/
theorem parseFrom_eq_error {e : BuildError} (h : parseFrom v o options = .error e) :
    ∃ option, FirstWithout (fun option => ∃ s, Sets v.kind option s) options option ∧
      e = .invalidMount v.target option (flawOf v.kind option).reason := by
  induction options generalizing o with
  | nil => cases h
  | cons option options ih =>
    rw [parseFrom] at h
    cases run : apply v.kind option o with
    | ok o₁ =>
      rw [run] at h
      obtain ⟨s, hs, -⟩ := apply_eq_ok_iff.1 run
      obtain ⟨bad, first, rfl⟩ := ih h
      exact ⟨bad, first.cons ⟨s, hs⟩, rfl⟩
    | error flaw =>
      rw [run] at h
      obtain rfl := apply_eq_error run
      refine ⟨option, .head fun has => ?_, (Except.error.inj h).symm⟩
      obtain ⟨s, hs⟩ := has
      rw [apply_of_sets hs] at run
      cases run

theorem parse_eq_error_iff {e : BuildError} : parse v = .error e ↔
    ∃ option, FirstWithout (fun option => ∃ s, Sets v.kind option s) v.options option ∧
      e = .invalidMount v.target option (flawOf v.kind option).reason := by
  constructor
  · exact parseFrom_eq_error
  · rintro ⟨option, first, rfl⟩
    simp only [← allowed_iff] at first
    obtain ⟨reason, refused⟩ := parse_of_firstWithout first
    obtain ⟨option', -, same⟩ := parseFrom_eq_error refused
    obtain ⟨-, rfl, rfl⟩ := BuildError.invalidMount.inj same
    exact refused

/-! ### The last option that sets something -/

/-- The last of the options that set a field at all gives it this value. -/
def LastSets {α : Type} (kind : VolumeKind) (options : List String) (field : α → Setting) (a : α) : Prop :=
  ∃ option, LastWith (fun option => ∃ b, Sets kind option (field b)) options option ∧
    Sets kind option (field a)

/-- Options mean what the last option of each sort sets, and nothing where no option of it is given. -/
structure Reflects (kind : VolumeKind) (options : List String) (o : MountOptions) : Prop where
  readOnly : o.readOnly = true ↔ LastSets kind options .readOnly true
  propagation (p : Propagation) : o.propagation = some p ↔ LastSets kind options .propagation p
  noCopy : o.noCopy = true ↔ ∃ option ∈ options, Sets kind option .noCopy
  size (n : Nat) : o.tmpfsSize = some n ↔ LastSets kind options .size n
  mode (n : Nat) : o.tmpfsMode = some n ↔ LastSets kind options .mode n

section Last

variable {α : Type} {field : α → Setting} {a : α} {s : Setting}

theorem not_lastSets_nil : ¬LastSets kind [] field a := by
  rintro ⟨option, last, -⟩
  exact not_lastWith_nil last

/-- One more option sets its field anew, and leaves the other fields to the options before it. -/
theorem lastSets_concat_iff (h : Sets kind option s) :
    LastSets kind (options ++ [option]) field a ↔
      s = field a ∨ (∀ b, s ≠ field b) ∧ LastSets kind options field a := by
  have sets (b : α) : Sets kind option (field b) ↔ s = field b :=
    ⟨h.unique, fun same => same ▸ h⟩
  simp only [LastSets, lastWith_concat_iff, sets]
  constructor
  · rintro ⟨x, ⟨-, rfl⟩ | ⟨other, last⟩, hx⟩
    · exact .inl ((sets a).1 hx)
    · exact .inr ⟨fun b same => other ⟨b, same⟩, x, last, hx⟩
  · rintro (same | ⟨other, x, last, hx⟩)
    · exact ⟨option, .inl ⟨⟨a, same⟩, rfl⟩, (sets a).2 same⟩
    · exact ⟨x, .inr ⟨fun ⟨b, same⟩ => other b same, last⟩, hx⟩

end Last

theorem reflects_none (kind : VolumeKind) : Reflects kind [] none := by
  constructor
  · exact iff_of_false nofun not_lastSets_nil
  · exact fun p => iff_of_false nofun not_lastSets_nil
  · simp [none]
  · exact fun n => iff_of_false nofun not_lastSets_nil
  · exact fun n => iff_of_false nofun not_lastSets_nil

theorem Reflects.concat {s : Setting} (h : Reflects kind options o) (hs : Sets kind option s) :
    Reflects kind (options ++ [option]) (s.on o) := by
  have sets (t : Setting) : Sets kind option t ↔ s = t := ⟨hs.unique, fun same => same ▸ hs⟩
  constructor
  · rw [lastSets_concat_iff hs, ← h.readOnly]
    cases s <;> simp [Setting.on]
  · intro p
    rw [lastSets_concat_iff hs, ← h.propagation]
    cases s <;> simp [Setting.on]
  · simp only [List.mem_append, List.mem_singleton, or_and_right, exists_or, exists_eq_left, sets,
      ← h.noCopy]
    cases s <;> simp [Setting.on]
  · intro n
    rw [lastSets_concat_iff hs, ← h.size]
    cases s <;> simp [Setting.on]
  · intro n
    rw [lastSets_concat_iff hs, ← h.mode]
    cases s <;> simp [Setting.on]

theorem reflects_of_parseFrom (h : parseFrom v none options = .ok o) : Reflects v.kind options o := by
  induction options using List.reverseRecOn generalizing o with
  | nil =>
    obtain rfl := Except.ok.inj h
    exact reflects_none v.kind
  | append_singleton options option ih =>
    obtain ⟨o₁, s, run, hs, rfl⟩ := parseFrom_concat_iff.1 h
    exact (ih run).concat hs

/-! ### Options that were rendered -/

/-- The word that is rendered for a setting. -/
def Setting.word : Setting → String
  | readOnly true => "ro"
  | readOnly false => "rw"
  | propagation p => p.name
  | noCopy => "nocopy"
  | size n => "size=" ++ toString n
  | mode n => "mode=" ++ Text.octal n

/-- However a setting was written, its word sets the same for the same kind of mount. -/
theorem Sets.word {s : Setting} (h : Sets kind option s) : Sets kind s.word s := by
  cases h with
  | ro => exact .ro kind
  | readonly => exact .ro kind
  | rw => exact .rw kind
  | propagation p => exact .propagation p
  | noCopy => exact .noCopy
  | @size text n h =>
    obtain ⟨-, -, -, -, -, -, -, -, small⟩ := h
    have decimal : toString n = String.ofList (Nat.toDigits 10 n) := Nat.toString_eq_ofList_toDigits
    rw [Setting.word, decimal]
    exact .size (isSize_toDigits small)
  | mode h =>
    obtain ⟨-, -, -, -, -, small⟩ := h
    exact .mode (isMode_toDigits small)

theorem parseFrom_then {o₁ o₂ : MountOptions} {before after : List String}
    (h : parseFrom v o before = .ok o₁) (h' : parseFrom v o₁ after = .ok o₂) :
    parseFrom v o (before ++ after) = .ok o₂ := by
  rw [parseFrom_append, bind_eq_ok_iff]
  exact ⟨o₁, h, h'⟩

theorem parseFrom_flag {flag : Bool} {s : Setting} (h : flag = true → Sets v.kind option s) :
    parseFrom v o (if flag then [option] else []) = .ok (if flag then s.on o else o) := by
  cases flag with
  | false => rfl
  | true => exact parseFrom_cons_of_sets (h rfl)

theorem parseFrom_optional {α : Type} {x : Option α} {word : α → String} {field : α → Setting}
    (h : ∀ a, x = some a → Sets v.kind (word a) (field a)) :
    parseFrom v o (x.map word).toList = .ok (x.elim o fun a => (field a).on o) := by
  cases x with
  | none => rfl
  | some a => exact parseFrom_cons_of_sets (h a rfl)

theorem parseFrom_render (h : Reflects v.kind options o) : parseFrom v none o.render = .ok o := by
  have propagation (p : Propagation) (hp : o.propagation = some p) :
      Sets v.kind p.name (.propagation p) := by
    obtain ⟨option, -, set⟩ := (h.propagation p).1 hp
    exact set.word
  have noCopy (hc : o.noCopy = true) : Sets v.kind "nocopy" .noCopy := by
    obtain ⟨option, -, set⟩ := h.noCopy.1 hc
    exact set.word
  have size (n : Nat) (hn : o.tmpfsSize = some n) : Sets v.kind ("size=" ++ toString n) (.size n) := by
    obtain ⟨option, -, set⟩ := (h.size n).1 hn
    exact set.word
  have mode (n : Nat) (hn : o.tmpfsMode = some n) : Sets v.kind ("mode=" ++ Text.octal n) (.mode n) := by
    obtain ⟨option, -, set⟩ := (h.mode n).1 hn
    exact set.word
  have run : parseFrom v none o.render = .ok _ :=
    parseFrom_then (parseFrom_then (parseFrom_then (parseFrom_then
      (parseFrom_flag fun _ => .ro v.kind) (parseFrom_optional propagation))
      (parseFrom_flag noCopy)) (parseFrom_optional size)) (parseFrom_optional mode)
  -- each field is set by its own words alone, or is as it is where nothing is set
  rw [run, Except.ok.injEq]
  clear run propagation noCopy size mode h
  obtain ⟨r, p, c, n, m⟩ := o
  cases r <;> cases p <;> cases c <;> cases n <;> cases m <;> rfl

/-- The options of a mount are read exactly if its kind has every one of them, and otherwise the first that
it has not is named with the target of the mount. What is read is what the last option of each sort sets, and
is read again from the words that make it. -/
theorem meaning_of_options (v : Volume) :
    ((∃ o, parse v = .ok o) ↔ ∀ option ∈ v.options, ∃ s, Sets v.kind option s) ∧
      (∀ e, parse v = .error e ↔
        ∃ option, FirstWithout (fun option => ∃ s, Sets v.kind option s) v.options option ∧
          e = .invalidMount v.target option (flawOf v.kind option).reason) ∧
      ∀ o, parse v = .ok o →
        Reflects v.kind v.options o ∧ parse { v with options := o.render } = .ok o := by
  refine ⟨parse_eq_ok_iff, fun e => parse_eq_error_iff, fun o read => ?_⟩
  have reflects : Reflects v.kind v.options o := reflects_of_parseFrom read
  exact ⟨reflects, parseFrom_render (v := { v with options := o.render }) reflects⟩

end MountOptions
end ContainerBuild
