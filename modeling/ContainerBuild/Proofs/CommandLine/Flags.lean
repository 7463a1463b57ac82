import ContainerBuild.CommandLine.Arguments
import Mathlib.Data.List.Basic

/-!
# Flags among arguments

A line of arguments has words in order, and among them settings: flags, each with its value right after
it. Taking a flag out leaves such a line with the same words and without the settings of that flag. So
after the three flags the words are left, and what the line says is what the words say with the values of
the settings, wherever these stand. A flag that is the last argument has no value.
-/

namespace ContainerBuild
namespace CommandLine

inductive Flag
  | runtime
  | socket
  | context
  deriving DecidableEq, Repr

namespace Flag

def long : Flag → String
  | runtime => "--runtime"
  | socket => "--socket"
  | context => "--context"

def short : Flag → String
  | runtime => "-r"
  | socket => "-s"
  | context => "-c"

def spellings (f : Flag) : List String :=
  [f.long, f.short]

theorem disjoint_spellings {f g : Flag} (h : f ≠ g) : f.spellings.Disjoint g.spellings := by
  cases f <;> cases g <;> simp [spellings, long, short] at h ⊢

end Flag

structure Setting where
  flag : Flag
  spelling : String
  value : String
  spelled : spelling ∈ flag.spellings

/-- A word that is not taken for a flag. -/
def IsPlain (word : String) : Prop :=
  ∀ f : Flag, word ∉ f.spellings

theorem isPlain_iff {word : String} : IsPlain word ↔ word ∉ Flag.runtime.spellings ∧
    word ∉ Flag.socket.spellings ∧ word ∉ Flag.context.spellings := by
  constructor
  · intro plain
    exact ⟨plain .runtime, plain .socket, plain .context⟩
  · rintro ⟨runtime, socket, context⟩ f
    cases f with
    | runtime => exact runtime
    | socket => exact socket
    | context => exact context

instance (word : String) : Decidable (IsPlain word) :=
  decidable_of_iff _ isPlain_iff.symm

/-- A line of words with settings before, between and after them. -/
inductive Mixed : List String → List Setting → List String → Prop
  | nil : Mixed [] [] []
  | word {word : String} {words line : List String} {settings : List Setting}
      (h : Mixed words settings line) : Mixed (word :: words) settings (word :: line)
  | setting (x : Setting) {words line : List String} {settings : List Setting}
      (h : Mixed words settings line) : Mixed words (x :: settings) (x.spelling :: x.value :: line)

/-- What a line of arguments is made of. No flag is set twice, and no word or value looks like a flag. -/
structure Holds (line words : List String) (settings : List Setting) : Prop where
  mixed : Mixed words settings line
  plainWords : ∀ word ∈ words, IsPlain word
  plainValues : ∀ x ∈ settings, IsPlain x.value
  once : (settings.map Setting.flag).Nodup

/-- The value that some settings give to a flag. -/
def value? (settings : List Setting) (f : Flag) : Option String :=
  (settings.find? fun x => x.flag = f).map Setting.value

def without (f : Flag) (settings : List Setting) : List Setting :=
  settings.filter fun x => x.flag ≠ f

variable {names line words rest : List String} {settings : List Setting} {f g : Flag}
  {word spelling : String} {value : Option String}

/-! ### Settings -/

theorem value?_cons (x : Setting) (settings : List Setting) (f : Flag) :
    value? (x :: settings) f = if x.flag = f then some x.value else value? settings f := by
  unfold value?
  rw [List.find?_cons]
  by_cases h : x.flag = f <;> simp [h]

theorem value?_eq_none_iff : value? settings f = none ↔ f ∉ settings.map Setting.flag := by
  induction settings with
  | nil => exact iff_of_true rfl List.not_mem_nil
  | cons x settings ih =>
    rw [value?_cons, List.map_cons, List.mem_cons, not_or]
    by_cases h : x.flag = f
    · rw [if_pos h]
      exact iff_of_false nofun fun other => other.1 h.symm
    · rw [if_neg h, ih]
      exact ⟨fun absent => ⟨Ne.symm h, absent⟩, fun absent => absent.2⟩

theorem value?_eq_some_iff {v : String} (once : (settings.map Setting.flag).Nodup) :
    value? settings f = some v ↔ ∃ x ∈ settings, x.flag = f ∧ x.value = v := by
  induction settings with
  | nil => exact iff_of_false nofun nofun
  | cons x settings ih =>
    rw [List.map_cons, List.nodup_cons] at once
    rw [value?_cons, List.exists_mem_cons_iff]
    by_cases h : x.flag = f
    · have other : ¬∃ y ∈ settings, y.flag = f ∧ y.value = v := by
        rintro ⟨y, hy, same, -⟩
        exact once.1 (List.mem_map.2 ⟨y, hy, same.trans h.symm⟩)
      rw [if_pos h, Option.some.injEq]
      exact ⟨fun hv => .inl ⟨h, hv⟩, fun given => (given.resolve_right other).2⟩
    · rw [if_neg h, ih once.2]
      exact ⟨.inr, fun given => given.resolve_left fun this => h this.1⟩

theorem value?_without (h : f ≠ g) : value? (without f settings) g = value? settings g := by
  unfold value? without
  rw [List.find?_filter]
  congr 2
  funext x
  by_cases hx : x.flag = g
  · simp [hx, h.symm]
  · simp [hx]

theorem without_cons (f : Flag) (x : Setting) (settings : List Setting) :
    without f (x :: settings) = if x.flag = f then without f settings else x :: without f settings := by
  unfold without
  by_cases h : x.flag = f <;> simp [h]

theorem without_of_notMem (h : f ∉ settings.map Setting.flag) : without f settings = settings :=
  List.filter_eq_self.2 fun x hx => decide_eq_true fun same => h (List.mem_map.2 ⟨x, hx, same⟩)

theorem without_all (settings : List Setting) :
    without .context (without .socket (without .runtime settings)) = [] := by
  refine List.filter_eq_nil_iff.2 fun x hx => ?_
  have other := List.mem_filter.1 hx
  have other' := List.mem_filter.1 other.1
  have hsocket := of_decide_eq_true other.2
  have hruntime := of_decide_eq_true other'.2
  cases hf : x.flag with
  | runtime => exact absurd hf hruntime
  | socket => exact absurd hf hsocket
  | context => simp

/-! ### Taking a flag -/

theorem takeFlag_cons_of_notMem (h : word ∉ names) (line : List String) :
    takeFlag names (word :: line) =
      (takeFlag names line).map fun (value, rest) => (value, word :: rest) := by
  conv_lhs => unfold takeFlag
  exact if_neg (by simpa using h)

theorem takeFlag_cons_of_mem (h : spelling ∈ names) (word : String) (line : List String) :
    takeFlag names (spelling :: word :: line) = .ok (some word, line) := by
  unfold takeFlag
  exact if_pos (by simpa using h)

theorem takeFlag_singleton_of_mem (h : spelling ∈ names) :
    takeFlag names [spelling] = .error (.missingValue (names.headD spelling)) := by
  unfold takeFlag
  exact if_pos (by simpa using h)

theorem takeFlag_of_last (h : spelling ∈ names) (plain : ∀ word ∈ line, word ∉ names) :
    takeFlag names (line ++ [spelling]) = .error (.missingValue (names.headD spelling)) := by
  induction line with
  | nil => exact takeFlag_singleton_of_mem h
  | cons word line ih =>
    obtain ⟨other, plain⟩ := List.forall_mem_cons.1 plain
    rw [List.cons_append, takeFlag_cons_of_notMem other, ih plain]
    rfl

/-- What is taken from a line is taken from a longer line, and what comes after it is left. -/
theorem takeFlag_concat (h : takeFlag names line = .ok (value, rest)) (other : word ∉ names) :
    takeFlag names (line ++ [word]) = .ok (value, rest ++ [word]) := by
  induction line using takeFlag.induct names generalizing rest with
  | case1 =>
    cases h
    rw [List.nil_append, takeFlag_cons_of_notMem other]
    rfl
  | case2 spelling found =>
    rw [takeFlag_singleton_of_mem (by simpa using found)] at h
    cases h
  | case3 spelling found word' line =>
    have mem : spelling ∈ names := by simpa using found
    rw [takeFlag_cons_of_mem mem] at h
    cases h
    exact takeFlag_cons_of_mem mem word' _
  | case4 word' line unfound ih =>
    have notMem : word' ∉ names := by simpa using unfound
    rw [takeFlag_cons_of_notMem notMem] at h
    rw [List.cons_append, takeFlag_cons_of_notMem notMem]
    cases taken : takeFlag names line with
    | error e =>
      rw [taken] at h
      cases h
    | ok found =>
      rw [taken] at h
      cases h
      rw [ih taken]
      rfl

/-- Taking a flag out of a line gives its value and leaves the rest of the line. -/
theorem Mixed.takes (h : Mixed words settings line) (plainWords : ∀ word ∈ words, IsPlain word)
    (plainValues : ∀ x ∈ settings, IsPlain x.value) (once : (settings.map Setting.flag).Nodup)
    (f : Flag) : ∃ rest, takeFlag f.spellings line = .ok (value? settings f, rest) ∧
      Mixed words (without f settings) rest := by
  induction h with
  | nil => exact ⟨[], rfl, .nil⟩
  | word h ih =>
    obtain ⟨plain, plainWords⟩ := List.forall_mem_cons.1 plainWords
    obtain ⟨rest, taken, left⟩ := ih plainWords plainValues once
    rw [takeFlag_cons_of_notMem (plain f), taken]
    exact ⟨_, rfl, .word left⟩
  | setting x h ih =>
    obtain ⟨plain, plainValues⟩ := List.forall_mem_cons.1 plainValues
    rw [List.map_cons, List.nodup_cons] at once
    rw [value?_cons, without_cons]
    by_cases same : x.flag = f
    · have mine : x.spelling ∈ f.spellings := same ▸ x.spelled
      rw [takeFlag_cons_of_mem mine, if_pos same, if_pos same, without_of_notMem (same ▸ once.1)]
      exact ⟨_, rfl, h⟩
    · have other : x.spelling ∉ f.spellings := Flag.disjoint_spellings same x.spelled
      obtain ⟨rest, taken, left⟩ := ih plainWords plainValues once.2
      rw [takeFlag_cons_of_notMem other, takeFlag_cons_of_notMem (plain f), taken, if_neg same,
        if_neg same]
      exact ⟨_, rfl, .setting x left⟩

theorem Mixed.notMem_spellings (h : Mixed words settings line)
    (plainWords : ∀ word ∈ words, IsPlain word) (plainValues : ∀ x ∈ settings, IsPlain x.value)
    (absent : f ∉ settings.map Setting.flag) : ∀ word ∈ line, word ∉ f.spellings := by
  induction h with
  | nil => exact List.forall_mem_nil _
  | word h ih =>
    obtain ⟨plain, plainWords⟩ := List.forall_mem_cons.1 plainWords
    exact List.forall_mem_cons.2 ⟨plain f, ih plainWords plainValues absent⟩
  | setting x h ih =>
    obtain ⟨plain, plainValues⟩ := List.forall_mem_cons.1 plainValues
    obtain ⟨other, absent⟩ := not_or.1 (mt List.mem_cons.2 absent)
    exact List.forall_mem_cons.2 ⟨Flag.disjoint_spellings (Ne.symm other) x.spelled,
      List.forall_mem_cons.2 ⟨plain f, ih plainWords plainValues absent⟩⟩

theorem Mixed.eq_words (h : Mixed words [] line) : line = words := by
  generalize hnone : ([] : List Setting) = settings at h
  induction h with
  | nil => rfl
  | word h ih => rw [ih hnone]
  | setting x h ih => cases hnone

namespace Holds

theorem takes (h : Holds line words settings) (f : Flag) :
    ∃ rest, takeFlag f.spellings line = .ok (value? settings f, rest) ∧
      Holds rest words (without f settings) := by
  obtain ⟨rest, taken, left⟩ := h.mixed.takes h.plainWords h.plainValues h.once f
  refine ⟨rest, taken, left, h.plainWords, fun x hx => ?_, ?_⟩
  · exact h.plainValues x (List.mem_filter.1 hx).1
  · exact h.once.sublist (List.filter_sublist.map Setting.flag)

theorem takes_last (h : Holds line words settings) (absent : value? settings f = none)
    (spelled : spelling ∈ f.spellings) :
    takeFlag f.spellings (line ++ [spelling]) = .error (.missingValue f.long) :=
  takeFlag_of_last spelled
    (h.mixed.notMem_spellings h.plainWords h.plainValues (value?_eq_none_iff.1 absent))

end Holds

/-! ### Reading a line -/

theorem readArguments_eq (line : List String) :
    readArguments line = (do
      let (runtime, rest) ← takeFlag Flag.runtime.spellings line
      let (socket, rest) ← takeFlag Flag.socket.spellings rest
      let (context, rest) ← takeFlag Flag.context.spellings rest
      let task ← readTask context rest
      return (task, ⟨runtime, socket⟩)) :=
  rfl

namespace Holds

theorem readArguments_eq (h : Holds line words settings) :
    readArguments line = (readTask (value? settings .context) words).map fun task =>
      (task, ⟨value? settings .runtime, value? settings .socket⟩) := by
  obtain ⟨line₁, runtime, h₁⟩ := h.takes .runtime
  obtain ⟨line₂, socket, h₂⟩ := h₁.takes .socket
  obtain ⟨line₃, context, h₃⟩ := h₂.takes .context
  rw [value?_without (by decide)] at socket
  rw [value?_without (by decide), value?_without (by decide)] at context
  rw [without_all] at h₃
  obtain rfl := h₃.mixed.eq_words
  simp only [CommandLine.readArguments_eq, runtime, socket, context, bind, Except.bind]
  cases readTask (value? settings .context) line₃ <;> rfl

/-- A flag at the end of a line that does not set it has no value. -/
theorem readArguments_last (h : Holds line words settings) (absent : value? settings f = none)
    (spelled : spelling ∈ f.spellings) :
    readArguments (line ++ [spelling]) = .error (.missingValue f.long) := by
  -- The flags that are taken before it leave it where it is.
  have passes {g : Flag} {line rest : List String} {value : Option String} (other : f ≠ g)
      (taken : takeFlag g.spellings line = .ok (value, rest)) :
      takeFlag g.spellings (line ++ [spelling]) = .ok (value, rest ++ [spelling]) :=
    takeFlag_concat taken (Flag.disjoint_spellings other spelled)
  obtain ⟨line₁, runtime, h₁⟩ := h.takes .runtime
  obtain ⟨line₂, socket, h₂⟩ := h₁.takes .socket
  cases f with
  | runtime =>
    have last := h.takes_last absent spelled
    simp only [CommandLine.readArguments_eq, last, bind, Except.bind]
  | socket =>
    rw [← value?_without (f := .runtime) (by decide)] at absent
    have last := h₁.takes_last absent spelled
    simp only [CommandLine.readArguments_eq, passes (by decide) runtime, last, bind, Except.bind]
  | context =>
    rw [← value?_without (f := .runtime) (by decide), ← value?_without (f := .socket) (by decide)]
      at absent
    have last := h₂.takes_last absent spelled
    simp only [CommandLine.readArguments_eq, passes (by decide) runtime, passes (by decide) socket,
      last, bind, Except.bind]

end Holds

def Task.within (context : Option String) : Task → Task
  | .build dockerfile image platforms _ => .build dockerfile image platforms context
  | task => task

theorem readTask_within (context : Option String) (words : List String) :
    readTask context words = (readTask none words).map (Task.within context) := by
  unfold readTask
  repeat' split
  all_goals rfl

/-- What a line says with these values of its flags. -/
def withValues (values : Flag → Option String) : Task × Overrides → Task × Overrides
  | (task, _) => (task.within (values .context), ⟨values .runtime, values .socket⟩)

theorem Holds.of_plain (plain : ∀ word ∈ words, IsPlain word) : Holds words words [] := by
  refine ⟨?_, plain, List.forall_mem_nil _, List.nodup_nil⟩
  induction words with
  | nil => exact .nil
  | cons word words ih => exact .word (ih (List.forall_mem_cons.1 plain).2)

/-- A line of words and settings says what its words alone say, with the values of the settings, wherever
the settings stand. At its end, a flag that is not set before is refused for its lack of a value. -/
theorem settings_anywhere {values : Flag → Option String} (h : Holds line words settings)
    (given : ∀ f v, values f = some v ↔ ∃ x ∈ settings, x.flag = f ∧ x.value = v) :
    readArguments line = (readTask (values .context) words).map (fun task =>
        (task, ⟨values .runtime, values .socket⟩)) ∧
      readArguments line = (readArguments words).map (withValues values) ∧
      ∀ f spelling, values f = none → spelling ∈ f.spellings →
        (readArguments (line ++ [spelling])).mapError UsageError.message =
          .error (f.long ++ " requires a value") := by
  obtain rfl : values = value? settings :=
    funext fun f => Option.ext fun v => (given f v).trans (value?_eq_some_iff h.once).symm
  have bare : readArguments words = _ := (Holds.of_plain h.plainWords).readArguments_eq
  refine ⟨h.readArguments_eq, ?_, fun f spelling absent spelled => ?_⟩
  · rw [h.readArguments_eq, bare, readTask_within]
    change _ = ((readTask none words).map _).map _
    cases readTask none words <;> rfl
  · rw [h.readArguments_last absent spelled]
    rfl

def buildLine : List String :=
  ["-c", "bundle.tar", "build", "Dockerfile", "--runtime", "podman", "app:1"]

def buildSettings : List Setting :=
  [⟨.context, "-c", "bundle.tar", by decide⟩, ⟨.runtime, "--runtime", "podman", by decide⟩]

theorem holds_buildLine : Holds buildLine ["build", "Dockerfile", "app:1"] buildSettings := by
  refine ⟨?_, by decide, by decide, by decide⟩
  exact .setting _ (.word (.word (.setting _ (.word .nil))))

theorem settings_of_buildLine : Holds buildLine ["build", "Dockerfile", "app:1"] buildSettings ∧
    readArguments buildLine =
      .ok (.build "Dockerfile" "app:1" none (some "bundle.tar"), ⟨some "podman", none⟩) ∧
    (readArguments (buildLine ++ ["-s"])).mapError UsageError.message =
      .error "--socket requires a value" := by
  obtain ⟨read, -, last⟩ := settings_anywhere holds_buildLine fun f v =>
    value?_eq_some_iff holds_buildLine.once
  exact ⟨holds_buildLine, read, last .socket "-s" rfl (by decide)⟩

end CommandLine
end ContainerBuild
