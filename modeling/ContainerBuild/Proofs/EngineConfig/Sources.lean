import ContainerBuild.CommandLine
import ContainerBuild.Proofs.EngineConfig.Files
import ContainerBuild.Proofs.Sessions.Questions
import ContainerBuild.Proofs.Text.Numbers
import ContainerBuild.Surroundings.Script

/-!
# Where settings come from

A field of the configuration is given by a flag, by a variable of the environment or by the configuration
file, or it has its default. The first of these that gives it wins, for each field on its own. A flag gives
its field whatever its value is. A variable does if it is not empty and, for the timeout, is a number. So
the configuration of a run is known from its flags, five variables and the file.
-/

namespace ContainerBuild
namespace EngineConfig

/-- A text stands for a number of 64 bits: decimal digits with at most one plus sign before them. -/
def StandsFor (text : String) (n : UInt64) : Prop :=
  ∃ digits, (text.toList = digits ∨ text.toList = '+' :: digits) ∧ digits ≠ [] ∧
    (∀ c ∈ digits, c.isDigit = true) ∧ n.toNat = Nat.ofDigitChars 10 digits 0

namespace Field

/-- The variable that gives a field. -/
def variableName : Field → String
  | runtime => "BUILDRIG_RUNTIME"
  | socket => "BUILDRIG_SOCKET"
  | registryAuth => "BUILDRIG_REGISTRY_AUTH"
  | logLevel => "BUILDRIG_LOG"
  | requestTimeoutSecs => "BUILDRIG_REQUEST_TIMEOUT_SECS"

/-- What the text of a variable means for a field. -/
def Means : (f : Field) → String → f.Value → Prop
  | runtime, text, v => v = text
  | socket, text, v => v = some text
  | registryAuth, text, v => v = text
  | logLevel, text, v => v = text
  | requestTimeoutSecs, text, v => StandsFor text v

/-- A variable gives a field if it is set to a text that is not empty and means something for it. -/
def GivenBy (f : Field) (setting : Option String) (v : f.Value) : Prop :=
  ∃ text, setting = some text ∧ text ≠ "" ∧ f.Means text v

/-- The value of a field by its flag, else by its variable, else by the file, else by default. -/
inductive Chosen (f : Field) (flag : Option f.Value) (setting : Option String)
    (doc : Option Yaml.Node) : f.Value → Prop
  | byFlag {v : f.Value} (given : flag = some v) : Chosen f flag setting doc v
  | byVariable {v : f.Value} (noFlag : flag = none) (given : f.GivenBy setting v) :
      Chosen f flag setting doc v
  | byFile {node : Yaml.Node} {v : f.Value} (noFlag : flag = none)
      (noVariable : ∀ w, ¬f.GivenBy setting w) (told : Tells doc f node)
      (read : f.ofNode? node = some v) : Chosen f flag setting doc v
  | byDefault (noFlag : flag = none) (noVariable : ∀ w, ¬f.GivenBy setting w)
      (untold : ∀ node, ¬Tells doc f node) : Chosen f flag setting doc f.fallback

def ofText? : (f : Field) → String → Option f.Value
  | runtime => some
  | socket => fun text => some (some text)
  | registryAuth => some
  | logLevel => some
  | requestTimeoutSecs => parseSecs?

/-- A field as it is read from its variable. -/
def ofVariable? (f : Field) (setting : Option String) : Option f.Value :=
  (setting.filter fun text => !text.isEmpty).bind f.ofText?

end Field

variable {text : String} {setting : Option String} {c : EngineConfig} {f : Field}
  {lookup : String → Option String}

/-! ### Variables -/

theorem parseSecs?_eq_some_iff {n : UInt64} : parseSecs? text = some n ↔ StandsFor text n := by
  simp only [parseSecs?, Option.map_eq_some_iff, Text.unsigned?_eq_some_iff, Text.isDigit_ten_iff]
  constructor
  · rintro ⟨m, ⟨digits, spelled, any, all, rfl, small⟩, rfl⟩
    refine ⟨digits, spelled, any, all, UInt64.toNat_ofNat_of_lt ?_⟩
    exact Nat.lt_of_le_pred (by decide) small
  · rintro ⟨digits, spelled, any, all, value⟩
    have small : n.toNat ≤ Text.maxUnsigned64 := Nat.le_pred_of_lt n.toNat_lt
    exact ⟨n.toNat, ⟨digits, spelled, any, all, value, small⟩, UInt64.ofNat_toNat⟩

theorem Field.ofText?_eq_some_iff {v : f.Value} : f.ofText? text = some v ↔ f.Means text v := by
  cases f with
  | runtime | socket | registryAuth | logLevel =>
    exact Option.some_inj.trans eq_comm
  | requestTimeoutSecs => exact parseSecs?_eq_some_iff

theorem Field.ofVariable?_eq_some_iff {v : f.Value} :
    f.ofVariable? setting = some v ↔ f.GivenBy setting v := by
  simp only [Field.ofVariable?, Field.GivenBy, Option.bind_eq_some_iff, Option.filter_eq_some_iff,
    Field.ofText?_eq_some_iff, Bool.not_eq_true', String.isEmpty_eq_false_iff, and_assoc]

theorem Field.ofVariable?_eq_none_iff :
    f.ofVariable? setting = none ↔ ∀ v, ¬f.GivenBy setting v := by
  simp only [← Field.ofVariable?_eq_some_iff, Option.eq_none_iff_forall_ne_some, ne_eq]

theorem Field.ofVariable?_lookup (name : String) (h : f.variableName = variableStem ++ name) :
    f.ofVariable? (lookup f.variableName) = (override? lookup name).bind f.ofText? := by
  unfold Field.ofVariable? override?
  rw [h]

/-- The environment gives each field by its own variable. -/
theorem get_applyEnv (c : EngineConfig) (lookup : String → Option String) (f : Field) :
    (c.applyEnv lookup).get f = (f.ofVariable? (lookup f.variableName)).getD (c.get f) := by
  cases f with
  | runtime =>
    rw [Field.ofVariable?_lookup "RUNTIME" rfl, Field.ofText?, Option.bind_fun_some]
    rfl
  | socket =>
    rw [Field.ofVariable?_lookup "SOCKET" rfl]
    cases h : override? lookup "SOCKET" <;> simp [applyEnv, get, h, Field.ofText?]
  | registryAuth =>
    rw [Field.ofVariable?_lookup "REGISTRY_AUTH" rfl, Field.ofText?, Option.bind_fun_some]
    rfl
  | logLevel =>
    rw [Field.ofVariable?_lookup "LOG" rfl, Field.ofText?, Option.bind_fun_some]
    rfl
  | requestTimeoutSecs =>
    rw [Field.ofVariable?_lookup "REQUEST_TIMEOUT_SECS" rfl]
    rfl

/-- A variable has no effect on the field of another. -/
theorem get_applyEnv_congr {lookup' : String → Option String}
    (same : lookup' f.variableName = lookup f.variableName) :
    (c.applyEnv lookup').get f = (c.applyEnv lookup).get f := by
  rw [get_applyEnv, get_applyEnv, same]

/-- What the environment gave, it gives again. -/
theorem applyEnv_applyEnv (c : EngineConfig) (lookup : String → Option String) :
    (c.applyEnv lookup).applyEnv lookup = c.applyEnv lookup := by
  apply ext_get
  intro f
  rw [get_applyEnv, get_applyEnv]
  cases f.ofVariable? (lookup f.variableName) with
  | none => rfl
  | some v => rfl

end EngineConfig

namespace CommandLine

open Dialogue (Runs result)
open EngineConfig (DocumentOf Field)

/-- The value that a line gives to a field by its flag; only two fields have one. -/
def Overrides.flag (o : Overrides) : (f : Field) → Option f.Value
  | .runtime => o.runtime
  | .socket => o.socket.map some
  | .registryAuth => none
  | .logLevel => none
  | .requestTimeoutSecs => none

theorem Overrides.get_apply (o : Overrides) (c : EngineConfig) (f : Field) :
    (o.apply c).get f = (o.flag f).getD (c.get f) := by
  cases f with
  | runtime => rfl
  | socket => cases h : o.socket <;> simp [apply, EngineConfig.get, flag, h]
  | registryAuth => rfl
  | logLevel => rfl
  | requestTimeoutSecs => rfl

variable {lookup : String → Option String} {o : Overrides} {base : EngineConfig}
  {doc : Option Yaml.Node} {f : Field}

theorem eq_of_chosen (parsed : EngineConfig.ofDocument? doc = some base) {v : f.Value}
    (chosen : f.Chosen (o.flag f) (lookup f.variableName) doc v) :
    v = (o.apply (base.applyEnv lookup)).get f := by
  rw [o.get_apply, EngineConfig.get_applyEnv]
  cases chosen with
  | byFlag given => rw [given, Option.getD_some]
  | byVariable noFlag given =>
    rw [noFlag, Field.ofVariable?_eq_some_iff.2 given, Option.getD_none, Option.getD_some]
  | byFile noFlag noVariable told read =>
    rw [noFlag, Field.ofVariable?_eq_none_iff.2 noVariable, Option.getD_none, Option.getD_none]
    rw [told.ofNode?_eq parsed] at read
    exact (Option.some.inj read).symm
  | byDefault noFlag noVariable untold =>
    rw [noFlag, Field.ofVariable?_eq_none_iff.2 noVariable, Option.getD_none, Option.getD_none]
    exact (EngineConfig.get_of_untold untold parsed).symm

/-- What a run works with is chosen. -/
theorem chosen_get (parsed : EngineConfig.ofDocument? doc = some base) (o : Overrides)
    (lookup : String → Option String) (f : Field) :
    f.Chosen (o.flag f) (lookup f.variableName) doc ((o.apply (base.applyEnv lookup)).get f) := by
  rw [o.get_apply, EngineConfig.get_applyEnv]
  cases hflag : o.flag f with
  | some v => exact .byFlag rfl
  | none =>
    cases hvariable : f.ofVariable? (lookup f.variableName) with
    | some v => exact .byVariable rfl (Field.ofVariable?_eq_some_iff.1 hvariable)
    | none =>
      have noVariable := Field.ofVariable?_eq_none_iff.1 hvariable
      by_cases told : ∃ node, EngineConfig.Tells doc f node
      · obtain ⟨node, told⟩ := told
        exact .byFile rfl noVariable told (told.ofNode?_eq parsed)
      · have untold := not_exists.1 told
        rw [Option.getD_none, Option.getD_none, EngineConfig.get_of_untold untold parsed]
        exact .byDefault rfl noVariable untold

/-! ### Runs -/

variable {σ : Type} {answer : (q : Inquiry) → σ → q.Answer × σ} {s s' : σ} {account : Option String}

/-- What a run finds at the path of the configuration file: a text, or no file. -/
inductive Finds (answer : (q : Inquiry) → σ → q.Answer × σ) (s : σ) :
    Option String → Option String → σ → Prop
  | nowhere : Finds answer s none none s
  | missing {path : String} {s' : σ} (exist : answer (.pathExists path) s = (false, s')) :
      Finds answer s (some path) none s'
  | file {path text : String} {content : Bytes} {s' s'' : σ}
      (exist : answer (.pathExists path) s = (true, s'))
      (has : answer (.fileContent path) s' = (.ok content, s''))
      (decoded : Utf8.decode? content = some text) : Finds answer s (some path) (some text) s''

theorem exists_run_readConfig {path text : Option String} (found : Finds answer s path text s')
    (document : DocumentOf text doc) (parsed : EngineConfig.ofDocument? doc = some base) :
    ∃ qs, Runs answer (readConfig path) s qs (.ok base) s' := by
  cases found with
  | nowhere =>
    cases document
    cases parsed
    exact ⟨[], .pure _⟩
  | @missing path _ exist =>
    cases document
    cases parsed
    have asked : Runs answer (Session.pathExists path) s [.pathExists path] (.ok false) s' :=
      .question exist
    exact ⟨_, asked.bind (.pure _)⟩
  | @file path text bytes t _ exist has decoded =>
    have config : EngineConfig.ofFile path (.ok bytes) = .ok base := by
      unfold EngineConfig.ofFile
      simp only [decoded, EngineConfig.ofYaml_eq_ok_iff.2 ⟨doc, document, parsed⟩]
    have read : Runs answer (Session.ofOutcome (EngineConfig.ofFile path (.ok bytes))) s' []
        (.ok base) s' := by
      rw [config]
      exact .pure base
    have asked : Runs answer (Session.pathExists path) s [.pathExists path] (.ok true) t :=
      .question exist
    have content : Runs answer (Session.fileContent path) t [.fileContent path] (.ok (.ok bytes)) s' :=
      .question has
    exact ⟨_, asked.bind (content.bind read)⟩

/-- A run loads what the file says with the changes of the environment. -/
theorem result_loadConfig {text : Option String}
    (found : Finds answer s (configPath lookup account) text s')
    (document : DocumentOf text doc) (parsed : EngineConfig.ofDocument? doc = some base) :
    result answer (loadConfig lookup account) s = (.ok (base.applyEnv lookup), s') := by
  obtain ⟨qs, reads⟩ := exists_run_readConfig found document parsed
  exact (reads.bind_pure fun config => config.applyEnv lookup).gives

theorem run_of_loaded {arguments : List String} {task : Task} {loaded : EngineConfig}
    (line : readArguments arguments = .ok (task, o))
    (loads : result answer (loadConfig lookup account) s = (.ok loaded, s')) :
    (run arguments lookup account).run answer s =
      Prod.map finish id (result answer (perform lookup (o.apply loaded) task) s') := by
  have loads : (loadConfig lookup account).run.run answer s = (.ok loaded, s') := loads
  unfold run
  rw [line]
  change (runTask lookup account task o).run answer s = _
  unfold runTask
  rw [Dialogue.run_bind, loads, Dialogue.run_bind]
  rfl

def withFile (content : Bytes) : (q : Inquiry) → Unit → q.Answer × Unit
  | .exchange .., s => (.silent, s)
  | .pathExists _, s => (true, s)
  | .command .., s => (.timedOut, s)
  | .freshId, s => ("", s)
  | .fileContent _, s => (.ok content, s)
  | .probe q, s => (Script.probed q, s)

def sampleText : String := "runtime: podman\nlog_level: warn\n"

/-- An environment that gives two fields; one variable is empty and one is not a number. -/
def sampleLookup : String → Option String
  | "BUILDRIG_CONFIG" => some "config.yaml"
  | "BUILDRIG_RUNTIME" => some "docker"
  | "BUILDRIG_SOCKET" => some "/tmp/d.sock"
  | "BUILDRIG_LOG" => some ""
  | "BUILDRIG_REQUEST_TIMEOUT_SECS" => some "soon"
  | _ => none

def sampleConfig : EngineConfig :=
  { runtime := "docker"
    socket := some "/run/d.sock"
    registryAuth := ""
    logLevel := "warn"
    requestTimeoutSecs := 120 }

end CommandLine
end ContainerBuild
