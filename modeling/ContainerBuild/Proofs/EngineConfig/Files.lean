import ContainerBuild.EngineConfig
import Mathlib.Data.List.Basic

/-!
# What configuration files say

A configuration has five fields, and a file may tell each of them by its key. A file that is read tells no
field twice. What it tells of a field is read as that field of the configuration, and a field that it does
not tell has its default, whatever is told of the others.
-/

namespace ContainerBuild
namespace EngineConfig

inductive Field
  | runtime
  | socket
  | registryAuth
  | logLevel
  | requestTimeoutSecs
  deriving DecidableEq, Repr

namespace Field

abbrev Value : Field → Type
  | socket => Option String
  | requestTimeoutSecs => UInt64
  | _ => String

/-- The key of a field in a file. -/
def key : Field → String
  | runtime => "runtime"
  | socket => "socket"
  | registryAuth => "registry_auth"
  | logLevel => "log_level"
  | requestTimeoutSecs => "request_timeout_secs"

/-- What a field is where nothing gives it. -/
def fallback : (f : Field) → f.Value
  | runtime => "docker"
  | socket => none
  | registryAuth => ""
  | logLevel => "info"
  | requestTimeoutSecs => (120 : UInt64)

def ofNode? : (f : Field) → Yaml.Node → Option f.Value
  | runtime => scalarText?
  | socket => optionalText?
  | registryAuth => scalarText?
  | logLevel => scalarText?
  | requestTimeoutSecs => secs?

theorem key_mem_keys (f : Field) : f.key ∈ keys := by
  cases f <;> decide

end Field

def get (c : EngineConfig) : (f : Field) → f.Value
  | .runtime => c.runtime
  | .socket => c.socket
  | .registryAuth => c.registryAuth
  | .logLevel => c.logLevel
  | .requestTimeoutSecs => c.requestTimeoutSecs

theorem ext_get {c d : EngineConfig} (h : ∀ f, c.get f = d.get f) : c = d := by
  cases c
  cases d
  congr 1
  · exact h .runtime
  · exact h .socket
  · exact h .registryAuth
  · exact h .logLevel
  · exact h .requestTimeoutSecs

theorem get_default (f : Field) : default.get f = f.fallback := by
  cases f <;> rfl

/-- A document tells a field by an entry with its key. -/
def Tells (doc : Option Yaml.Node) (f : Field) (node : Yaml.Node) : Prop :=
  ∃ entries k, doc = some (.mapping entries) ∧ (k, node) ∈ entries ∧ scalarText? k = some f.key

/-- The document of what is found as a configuration file; there is none in a blank text. -/
inductive DocumentOf : Option String → Option Yaml.Node → Prop
  | missing : DocumentOf none none
  | blank {text : String} (h : (Text.trim text).isEmpty = true) : DocumentOf (some text) none
  | filled {text : String} {doc : Option Yaml.Node} (h : (Text.trim text).isEmpty = false)
      (read : Yaml.read text = some doc) : DocumentOf (some text) doc

variable {α : Type} {entries : List (Yaml.Node × Yaml.Node)} {pairs : List (String × Yaml.Node)}
  {name text : String} {k node : Yaml.Node} {read : Yaml.Node → Option α} {absent : α}
  {c : EngineConfig} {doc : Option Yaml.Node} {f : Field}

/-! ### Entries with known keys -/

/-- The first entry adds a known key that is not among the others, or an unknown one, which does not count. -/
theorem known_cons (h : known ((k, node) :: entries) = some pairs) :
    ∃ name rest, scalarText? k = some name ∧ known entries = some rest ∧
      ((name ∈ keys ∧ name ∉ rest.map Prod.fst ∧ pairs = (name, node) :: rest) ∨
        (name ∉ keys ∧ pairs = rest)) := by
  simp only [known, Option.bind_eq_bind, Option.bind_eq_some_iff] at h
  obtain ⟨name, hname, rest, hrest, h⟩ := h
  refine ⟨name, rest, hname, hrest, ?_⟩
  split at h
  · rename_i mem
    split at h
    · cases h
    · rename_i fresh
      have notMem : name ∉ rest.map Prod.fst := by simpa using fresh
      exact .inl ⟨by simpa using mem, notMem, (Option.some.inj h).symm⟩
  · rename_i mem
    exact .inr ⟨by simpa using mem, (Option.some.inj h).symm⟩

theorem nodup_of_known (h : known entries = some pairs) : (pairs.map Prod.fst).Nodup := by
  induction entries generalizing pairs with
  | nil =>
    cases h
    exact List.nodup_nil
  | cons entry entries ih =>
    obtain ⟨name, rest, -, hrest, ⟨-, fresh, rfl⟩ | ⟨-, rfl⟩⟩ := known_cons h
    · exact List.nodup_cons.2 ⟨fresh, ih hrest⟩
    · exact ih hrest

theorem mem_known_iff (h : known entries = some pairs) (hname : name ∈ keys) :
    (name, node) ∈ pairs ↔ ∃ k, (k, node) ∈ entries ∧ scalarText? k = some name := by
  induction entries generalizing pairs with
  | nil =>
    cases h
    simp
  | cons entry entries ih =>
    obtain ⟨name', rest, hk, hrest, hpairs⟩ := known_cons h
    have first : (∃ k, (k, node) ∈ entry :: entries ∧ scalarText? k = some name) ↔
        (name = name' ∧ node = entry.2) ∨ (name, node) ∈ rest := by
      rw [ih hrest]
      constructor
      · rintro ⟨k, hmem, hname⟩
        rcases List.mem_cons.1 hmem with rfl | hmem
        · exact .inl ⟨Option.some.inj (hname.symm.trans hk), rfl⟩
        · exact .inr ⟨k, hmem, hname⟩
      · rintro (⟨rfl, rfl⟩ | ⟨k, hmem, hname⟩)
        · exact ⟨entry.1, List.mem_cons_self, hk⟩
        · exact ⟨k, List.mem_cons_of_mem entry hmem, hname⟩
    rw [first]
    rcases hpairs with ⟨-, -, rfl⟩ | ⟨unknown, rfl⟩
    · rw [List.mem_cons, Prod.mk.injEq]
    · have other : name ≠ name' := fun same => unknown (same ▸ hname)
      exact ⟨.inr, fun h => h.resolve_left fun same => other same.1⟩

/-! ### Values of keys -/

theorem valueOr_cons (entry : String × Yaml.Node) (pairs : List (String × Yaml.Node)) :
    valueOr (entry :: pairs) name read absent =
      if entry.1 = name then read entry.2 else valueOr pairs name read absent := by
  unfold valueOr
  rw [List.find?_cons]
  by_cases h : entry.1 = name
  · rw [if_pos h, beq_iff_eq.2 h]
  · rw [if_neg h, beq_eq_false_iff_ne.2 h]

theorem valueOr_of_mem (once : (pairs.map Prod.fst).Nodup) (h : (name, node) ∈ pairs) :
    valueOr pairs name read absent = read node := by
  induction pairs with
  | nil => cases h
  | cons entry pairs ih =>
    rw [List.map_cons, List.nodup_cons] at once
    rw [valueOr_cons]
    rcases List.mem_cons.1 h with rfl | h
    · exact if_pos rfl
    · have other : entry.1 ≠ name := fun same => once.1 (List.mem_map.2 ⟨_, h, same.symm⟩)
      rw [if_neg other, ih once.2 h]

theorem valueOr_of_notMem (h : ∀ node, (name, node) ∉ pairs) :
    valueOr pairs name read absent = some absent := by
  induction pairs with
  | nil => rfl
  | cons entry pairs ih =>
    have other : entry.1 ≠ name := fun same => h entry.2 (same ▸ List.mem_cons_self)
    rw [valueOr_cons, if_neg other]
    exact ih fun node hmem => h node (List.mem_cons_of_mem entry hmem)

/-- Each field is read on its own. -/
theorem valueOr_key (h : ofEntries? pairs = some c) (f : Field) :
    valueOr pairs f.key f.ofNode? f.fallback = some (c.get f) := by
  simp only [ofEntries?, Option.bind_eq_bind, Option.bind_eq_some_iff] at h
  obtain ⟨runtime, hruntime, socket, hsocket, auth, hauth, level, hlevel, secs, hsecs, h⟩ := h
  cases h
  cases f with
  | runtime => exact hruntime
  | socket => exact hsocket
  | registryAuth => exact hauth
  | logLevel => exact hlevel
  | requestTimeoutSecs => exact hsecs

/-! ### Documents -/

/-- A document that is read is a mapping, or it is empty. -/
theorem ofDocument?_cases (h : ofDocument? doc = some c) :
    (∃ entries pairs, doc = some (.mapping entries) ∧ known entries = some pairs ∧
        ofEntries? pairs = some c) ∨
      (c = default ∧ ∀ entries, doc ≠ some (.mapping entries)) := by
  unfold ofDocument? at h
  split at h
  · exact .inr ⟨(Option.some.inj h).symm, nofun⟩
  · rename_i entries
    obtain ⟨pairs, hpairs, hc⟩ := Option.bind_eq_some_iff.1 h
    exact .inl ⟨entries, pairs, rfl, hpairs, hc⟩
  · exact .inr ⟨(Option.some.inj h).symm, nofun⟩
  · cases h

theorem tells_iff (h : known entries = some pairs) :
    Tells (some (.mapping entries)) f node ↔ (f.key, node) ∈ pairs := by
  rw [mem_known_iff h f.key_mem_keys]
  constructor
  · rintro ⟨_, k, ⟨⟩, told⟩
    exact ⟨k, told⟩
  · rintro ⟨k, told⟩
    exact ⟨entries, k, rfl, told⟩

theorem Tells.ofNode?_eq (told : Tells doc f node) (h : ofDocument? doc = some c) :
    f.ofNode? node = some (c.get f) := by
  rcases ofDocument?_cases h with ⟨entries, pairs, rfl, hpairs, hc⟩ | ⟨-, other⟩
  · have value := valueOr_key hc f
    rwa [valueOr_of_mem (nodup_of_known hpairs) ((tells_iff hpairs).1 told)] at value
  · obtain ⟨entries, k, hdoc, -⟩ := told
    exact absurd hdoc (other entries)

/-- A field that a document does not tell has its default. -/
theorem get_of_untold (untold : ∀ node, ¬Tells doc f node) (h : ofDocument? doc = some c) :
    c.get f = f.fallback := by
  rcases ofDocument?_cases h with ⟨entries, pairs, rfl, hpairs, hc⟩ | ⟨rfl, -⟩
  · have value := valueOr_key hc f
    rw [valueOr_of_notMem fun node hmem => untold node ((tells_iff hpairs).2 hmem)] at value
    exact (Option.some.inj value).symm
  · exact get_default f

/-- A text is read if it is blank or has a document that is read. -/
theorem ofYaml_eq_ok_iff :
    ofYaml text = .ok c ↔ ∃ doc, DocumentOf (some text) doc ∧ ofDocument? doc = some c := by
  unfold ofYaml
  split
  · rename_i blank
    constructor
    · intro h
      cases h
      exact ⟨none, .blank blank, rfl⟩
    · rintro ⟨doc, hdoc, h⟩
      cases hdoc with
      | blank _ => exact congrArg Except.ok (Option.some.inj h)
      | filled full _ => exact absurd (blank.symm.trans full) nofun
  · rename_i full
    constructor
    · intro h
      split at h
      · rename_i c' hc
        cases h
        obtain ⟨doc, hread, hdoc⟩ := Option.bind_eq_some_iff.1 hc
        exact ⟨doc, .filled (Bool.eq_false_iff.2 full) hread, hdoc⟩
      · cases h
    · rintro ⟨doc, hdoc, h⟩
      cases hdoc with
      | blank blank => exact absurd blank full
      | filled _ hread => rw [hread, Option.bind_some, h]

end EngineConfig
end ContainerBuild
