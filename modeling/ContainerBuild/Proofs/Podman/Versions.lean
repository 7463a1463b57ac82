import ContainerBuild.Podman.Version
import ContainerBuild.Proofs.Json.ReadingBack
import ContainerBuild.Proofs.Podman.Documents
import ContainerBuild.Proofs.Text.Numbers
import ContainerBuild.Proofs.Text.Splitting

/-!
# Major versions

The major version is the number at the beginning of a text, up to the first full stop, where letters v
before it do not count. The daemon's text and the tool's are taken apart in different orders, which makes
no difference: a full stop is no letter v.
-/

namespace ContainerBuild
namespace Podman

open Json (Padded Spells)

/-- A text that begins with a major version: letters v, a plus sign or none, the digits of a number of 64
bits, and nothing more or a full stop with anything after it. -/
inductive SpellsMajor : List Char → Nat → Prop
  | intro {letters sign digits rest : List Char} (hl : ∀ c ∈ letters, c = 'v')
      (hs : sign = [] ∨ sign = ['+']) (some : digits ≠ []) (hd : ∀ c ∈ digits, Text.IsDigit 10 c)
      (hr : rest = [] ∨ ∃ more, rest = '.' :: more)
      (small : Nat.ofDigitChars 10 digits 0 ≤ Text.maxUnsigned64) :
      SpellsMajor (letters ++ (sign ++ digits ++ rest)) (Nat.ofDigitChars 10 digits 0)

variable {cs letters front rest : List Char} {version : String} {n : Nat}

theorem exists_letters (cs : List Char) :
    ∃ letters, cs = letters ++ afterLetters cs ∧ ∀ c ∈ letters, c = 'v' := by
  refine ⟨cs.takeWhile (· == 'v'), List.takeWhile_append_dropWhile.symm, fun c hc => ?_⟩
  have hv := List.mem_takeWhile_imp hc
  exact beq_iff_eq.1 hv

theorem exists_rest (cs : List Char) :
    ∃ rest, cs = beforeStop cs ++ rest ∧ (rest = [] ∨ ∃ more, rest = '.' :: more) := by
  by_cases stop : '.' ∈ cs
  · exact ⟨_, (Text.takeWhile_append_tail stop).symm, .inr ⟨_, rfl⟩⟩
  · refine ⟨[], ?_, .inl rfl⟩
    rw [List.append_nil]
    exact (Text.takeWhile_of_notMem stop).symm

theorem afterLetters_append (hl : ∀ c ∈ letters, c = 'v') (hc : ∀ c ∈ cs.head?, c ≠ 'v') :
    afterLetters (letters ++ cs) = cs := by
  have hletters : ∀ c ∈ letters, (c == 'v') = true := fun c h => beq_iff_eq.2 (hl c h)
  rw [afterLetters, List.dropWhile_append_of_pos hletters]
  cases cs with
  | nil => rfl
  | cons c cs => rw [List.dropWhile_cons, if_neg (by simpa using hc)]

theorem beforeStop_append (hf : '.' ∉ front) (hr : rest = [] ∨ ∃ more, rest = '.' :: more) :
    beforeStop (front ++ rest) = front := by
  rw [beforeStop, List.takeWhile_append_of_pos (Text.bne_of_notMem hf)]
  obtain rfl | ⟨more, rfl⟩ := hr
  · exact List.append_nil front
  · exact List.append_nil front

/-- Letters can be left out before the text is cut at its first full stop, or after it. -/
theorem afterLetters_beforeStop (cs : List Char) :
    afterLetters (beforeStop cs) = beforeStop (afterLetters cs) := by
  unfold afterLetters beforeStop
  induction cs with
  | nil => rfl
  | cons c cs ih =>
    by_cases letter : c = 'v'
    · subst letter
      simpa using ih
    · by_cases stop : c = '.'
      · subst stop
        rfl
      · simp [letter, stop]

theorem ne_of_isDigit {c : Char} (h : Text.IsDigit 10 c) : c ≠ 'v' ∧ c ≠ '.' := by
  constructor
  · rintro rfl
    exact absurd h.2.2 (by decide)
  · rintro rfl
    exact absurd h.1 (by decide)

theorem serverMajor?_eq_some_iff : serverMajor? version = some n ↔ SpellsMajor version.toList n := by
  unfold serverMajor? majorNumber?
  generalize version.toList = cs
  rw [Text.unsigned?_eq_some_iff]
  constructor
  · rintro ⟨digits, hsign, some, hd, rfl, small⟩
    obtain ⟨letters, hletters, hl⟩ := exists_letters cs
    obtain ⟨rest, hrest, hr⟩ := exists_rest (afterLetters cs)
    rw [hletters, hrest]
    rcases hsign with hsign | hsign
    · rw [hsign]
      exact @SpellsMajor.intro letters [] digits rest hl (.inl rfl) some hd hr small
    · rw [hsign]
      exact @SpellsMajor.intro letters ['+'] digits rest hl (.inr rfl) some hd hr small
  · rintro ⟨hl, hs, some, hd, hr, small⟩
    rename_i letters sign digits rest
    obtain ⟨d, ds, rfl⟩ := List.exists_cons_of_ne_nil some
    have hletter : ∀ c ∈ (sign ++ (d :: ds) ++ rest).head?, c ≠ 'v' := by
      rcases hs with rfl | rfl
      · simpa using (ne_of_isDigit (hd d List.mem_cons_self)).1
      · simp
    have hstop : '.' ∉ sign ++ d :: ds := by
      intro h
      rcases List.mem_append.1 h with h | h
      · rcases hs with rfl | rfl <;> simp at h
      · exact (ne_of_isDigit (hd _ h)).2 rfl
    rw [afterLetters_append hl hletter, beforeStop_append hstop hr]
    refine ⟨d :: ds, ?_, some, hd, rfl, small⟩
    rcases hs with rfl | rfl
    · exact .inl rfl
    · exact .inr rfl

theorem clientMajor?_eq_serverMajor? (version : String) :
    clientMajor? version = serverMajor? version := by
  rw [clientMajor?, afterLetters_beforeStop, serverMajor?]

theorem clientMajor?_eq_some_iff : clientMajor? version = some n ↔ SpellsMajor version.toList n := by
  rw [clientMajor?_eq_serverMajor?, serverMajor?_eq_some_iff]

/-- A document tells a major version, in the text that stands along some fields. -/
def TellsMajor (names : List String) (b : Bytes) (n : Nat) : Prop :=
  ∃ r version, Padded Spells b r ∧ StandsAt names r (.text version) ∧ SpellsMajor version.toList n

theorem tellsMajor_iff {names : List String} {b : Bytes} {d : Json.Decoder String}
    {major? : String → Option Nat}
    (hd : ∀ r s, d r = .ok s ↔ StandsAt names r (.text s))
    (hm : ∀ version, major? version = some n ↔ SpellsMajor version.toList n) :
    TellsMajor names b n ↔ ∃ version, Json.read d b = .ok version ∧ major? version = some n := by
  simp only [Json.read_eq_ok_iff, hd, hm]
  constructor
  · rintro ⟨r, version, hr, hversion, major⟩
    exact ⟨version, ⟨r, hr, hversion⟩, major⟩
  · rintro ⟨version, ⟨r, hr, hversion⟩, major⟩
    exact ⟨r, version, hr, hversion, major⟩

theorem versionField_eq_ok_iff (r : Json.Reading) (s : String) :
    versionField.decode r = .ok s ↔ StandsAt ["Version"] r (.text s) :=
  decode_required_standsAt_iff fun _ => text_eq_ok_iff

theorem readServerMajor_eq_ok_iff {b : Bytes} :
    readServerMajor b = .ok n ↔ TellsMajor ["Version"] b n := by
  rw [tellsMajor_iff versionField_eq_ok_iff fun _ => serverMajor?_eq_some_iff]
  unfold readServerMajor
  cases Json.read versionField.decode b with
  | error fault => simp
  | ok version =>
    simp only [Except.ok.injEq, exists_eq_left']
    cases serverMajor? version <;> simp

theorem readClientMajor_eq_ok_iff {b : Bytes} :
    readClientMajor b = .ok n ↔ TellsMajor ["Client", "Version"] b n := by
  rw [tellsMajor_iff (fun r s => decode_required_standsAt_iff fun r => versionField_eq_ok_iff r s)
    fun _ => clientMajor?_eq_some_iff]
  unfold readClientMajor
  cases Json.read (Json.Fields.required "Client" versionField.decode).decode b with
  | error fault => simp
  | ok version =>
    simp only [Except.ok.injEq, exists_eq_left']
    cases clientMajor? version <;> simp

/-- A plus sign may stand after the letters. -/
example : serverMajor? "vv+04.9-rc1" = some 4 ∧ clientMajor? "vv+04.9-rc1" = some 4 := by
  decide

/-! ### Two readers of one version -/

variable {names : List String} {b body output : Bytes}

/-- A document has a version, whatever that is, in the text that stands along some fields. -/
def HasVersion (names : List String) (b : Bytes) (version : String) : Prop :=
  ∃ r, Padded Spells b r ∧ StandsAt names r (.text version)

def versionAt (version : String) : List String → Json
  | [] => .text version
  | name :: names => .object [(name, versionAt version names)]

theorem standsAt_versionAt (version : String) (names : List String) :
    StandsAt names (.ofJson (versionAt version names)) (.text version) := by
  induction names with
  | nil => simp [StandsAt, versionAt, Json.Reading.ofJson]
  | cons name names ih =>
    refine ⟨.ofJson (versionAt version names), ?_, ih⟩
    apply Field.object
    · simp [Json.Reading.ofMembers]
    · simp [Json.Reading.ofMembers, valuesOf]

theorem hasVersion_render (version : String) (names : List String) :
    HasVersion names (versionAt version names).render version :=
  ⟨_, .of (Json.spells_render _), standsAt_versionAt version names⟩

theorem HasVersion.read_eq_ok {d : Json.Decoder String} (h : HasVersion names b version)
    (hd : ∀ r s, d r = .ok s ↔ StandsAt names r (.text s)) : Json.read d b = .ok version := by
  obtain ⟨r, spelled, stands⟩ := h
  exact Json.read_eq_ok_iff.2 ⟨r, spelled, (hd r version).2 stands⟩

theorem readServerMajor_of_hasVersion (h : HasVersion ["Version"] body version) :
    readServerMajor body = (serverMajor? version).elim
      (.error (backendError ("unparseable server version '" ++ version ++ "'"))) .ok := by
  have read := h.read_eq_ok versionField_eq_ok_iff
  cases major : serverMajor? version <;> simp [readServerMajor, read, major]

theorem readClientMajor_of_hasVersion (h : HasVersion ["Client", "Version"] output version) :
    readClientMajor output = (serverMajor? version).elim
      (.error (discoveryError ("unparseable version '" ++ version ++ "'"))) .ok := by
  have read := h.read_eq_ok fun r s =>
    decode_required_standsAt_iff fun r => versionField_eq_ok_iff r s
  rw [← clientMajor?_eq_serverMajor?]
  cases major : clientMajor? version <;> simp [readClientMajor, read, major]

theorem SpellsMajor.le_maxUnsigned64 (h : SpellsMajor cs n) : n ≤ Text.maxUnsigned64 := by
  obtain ⟨-, -, -, -, -, small⟩ := h
  exact small

/-- Of one version the daemon's reader and the tool's give one number, which is the major version that it
begins with; and if it begins with none, then neither gives a number. -/
theorem majors_agree (daemon : HasVersion ["Version"] body version)
    (tool : HasVersion ["Client", "Version"] output version) :
    (∀ n, readServerMajor body = .ok n ↔ SpellsMajor version.toList n) ∧
      (∀ n, readClientMajor output = .ok n ↔ SpellsMajor version.toList n) ∧
      ((∃ n ≤ Text.maxUnsigned64, readServerMajor body = .ok n ∧ readClientMajor output = .ok n) ∨
        readServerMajor body =
            .error (backendError ("unparseable server version '" ++ version ++ "'")) ∧
          readClientMajor output =
            .error (discoveryError ("unparseable version '" ++ version ++ "'"))) := by
  rw [readServerMajor_of_hasVersion daemon, readClientMajor_of_hasVersion tool]
  simp only [← serverMajor?_eq_some_iff]
  cases major : serverMajor? version with
  | some n =>
    have small := (serverMajor?_eq_some_iff.1 major).le_maxUnsigned64
    simpa using small
  | none => simp

theorem majors_agree_of_sample : ∃ body output,
    HasVersion ["Version"] body "vv+04.9-rc1" ∧
      HasVersion ["Client", "Version"] output "vv+04.9-rc1" ∧
      readServerMajor body = .ok 4 ∧ readClientMajor output = .ok 4 := by
  have daemon := hasVersion_render "vv+04.9-rc1" ["Version"]
  have tool := hasVersion_render "vv+04.9-rc1" ["Client", "Version"]
  have four : SpellsMajor "vv+04.9-rc1".toList 4 := serverMajor?_eq_some_iff.1 (by decide)
  obtain ⟨server, client, -⟩ := majors_agree daemon tool
  exact ⟨_, _, daemon, tool, (server 4).2 four, (client 4).2 four⟩

end Podman
end ContainerBuild
