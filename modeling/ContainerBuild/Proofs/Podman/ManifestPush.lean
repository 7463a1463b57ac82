import ContainerBuild.Proofs.Podman.Endpoints
import ContainerBuild.Proofs.Podman.ProgressStream
import ContainerBuild.Proofs.Sessions.Calls
import ContainerBuild.Proofs.Sessions.Questions
import ContainerBuild.Surroundings.Script

/-!
# Pushes of manifest lists

The reply to the push of a list is read as a stream of progress. A stream with texts gives the log, and
one that says nothing, such as a record with an identifier only, is the log itself. A digest that stands
alone is no stream, so a push that is answered with one counts as a failure, whatever its status.
-/

namespace ContainerBuild

namespace Json

variable {v b : Bytes} {r : Reading} {items : List Reading} {members : List (Option String × Reading)}
  {open? : Option Break}

theorem SpellsNumber.reading (h : SpellsNumber b r) : (∃ n, r = .integer n) ∨ r = .fraction := by
  have unsigned {negative : Bool} {b : Bytes} (h : SpellsUnsigned negative b r) :
      (∃ n, r = .integer n) ∨ r = .fraction := by
    obtain ⟨-, -, -⟩ := h
    unfold numberReading
    split
    · exact .inr rfl
    · exact .inl ⟨_, rfl⟩
  cases h with
  | negative h | plain h => exact unsigned h

theorem Spells.brace_first (h : Spells v (.object members open?)) : ∃ w, v = 0x7B :: w := by
  cases h with
  | emptyObject | object => exact ⟨_, rfl⟩
  | word h => simp [words] at h
  | number h => simpa using h.reading

theorem Spells.bracket_first (h : Spells v (.array items open?)) : ∃ w, v = 0x5B :: w := by
  cases h with
  | emptyArray | array => exact ⟨_, rfl⟩
  | word h => simp [words] at h
  | number h => simpa using h.reading

end Json

namespace Podman

open Client (pushLog)
open Dialogue (Runs asked result)
open Json (Blank Spells)

/-- The texts for the log. -/
def logTexts (records : List ProgressRecord) : List String :=
  records.filterMap ProgressRecord.text?

/-- A body is records to its end, none of them with an error. -/
def Streams (body : Bytes) (records : List ProgressRecord) : Prop :=
  (∃ tail, Begins body records tail ∧ Blank tail) ∧ ∀ r ∈ records, r.error? = none

/-- A body is records to its end, or begins with records of which one has an error. -/
def Conclusive (body : Bytes) : Prop :=
  ∃ records tail, Begins body records tail ∧ (Blank tail ∨ ∃ r ∈ records, r.error? ≠ none)

/-- A push that fails because the reply is no stream. -/
def Unreadable (pushed : Outcome String) : Prop :=
  ∃ reason, pushed = .error (backendError ("unreadable progress stream: " ++ reason))

/-- What a push comes to, by the body of a reply of success. It succeeds for streams without an error and
for nothing else. -/
structure PushedAs (body : Bytes) (pushed : Outcome String) : Prop where
  log : ∀ records, Streams body records → logTexts records ≠ [] →
    progressLog body = .ok (String.join ((logTexts records).map ended)) ∧
      pushed = .ok (String.join ((logTexts records).map ended))
  whole : ∀ records, Streams body records → logTexts records = [] →
    pushed = .ok (Text.trim (Utf8.decodeLossy body) ++ "\n")
  refused : ∀ records tail r e, Begins body records tail →
    FirstWithout (fun r => r.error? = none) records r → r.error? = some e →
    pushed = .error (backendError e)
  unreadable : ¬Conclusive body → Unreadable pushed
  succeeds_iff : (∃ log, pushed = .ok log) ↔ ∃ records, Streams body records
  /-- Such as a digest, which begins neither an object nor an array. -/
  text : ∀ c rest, Json.skipSpace body = c :: rest → c ≠ 0x7B → c ≠ 0x5B → Unreadable pushed

variable {body tail : Bytes} {records : List ProgressRecord} {record : ProgressRecord}

/-! ### Logs that say something -/

theorem ended_ne_empty (s : String) : ended s ≠ "" := by
  unfold ended
  split
  · rename_i h
    rintro rfl
    cases h
  · simp

theorem join_ended_isEmpty_iff (texts : List String) :
    (String.join (texts.map ended)).isEmpty = true ↔ texts = [] := by
  cases texts with
  | nil => simp
  | cons s texts => simp [ended_ne_empty]

theorem pushLog_of_log {log : String} (h : progressLog body = .ok log) : pushLog body =
    .ok (if log.isEmpty then Text.trim (Utf8.decodeLossy body) ++ "\n" else log) := by
  unfold pushLog progress
  rw [h]
  change (if log.isEmpty then _ else _) = _
  split <;> rfl

theorem pushLog_of_error {e : String} (h : progressLog body = .error e) :
    pushLog body = .error (backendError e) := by
  unfold pushLog progress
  rw [h]
  rfl

theorem Streams.progressLog_eq (h : Streams body records) :
    progressLog body = .ok (String.join ((logTexts records).map ended)) := by
  obtain ⟨⟨tail, hb, blank⟩, fine⟩ := h
  exact progressLog_eq_ok hb blank fine

theorem streams_or (body : Bytes) :
    (∃ records, Streams body records) ∨
      (∃ records tail r e, Begins body records tail ∧
        FirstWithout (fun r => r.error? = none) records r ∧ r.error? = some e) ∨
      ¬Conclusive body := by
  by_cases conclusive : Conclusive body
  · obtain ⟨records, tail, h, hend⟩ := conclusive
    rcases FirstWithout.all_or_exists (fun r : ProgressRecord => r.error? = none) records with
      fine | ⟨r, first⟩
    · rcases hend with blank | ⟨r, hr, bad⟩
      · exact .inl ⟨records, ⟨tail, h, blank⟩, fine⟩
      · exact absurd (fine r hr) bad
    · obtain ⟨e, he⟩ := Option.ne_none_iff_exists'.1 first.lacks
      exact .inr (.inl ⟨records, tail, r, e, h, first, he⟩)
  · exact .inr (.inr conclusive)

/-! ### Texts that are no streams -/

theorem Describes.first {v : Bytes} {r : Json.Reading} (h : Describes r record) (hv : Spells v r) :
    ∃ c w, v = c :: w ∧ (c = 0x7B ∨ c = 0x5B) := by
  cases h with
  | object =>
    obtain ⟨w, rfl⟩ := hv.brace_first
    exact ⟨_, w, rfl, .inl rfl⟩
  | array =>
    obtain ⟨w, rfl⟩ := hv.bracket_first
    exact ⟨_, w, rfl, .inr rfl⟩

theorem Begins.nil_of_first {c : UInt8} {rest : Bytes} (h : Begins body records tail)
    (hfirst : Json.skipSpace body = c :: rest) (brace : c ≠ 0x7B) (bracket : c ≠ 0x5B) :
    records = [] ∧ ¬Blank tail := by
  cases h with
  | none =>
    refine ⟨rfl, fun blank => ?_⟩
    have hnil : Json.skipSpace body = [] := List.dropWhile_eq_nil_iff.2 blank
    rw [hnil] at hfirst
    cases hfirst
  | @record p v more _ r record records hp hv hr _ =>
    obtain ⟨d, w, rfl, hd⟩ := hr.first hv
    have hspace : Json.isSpace d = false := by
      rcases hd with rfl | rfl <;> rfl
    rw [List.append_assoc, hp.skipSpace_append, List.cons_append, Json.skipSpace_cons hspace] at hfirst
    obtain ⟨rfl, -⟩ := List.cons.inj hfirst
    rcases hd with rfl | rfl
    · exact absurd rfl brace
    · exact absurd rfl bracket

/-! ### Pushes -/

theorem pushedAs_pushLog (body : Bytes) : PushedAs body (pushLog body) := by
  have unreadable : ¬Conclusive body → Unreadable (pushLog body) := by
    intro h
    obtain ⟨reason, hreason⟩ := exists_unreadable h
    exact ⟨reason, pushLog_of_error hreason⟩
  refine ⟨?log, ?whole, ?refused, unreadable, ?succeeds_iff, ?text⟩
  case log =>
    intro records h some
    have nonempty := mt (join_ended_isEmpty_iff (logTexts records)).1 some
    have hlog := h.progressLog_eq
    exact ⟨hlog, by rw [pushLog_of_log hlog, if_neg nonempty]⟩
  case whole =>
    intro records h none
    rw [pushLog_of_log h.progressLog_eq, if_pos ((join_ended_isEmpty_iff _).2 none)]
  case refused =>
    intro records tail r e h first he
    exact pushLog_of_error (progressLog_eq_error h first he)
  case succeeds_iff =>
    constructor
    · rintro ⟨log, hok⟩
      rcases streams_or body with h | ⟨records, tail, r, e, h, first, he⟩ | h
      · exact h
      · rw [pushLog_of_error (progressLog_eq_error h first he)] at hok
        cases hok
      · obtain ⟨reason, hreason⟩ := unreadable h
        rw [hreason] at hok
        cases hok
    · rintro ⟨records, h⟩
      exact ⟨_, pushLog_of_log h.progressLog_eq⟩
  case text =>
    intro c rest hfirst brace bracket
    apply unreadable
    rintro ⟨records, tail, h, hend⟩
    obtain ⟨rfl, notBlank⟩ := h.nil_of_first hfirst brace bracket
    rcases hend with blank | ⟨r, hr, -⟩
    · exact notBlank blank
    · cases hr

variable {σ : Type} {answer : (q : Inquiry) → σ → q.Answer × σ} {s s' : σ}

def pushRequest (c : Client) (list destination : String) (headers : List (String × String)) : Inquiry :=
  .exchange c.socket c.timeout
    ⟨.post, c.pathFor (Endpoint.pushManifest list destination).path, headers, .empty⟩

theorem runs_pushManifest (c : Client) {list destination registryAuth : String}
    {headers : List (String × String)} {reply : Http.Reply}
    (auth : authHeaders registryAuth = .ok headers)
    (short : ¬c.TooLong (Endpoint.pushManifest list destination).path)
    (hq : answer (pushRequest c list destination headers) s = (reply, s')) :
    Runs answer (c.pushManifest list destination registryAuth) s
      [pushRequest c list destination headers]
      (c.bodyOf .post (Endpoint.pushManifest list destination).path reply >>= pushLog) s' := by
  have hparts : c.pushManifest list destination registryAuth =
      Session.ofOutcome (authHeaders registryAuth) >>= fun headers =>
        c.request .post (Endpoint.pushManifest list destination).path .empty headers >>= fun body =>
          Session.ofOutcome (pushLog body) := by
    rw [← Endpoint.registryPath_eq_path]
    rfl
  have hauth : Runs answer (Session.ofOutcome (authHeaders registryAuth)) s [] (.ok headers) s := by
    rw [auth]
    exact .pure headers
  rw [hparts]
  exact hauth.bind (Session.runs_bind_ofOutcome (c.runs_request .post .empty headers short hq))

/-- A push that the daemon takes is one request, and comes to what the body of the reply says. -/
theorem push_of_manifest (c : Client) (list destination registryAuth : String)
    (headers : List (String × String)) (auth : authHeaders registryAuth = .ok headers)
    (short : ¬c.TooLong (Endpoint.pushManifest list destination).path)
    {σ : Type} (answer : (q : Inquiry) → σ → q.Answer × σ) (s s' : σ) (r : Http.Response)
    (body : Bytes) (hq : answer (pushRequest c list destination headers) s = (.response r, s'))
    (success : r.isSuccess = true) (hbody : r.body = .ok body) :
    asked answer (c.pushManifest list destination registryAuth) s =
        [pushRequest c list destination headers] ∧
      PushedAs body (result answer (c.pushManifest list destination registryAuth) s).1 := by
  have run := runs_pushManifest c auth short hq
  refine ⟨run.asks, ?_⟩
  rw [run.result_fst, Client.bodyOf_eq_ok_iff.2 ⟨r, rfl, success, hbody⟩]
  exact pushedAs_pushLog body

def scriptOf (body : String) : Script where
  routes := []
  otherwise := .response ⟨200, [Utf8.encode body], none⟩
  socket := some "/run/podman.sock"
  files := FileTree.empty
  workingDirectory := []
  program := fun _ => none
  freshId := ""
  requests := []
  commands := []

def pushSample : Session String :=
  (Client.new "/run/podman.sock" ⟨0⟩).pushManifest "app:1" "reg.io/app:1" ""

def identifierOnly : String := "\x7b\"Id\":\"sha256:6c3c624b58db\"\x7d"

theorem push_of_identifier :
    authHeaders "" = .ok [] ∧
      PushedAs (Utf8.encode identifierOnly) (result Script.answer pushSample (scriptOf identifierOnly)).1 ∧
      (result Script.answer pushSample (scriptOf identifierOnly)).1 = .ok (identifierOnly ++ "\n") := by
  have auth : authHeaders "" = .ok [] := rfl
  have short : ¬(Client.new "/run/podman.sock" ⟨0⟩).TooLong
      (Endpoint.pushManifest "app:1" "reg.io/app:1").path := by
    rw [Client.TooLong]
    decide +kernel
  have pushed := push_of_manifest (Client.new "/run/podman.sock" ⟨0⟩) "app:1" "reg.io/app:1" "" [] auth
    short Script.answer (scriptOf identifierOnly) _ _ (Utf8.encode identifierOnly) rfl rfl rfl
  exact ⟨auth, pushed.2, by decide +kernel⟩

/-! A digest is a push that succeeded, and yet it is reported as a failure. -/

def bareDigest : String :=
  "sha256:6c3c624b58dbbcd3c0dd82b4c53f04194d1247c6eebdaab7c610cf7d66709b3b"

theorem digest_taken_for_failure :
    (Http.Response.isSuccess ⟨200, [Utf8.encode bareDigest], none⟩ = true) ∧
      (result Script.answer pushSample (scriptOf bareDigest)).1 =
        .error (backendError "unreadable progress stream: unexpected character") := by
  decide +kernel

end Podman
end ContainerBuild
