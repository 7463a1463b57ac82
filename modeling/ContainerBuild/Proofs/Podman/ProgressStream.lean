import ContainerBuild.Podman.Progress
import ContainerBuild.Proofs.Json.Filling
import ContainerBuild.Proofs.Json.Recognition

/-!
# Streams of progress

A stream is read as the records whose texts stand one after another with blanks between them. Where it is
such records to its end, the log has a text of each; a record with an error ends it, whatever comes after
that record; and of every other stream there is no log at all.
-/

namespace ContainerBuild
namespace Podman

open Json (Blank Fields Reading Spells)

/-! ### Records -/

/-- The text in the values of a field that may be null or absent. -/
inductive OptionalText : List Reading → Option String → Prop
  | absent : OptionalText [] none
  | null : OptionalText [.null] none
  | text (s : String) : OptionalText [.text s] (some s)

def valuesOf (name : String) (members : List (Option String × Reading)) : List Reading :=
  members.filterMap fun (key, r) => if key = some name then some r else none

/-- A value is a record: an object that has each field at most once, as a text or null, besides anything
under other names; or an array of the fields in their order, of which the last may be left out. -/
inductive Describes : Reading → ProgressRecord → Prop
  | object {members : List (Option String × Reading)} {record : ProgressRecord}
      (keys : ∀ m ∈ members, m.1 ≠ none)
      (stream : OptionalText (valuesOf "stream" members) record.stream)
      (status : OptionalText (valuesOf "status" members) record.status)
      (error : OptionalText (valuesOf "error" members) record.error) :
      Describes (.object members none) record
  | array {items : List Reading} {record : ProgressRecord} (few : items.length ≤ 3)
      (stream : OptionalText items[0]?.toList record.stream)
      (status : OptionalText items[1]?.toList record.status)
      (error : OptionalText items[2]?.toList record.error) :
      Describes (.array items none) record

variable {r : Reading} {record : ProgressRecord} {members : List (Option String × Reading)}
  {items : List Reading} {values : List Reading} {text : Option String}

def slotText : Option Reading → Except Json.Fault (Option String)
  | some r => Json.Decode.nullable Json.Decode.text r
  | none => .ok none

def textKey (name : String) : Json.Key :=
  ⟨[name], fun r => (slotText (some r)).map fun _ => (), true⟩

theorem keys_fields : ProgressRecord.fields.keys = ["stream", "status", "error"].map textKey :=
  rfl

theorem build_eq_ok_iff (a b c : Option Reading) :
    ProgressRecord.fields.build [a, b, c] = .ok record ↔
    slotText a = .ok record.stream ∧ slotText b = .ok record.status ∧
      slotText c = .ok record.error := by
  have hbuild : ProgressRecord.fields.build [a, b, c] =
      (slotText a >>= fun x => (slotText b >>= fun y => slotText c >>= fun z => .ok (y, z)) >>=
        fun p => .ok (x, p)).map fun p => ⟨p.1, p.2.1, p.2.2⟩ := by
    cases a <;> cases b <;> cases c <;> rfl
  obtain ⟨stream, status, error⟩ := record
  rw [hbuild]
  cases slotText a <;> cases slotText b <;> cases slotText c <;>
    simp [bind, Except.bind, Except.map]

theorem found_textKey (name : String) : (textKey name).found members = valuesOf name members := by
  unfold Json.Key.found valuesOf
  congr 1
  funext ⟨key, r⟩
  cases key <;> simp [textKey]

/-- A field has a text or none if it has one value at most, which it may have. -/
theorem optionalText_iff (name : String) : OptionalText values text ↔
    values.length ≤ 1 ∧ (∀ v ∈ values, (textKey name).check v = .ok ()) ∧
      slotText values.head? = .ok text := by
  constructor
  · rintro (_ | _ | s)
    · exact ⟨Nat.zero_le 1, nofun, rfl⟩
    · exact ⟨Nat.le_refl 1, List.forall_mem_singleton.2 rfl, rfl⟩
    · exact ⟨Nat.le_refl 1, List.forall_mem_singleton.2 rfl, rfl⟩
  · rintro ⟨hlen, -, h⟩
    match values, hlen, h with
    | [], _, h =>
      cases h
      exact .absent
    | [.null], _, h =>
      cases h
      exact .null
    | [.text s], _, h =>
      cases h
      exact .text s

theorem optionalText_item_iff (name : String) (slot : Option Reading) :
    OptionalText slot.toList text ↔
      (∀ v ∈ slot, (textKey name).check v = .ok ()) ∧ slotText slot = .ok text := by
  rw [optionalText_iff name]
  cases slot <;> simp

theorem disjointKeys_fields : Json.DisjointKeys ProgressRecord.fields.keys := by
  rw [keys_fields]
  simp [Json.DisjointKeys, textKey]

/-- The records are the values that are described so. -/
theorem decode_iff : ProgressRecord.fields.decode r = .ok record ↔ Describes r record := by
  cases r with
  | object members open? =>
    rw [Fields.decode_object_iff _ disjointKeys_fields]
    simp only [keys_fields, List.map_cons, List.map_nil, build_eq_ok_iff, Fields.Accepts,
      found_textKey, List.forall_mem_cons]
    constructor
    · rintro ⟨rfl, hkeys, ⟨⟨l1, c1⟩, ⟨l2, c2⟩, ⟨l3, c3⟩, -⟩, s1, s2, s3⟩
      exact .object hkeys ((optionalText_iff _).2 ⟨l1, c1, s1⟩) ((optionalText_iff _).2 ⟨l2, c2, s2⟩)
        ((optionalText_iff _).2 ⟨l3, c3, s3⟩)
    · rintro ⟨hkeys, stream, status, error⟩
      obtain ⟨l1, c1, s1⟩ := (optionalText_iff _).1 stream
      obtain ⟨l2, c2, s2⟩ := (optionalText_iff _).1 status
      obtain ⟨l3, c3, s3⟩ := (optionalText_iff _).1 error
      exact ⟨rfl, hkeys, ⟨⟨l1, c1⟩, ⟨l2, c2⟩, ⟨l3, c3⟩, nofun⟩, s1, s2, s3⟩
  | array items open? =>
    have hform : Describes (.array items open?) record ↔ open? = none ∧ items.length ≤ 3 ∧
        OptionalText items[0]?.toList record.stream ∧ OptionalText items[1]?.toList record.status ∧
        OptionalText items[2]?.toList record.error := by
      constructor
      · rintro (_ | ⟨few, stream, status, error⟩)
        exact ⟨rfl, few, stream, status, error⟩
      · rintro ⟨rfl, few, stream, status, error⟩
        exact .array few stream status error
    rw [hform, Fields.decode_array_iff, keys_fields, optionalText_item_iff "stream",
      optionalText_item_iff "status", optionalText_item_iff "error"]
    rcases items with _ | ⟨a, _ | ⟨b, _ | ⟨c, _ | ⟨d, items⟩⟩⟩⟩ <;>
      simp [build_eq_ok_iff, textKey, List.replicate]
    all_goals grind
  | _ =>
    refine ⟨nofun, ?_⟩
    rintro ⟨⟩

/-! ### Streams -/

/-- A stream begins with the texts of records, each after blanks, and goes on with a tail. -/
inductive Begins : Bytes → List ProgressRecord → Bytes → Prop
  | none (tail : Bytes) : Begins tail [] tail
  | record {p v rest tail : Bytes} {r : Reading} {record : ProgressRecord}
      {records : List ProgressRecord} (hp : Blank p) (hv : Spells v r) (hr : Describes r record)
      (more : Begins rest records tail) : Begins (p ++ v ++ rest) (record :: records) tail

variable {b body p v rest tail : Bytes} {fuel : Nat} {records : List ProgressRecord}
  {fault : Option Json.Fault}

theorem Describes.ends (h : Describes r record) (rest : Bytes) : Json.Ends r rest := by
  cases h <;> trivial

theorem readRecords_record (hp : Blank p) (hv : Spells v r) (hr : Describes r record) (fuel : Nat)
    (rest : Bytes) : readRecords (fuel + 1) (p ++ v ++ rest) =
      (record :: (readRecords fuel rest).1, (readRecords fuel rest).2) := by
  obtain ⟨c, w, hc, hs, -⟩ := hv.exists_cons
  have hskip : Json.skipSpace (p ++ v ++ rest) = v ++ rest := by
    rw [List.append_assoc, hp.skipSpace_append, hc, List.cons_append, Json.skipSpace_cons hs]
  have hne : (v ++ rest).isEmpty = false := by
    rw [hc]
    rfl
  rw [readRecords, hskip]
  simp only [hne, hv.scan (hr.ends rest), decode_iff.2 hr]
  rfl

theorem readRecords_blank (h : Blank b) (fuel : Nat) : readRecords (fuel + 1) b = ([], none) := by
  have hskip : Json.skipSpace b = [] := List.dropWhile_eq_nil_iff.2 h
  rw [readRecords, hskip]
  rfl

/-- Every record takes a byte at least, so there is fuel for all of them. -/
theorem readRecords_of_begins (h : Begins body records tail) (hf : body.length < fuel) :
    ∃ fuel', tail.length < fuel' ∧ readRecords fuel body =
      (records ++ (readRecords fuel' tail).1, (readRecords fuel' tail).2) := by
  induction h generalizing fuel with
  | none tail => exact ⟨fuel, hf, rfl⟩
  | @record p v rest tail r record records hp hv hr _ ih =>
    obtain ⟨c, w, hc, -⟩ := hv.exists_cons
    have hlen : rest.length + 1 ≤ (p ++ v ++ rest).length := by
      simp only [hc, List.length_append, List.length_cons]
      omega
    obtain _ | fuel := fuel
    · exact absurd hf (Nat.not_lt_zero _)
    have hrest : rest.length < fuel := by omega
    obtain ⟨fuel', hf', hread⟩ := ih hrest
    refine ⟨fuel', hf', ?_⟩
    rw [readRecords_record hp hv hr, hread]
    rfl

/-- What is read is the records that a stream begins with; without a fault only blanks are left. -/
theorem begins_of_readRecords (h : readRecords fuel body = (records, fault)) :
    ∃ tail, Begins body records tail ∧ (fault = none → Blank tail) := by
  induction fuel generalizing body records fault with
  | zero =>
    cases h
    exact ⟨body, .none body, nofun⟩
  | succ fuel ih =>
    obtain ⟨p, hb, hp⟩ := Json.exists_blank body
    rw [readRecords] at h
    dsimp only at h
    split at h
    · rename_i hempty
      cases h
      refine ⟨body, .none body, fun _ => ?_⟩
      rw [hb, List.isEmpty_iff.1 hempty, List.append_nil]
      exact hp
    · split at h
      · rename_i record rest hdecode hafter
        obtain ⟨tail, hbegins, hblank⟩ := ih (Prod.ext rfl rfl)
        have hscan : Json.scan (Json.skipSpace body) = (_, .ok rest) := Prod.ext rfl hafter
        obtain ⟨q, v, hv, hq, hs⟩ := Json.spells_of_scan hscan
        cases h
        refine ⟨tail, ?_, hblank⟩
        have hbody : body = p ++ q ++ v ++ rest := by
          rw [hb, hv]
          simp only [List.append_assoc]
        rw [hbody]
        exact .record (hp.append hq) hs (decode_iff.1 hdecode) hbegins
      · cases h
        exact ⟨body, .none body, nofun⟩
      · cases h
        exact ⟨body, .none body, nofun⟩

/-! ### Logs -/

theorem logOf_eq_ok (h : ∀ r ∈ records, r.error? = none) :
    logOf records = .ok (String.join ((records.filterMap ProgressRecord.text?).map ended)) := by
  induction records with
  | nil => rfl
  | cons r records ih =>
    obtain ⟨hr, hrest⟩ := List.forall_mem_cons.1 h
    rw [logOf, hr]
    simp only [ih hrest]
    cases ht : r.text? with
    | none => simp [ht, Except.map]
    | some s => simp [ht, Except.map]

theorem logOf_eq_error {e : String} (h : FirstWithout (fun r => r.error? = none) records record)
    (he : record.error? = some e) : logOf records = .error e := by
  obtain ⟨before, after, rfl, fine, -⟩ := h
  induction before with
  | nil =>
    rw [List.nil_append, logOf, he]
  | cons r before ih =>
    obtain ⟨hr, hbefore⟩ := List.forall_mem_cons.1 fine
    rw [List.cons_append, logOf, hr]
    simp only [ih hbefore]
    rfl

theorem progressLog_eq_ok (h : Begins body records tail) (hb : Blank tail)
    (fine : ∀ r ∈ records, r.error? = none) :
    progressLog body = .ok (String.join ((records.filterMap ProgressRecord.text?).map ended)) := by
  obtain ⟨fuel, hf, hread⟩ := readRecords_of_begins h (Nat.lt_succ_self _)
  obtain ⟨fuel, rfl⟩ : ∃ k, fuel = k + 1 := ⟨fuel - 1, by omega⟩
  rw [readRecords_blank hb, List.append_nil] at hread
  unfold progressLog
  rw [hread]
  exact logOf_eq_ok fine

/-- The first error is what a stream comes to, whatever stands after its record. -/
theorem progressLog_eq_error {e : String} (h : Begins body records tail)
    (first : FirstWithout (fun r => r.error? = none) records record) (he : record.error? = some e) :
    progressLog body = .error e := by
  obtain ⟨fuel, -, hread⟩ := readRecords_of_begins h (Nat.lt_succ_self _)
  have hlog := logOf_eq_error (first.append (readRecords fuel tail).1) he
  unfold progressLog
  rw [hread]
  cases (readRecords fuel tail).2 with
  | none => exact hlog
  | some fault =>
    dsimp only
    rw [hlog]

theorem exists_unreadable (h : ¬∃ records tail, Begins body records tail ∧
    (Blank tail ∨ ∃ r ∈ records, r.error? ≠ none)) :
    ∃ reason, progressLog body = .error ("unreadable progress stream: " ++ reason) := by
  unfold progressLog
  cases hread : readRecords (body.length + 1) body with
  | mk records fault =>
    obtain ⟨tail, hbegins, hblank⟩ := begins_of_readRecords hread
    have fine : ∀ r ∈ records, r.error? = none := by
      intro r hr
      cases he : r.error? with
      | none => rfl
      | some e => exact absurd ⟨records, tail, hbegins, .inr ⟨r, hr, by simp [he]⟩⟩ h
    cases fault with
    | none => exact absurd ⟨records, tail, hbegins, .inl (hblank rfl)⟩ h
    | some fault =>
      refine ⟨fault.text, ?_⟩
      dsimp only
      rw [logOf_eq_ok fine]

/-- What a stream comes to. If it is records without an error to its end, that is the text of each in
order, ended by a line feed; if it begins with records of which one has an error, it is the first error;
and otherwise it is that the stream cannot be read. -/
theorem progressLog_of_stream (body : Bytes) :
    (∀ records tail, Begins body records tail → Blank tail →
      (∀ r ∈ records, r.error? = none) →
      progressLog body = .ok (String.join ((records.filterMap ProgressRecord.text?).map ended))) ∧
    (∀ records tail r e, Begins body records tail →
      FirstWithout (fun r => r.error? = none) records r → r.error? = some e →
      progressLog body = .error e) ∧
    ((¬∃ records tail, Begins body records tail ∧
        (Blank tail ∨ ∃ r ∈ records, r.error? ≠ none)) →
      ∃ reason, progressLog body = .error ("unreadable progress stream: " ++ reason)) :=
  ⟨fun _ _ h hb fine => progressLog_eq_ok h hb fine,
    fun _ _ _ _ h first he => progressLog_eq_error h first he, exists_unreadable⟩

example : progressLog (Utf8.encode "[\"a\"]\n\x7b\"status\":\"b\\n\",\"id\":7\x7d") = .ok "a\nb\n" := by
  rfl

/-- A text for the log and an error, with a blank between them and something else after them. -/
def brokenOff : Bytes :=
  Utf8.encode "\x7b\"stream\":\"pulling\"\x7d \x7b\"error\":\"manifest unknown\"\x7d?"

theorem progressLog_of_brokenOff : ∃ records tail, Begins brokenOff records tail ∧
    records.length = 2 ∧ progressLog brokenOff = .error "manifest unknown" := by
  have hread : readRecords 99 brokenOff = ([⟨some "pulling", none, none⟩,
      ⟨none, none, some "manifest unknown"⟩], some (.broken ⟨[0x3F]⟩)) := rfl
  obtain ⟨tail, h, -⟩ := begins_of_readRecords hread
  have first : FirstWithout (fun r : ProgressRecord => r.error? = none)
      [⟨some "pulling", none, none⟩, ⟨none, none, some "manifest unknown"⟩]
      ⟨none, none, some "manifest unknown"⟩ := .cons rfl (.head (by decide))
  exact ⟨_, tail, h, rfl, (progressLog_of_stream brokenOff).2.1 _ tail _ _ h first rfl⟩

end Podman
end ContainerBuild
