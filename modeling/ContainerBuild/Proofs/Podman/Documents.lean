import ContainerBuild.Proofs.Json.Records
import ContainerBuild.Proofs.Podman.ProgressStream

/-!
# Documents with a field

A document is the text of one value with nothing but blanks around it. Where a record is read for one of
its fields, the value of that field may stand in an object beside anything under other names, or alone in
an array; and a field in a record in a record is found along its way.
-/

namespace ContainerBuild

namespace Json

variable {α : Type} {d : Decoder α} {b : Bytes} {r : Reading} {a : α}

theorem Padded.scan (h : Padded Spells b r) : ∃ q, scan b = (r, .ok q) ∧ Blank q := by
  obtain ⟨hp, hv, hq⟩ := h
  rename_i p v q
  refine ⟨q, ?_, hq⟩
  have hends : Ends r q := by
    have hempty : EndsNumber [] := nofun
    have h := (hq.endsNumber hempty).ends (r := r)
    rwa [List.append_nil] at h
  have hlen : v.length ≤ 2 * (p ++ v ++ q).length + 1 + 1 := by
    simp only [List.length_append]
    omega
  rw [Json.scan, List.append_assoc, hp.readValue_append]
  rw [List.append_assoc] at hlen
  exact readsUpTo v.length v r le_rfl hv _ q hlen hends

theorem read_of_scan {after : Except Break Bytes} (h : Json.scan b = (r, after)) :
    read d b = d r >>= fun a => match after with
      | .ok rest => if (skipSpace rest).isEmpty then .ok a else .error (.broken ⟨skipSpace rest⟩)
      | .error e => .error (.broken e) := by
  unfold read
  rw [h]
  rfl

theorem read_eq_ok_iff : read d b = .ok a ↔ ∃ r, Padded Spells b r ∧ d r = .ok a := by
  constructor
  · intro h
    cases hscan : Json.scan b with
    | mk r after =>
      rw [read_of_scan hscan] at h
      obtain ⟨x, hd, h⟩ := bind_eq_ok_iff.1 h
      cases after with
      | error e => cases h
      | ok rest =>
        simp only at h
        split at h
        · rename_i hempty
          cases h
          obtain ⟨p, v, rfl, hp, hv⟩ := spells_of_scan hscan
          have hrest : Blank rest := List.dropWhile_eq_nil_iff.1 (List.isEmpty_iff.1 hempty)
          exact ⟨r, .intro hp hv hrest, hd⟩
        · cases h
  · rintro ⟨r, hr, hd⟩
    obtain ⟨q, hscan, hq⟩ := hr.scan
    have hskip : (skipSpace q).isEmpty = true := List.isEmpty_iff.2 (List.dropWhile_eq_nil_iff.2 hq)
    rw [read_of_scan hscan, hd]
    exact if_pos hskip

end Json

namespace Podman

open Json (Decoder Fields Padded Reading Spells)

/-- The value that a record has for a field, if it has one: of an object that has the field once at most,
besides anything under other names, or of an array that holds that value alone. -/
inductive Field (name : String) : Reading → Option Reading → Prop
  | object {members : List (Option String × Reading)} {v? : Option Reading}
      (keys : ∀ m ∈ members, m.1 ≠ none) (values : valuesOf name members = v?.toList) :
      Field name (.object members none) v?
  | array (v? : Option Reading) : Field name (.array v?.toList none) v?

variable {α : Type} {name : String} {d : Decoder α} {r v : Reading} {a : α}

theorem found_single (check : Reading → Except Json.Fault Unit) (mayEnd : Bool)
    (members : List (Option String × Reading)) :
    Json.Key.found ⟨[name], check, mayEnd⟩ members = valuesOf name members := by
  unfold Json.Key.found valuesOf
  congr 1
  funext ⟨key, r⟩
  cases key <;> simp

theorem decode_single_iff {mayEnd : Bool} {absent : Except Json.Fault α}
    (h : mayEnd = true ∨ ∀ a, absent ≠ .ok a) :
    (Fields.single [name] d mayEnd absent).decode r = .ok a ↔
      (∃ v, Field name r (some v) ∧ d v = .ok a) ∨ Field name r none ∧ absent = .ok a := by
  have hcheck (v : Reading) (hv : d v = .ok a) : (d v).map (fun _ => ()) = .ok () := by
    rw [hv]
    rfl
  cases r with
  | object members open? =>
    have disjoint : Json.DisjointKeys (Fields.single [name] d mayEnd absent).keys :=
      List.pairwise_singleton _ _
    have hform (v? : Option Reading) : Field name (.object members open?) v? ↔ open? = none ∧
        (∀ m ∈ members, m.1 ≠ none) ∧ valuesOf name members = v?.toList := by
      constructor
      · rintro ⟨keys, values⟩
        exact ⟨rfl, keys, values⟩
      · rintro ⟨rfl, keys, values⟩
        exact .object keys values
    rw [Fields.decode_object_iff _ disjoint]
    simp only [hform, Fields.single, List.forall_mem_singleton, Fields.Accepts, found_single,
      List.map_cons, List.map_nil]
    rcases valuesOf name members with _ | ⟨v, _ | ⟨w, rest⟩⟩
    · simp [and_assoc]
    · simpa [and_assoc] using fun _ _ => hcheck v
    · simp
  | array items open? =>
    have hform (v? : Option Reading) : Field name (.array items open?) v? ↔
        open? = none ∧ items = v?.toList := by
      constructor
      · rintro ⟨⟩
        exact ⟨rfl, rfl⟩
      · rintro ⟨rfl, rfl⟩
        exact .array v?
    rw [Fields.decode_array_iff]
    simp only [hform]
    rcases items with _ | ⟨v, _ | ⟨w, rest⟩⟩
    · simpa [Fields.single] using fun _ habsent => h.resolve_right fun never => never a habsent
    · simpa [Fields.single] using fun _ => hcheck v
    · simp [Fields.single]
  | _ =>
    constructor
    · intro h
      cases h
    · rintro (⟨v, ⟨⟩, -⟩ | ⟨⟨⟩, -⟩)

theorem decode_required_iff :
    (Fields.required name d).decode r = .ok a ↔ ∃ v, Field name r (some v) ∧ d v = .ok a := by
  refine (decode_single_iff (.inr nofun)).trans ⟨?_, .inl⟩
  rintro (h | ⟨-, ⟨⟩⟩)
  exact h

theorem decode_withDefault_iff {default : α} : (Fields.withDefault name d default).decode r = .ok a ↔
    (∃ v, Field name r (some v) ∧ d v = .ok a) ∨ Field name r none ∧ default = a := by
  rw [Fields.withDefault, decode_single_iff (.inl rfl), Except.ok.injEq]

/-- A record without a field, or with null in it. -/
def Lacks (name : String) (r : Reading) : Prop :=
  Field name r none ∨ Field name r (some .null)

theorem Field.ne_null {v? : Option Reading} (h : Field name r v?) : r ≠ .null := by
  rintro rfl
  cases h

theorem Lacks.ne_null (h : Lacks name r) : r ≠ .null := by
  rcases h with h | h
  · exact h.ne_null
  · exact h.ne_null

theorem nullable_eq_ok_iff {a? : Option α} : Json.Decode.nullable d v = .ok a? ↔
    v = .null ∧ a? = none ∨ v ≠ .null ∧ ∃ a, d v = .ok a ∧ a? = some a := by
  have hmap : (d v).map some = .ok a? ↔ ∃ a, d v = .ok a ∧ a? = some a :=
    map_eq_ok_iff.trans (exists_congr fun _ => and_congr_right fun _ => eq_comm)
  cases v with
  | null => simp [Json.Decode.nullable, eq_comm]
  | _ => simpa [Json.Decode.nullable] using hmap

theorem decode_optionalTail_iff {a? : Option α} :
    (Fields.optionalTail [name] d).decode r = .ok a? ↔
      Lacks name r ∧ a? = none ∨
        ∃ v, Field name r (some v) ∧ v ≠ .null ∧ ∃ a, d v = .ok a ∧ a? = some a := by
  rw [Fields.optionalTail, decode_single_iff (.inl rfl), Except.ok.injEq]
  simp only [nullable_eq_ok_iff]
  constructor
  · rintro (⟨v, h, ⟨rfl, rfl⟩ | ⟨hv, ha⟩⟩ | ⟨h, rfl⟩)
    · exact .inl ⟨.inr h, rfl⟩
    · exact .inr ⟨v, h, hv, ha⟩
    · exact .inl ⟨.inl h, rfl⟩
  · rintro (⟨h | h, rfl⟩ | ⟨v, h, hv, ha⟩)
    · exact .inr ⟨h, rfl⟩
    · exact .inl ⟨_, h, .inl ⟨rfl, rfl⟩⟩
    · exact .inl ⟨v, h, .inr ⟨hv, ha⟩⟩

/-! ### Fields of fields -/

/-- A value stands in a record along some fields, each in the record that the one before it holds. -/
def StandsAt : List String → Reading → Reading → Prop
  | [], r, v => r = v
  | name :: names, r, v => ∃ w, Field name r (some w) ∧ StandsAt names w v

variable {names : List String}

theorem StandsAt.ne_null (h : StandsAt (name :: names) r v) : r ≠ .null := by
  obtain ⟨w, h, -⟩ := h
  exact h.ne_null

theorem text_eq_ok_iff {s : String} : Json.Decode.text r = .ok s ↔ StandsAt [] r (.text s) := by
  constructor
  · exact Json.Decode.eq_of_text
  · rintro rfl
    rfl

theorem decode_required_standsAt_iff (h : ∀ r, d r = .ok a ↔ StandsAt names r v) :
    (Fields.required name d).decode r = .ok a ↔ StandsAt (name :: names) r v := by
  simp only [decode_required_iff, h]
  rfl

/-! ### Lists -/

theorem items_eq_ok_iff {rs : List Reading} {l : List α} :
    Json.Decode.items d rs = .ok l ↔ List.Forall₂ (fun r a => d r = .ok a) rs l := by
  induction rs generalizing l with
  | nil =>
    rw [Json.Decode.items, List.forall₂_nil_left_iff, Except.ok.injEq, eq_comm]
  | cons r rs ih =>
    rw [Json.Decode.items, List.forall₂_cons_left_iff]
    simp only [bind_eq_ok_iff, ih]
    constructor
    · rintro ⟨a, ha, l, hl, h⟩
      exact ⟨a, l, ha, hl, (Except.ok.inj h).symm⟩
    · rintro ⟨a, l, ha, hl, rfl⟩
      exact ⟨a, ha, l, hl, rfl⟩

theorem list_eq_ok_iff {l : List α} : Json.Decode.list d r = .ok l ↔
    ∃ rs, r = .array rs none ∧ List.Forall₂ (fun r a => d r = .ok a) rs l := by
  cases r with
  | array rs open? =>
    unfold Json.Decode.list
    simp only [bind_eq_ok_iff, items_eq_ok_iff, Fields.whole_eq_ok_iff]
    constructor
    · rintro ⟨l, hl, rfl, rfl⟩
      exact ⟨rs, rfl, hl⟩
    · rintro ⟨rs, ⟨⟩, hl⟩
      exact ⟨l, hl, rfl, rfl⟩
  | _ =>
    refine ⟨nofun, ?_⟩
    rintro ⟨rs, ⟨⟩, -⟩

end Podman
end ContainerBuild
