import ContainerBuild.Json.Record
import ContainerBuild.Proofs.Traversal

/-!
# What a record was read from

A record that is read has its values from the text: of an object, the value that stands under a name of
the field, and of an array, the one at the place of the field. A field that must be there was there.
-/

namespace ContainerBuild
namespace Json

/-- The value that a reading has for the field with some names at some place of a record. -/
def Reading.HasField (r : Reading) (i : Nat) (names : List String) (v : Reading) : Prop :=
  match r with
  | object members _ => ∃ name ∈ names, (some name, v) ∈ members
  | array items _ => items[i]? = some v
  | _ => False

namespace Fields

variable {α β : Type} {keys : List Key} {slots filled : List (Option Reading)} {v : Reading}

theorem of_fillSlot {name : String} {r : Reading} (h : fillSlot name r keys slots = .ok filled)
    {i : Nat} (hi : filled[i]? = some (some v)) :
    slots[i]? = some (some v) ∨ (v = r ∧ ∃ key, keys[i]? = some key ∧ name ∈ key.names) := by
  induction keys generalizing slots filled i with
  | nil =>
    cases h
    exact .inl hi
  | cons key keys ih =>
    cases slots with
    | nil =>
      cases h
      exact .inl hi
    | cons slot slots =>
      unfold fillSlot at h
      by_cases mem : key.names.contains name
      · rw [if_pos mem] at h
        cases slot with
        | some _ => cases h
        | none =>
          obtain ⟨u, -, h⟩ := bind_eq_ok_iff.1 h
          cases h
          cases i with
          | zero =>
            cases hi
            exact .inr ⟨rfl, key, rfl, by simpa using mem⟩
          | succ i => exact .inl hi
      · rw [if_neg mem] at h
        obtain ⟨more, hf, h⟩ := bind_eq_ok_iff.1 h
        cases h
        cases i with
        | zero => exact .inl hi
        | succ i => exact ih hf hi

theorem of_fill {members : List (Option String × Reading)} (h : fill keys slots members = .ok filled)
    {i : Nat} (hi : filled[i]? = some (some v)) :
    slots[i]? = some (some v) ∨
      ∃ key name, keys[i]? = some key ∧ name ∈ key.names ∧ (some name, v) ∈ members := by
  induction members generalizing slots with
  | nil =>
    cases h
    exact .inl hi
  | cons member members ih =>
    obtain ⟨_ | name, r⟩ := member
    · cases h
    · obtain ⟨more, hf, h⟩ := bind_eq_ok_iff.1 h
      rcases ih h with before | ⟨key, name', hk, hn, hm⟩
      · rcases of_fillSlot hf before with before | ⟨rfl, key, hk, hn⟩
        · exact .inl before
        · exact .inr ⟨key, name, hk, hn, List.mem_cons_self⟩
      · exact .inr ⟨key, name', hk, hn, List.mem_cons_of_mem _ hm⟩

theorem of_fillInOrder {items : List Reading} (h : fillInOrder keys items = .ok filled) {i : Nat}
    (hi : filled[i]? = some (some v)) : items[i]? = some v := by
  induction keys generalizing items filled i with
  | nil =>
    cases items with
    | nil =>
      cases h
      cases hi
    | cons r items => cases h
  | cons key keys ih =>
    cases items with
    | nil =>
      unfold fillInOrder at h
      by_cases may : key.mayEnd
      · rw [if_pos may] at h
        obtain ⟨more, hf, h⟩ := bind_eq_ok_iff.1 h
        cases h
        cases i with
        | zero => cases hi
        | succ i => cases ih hf hi
      · rw [if_neg may] at h
        cases h
    | cons r items =>
      obtain ⟨u, -, h⟩ := bind_eq_ok_iff.1 h
      obtain ⟨more, hf, h⟩ := bind_eq_ok_iff.1 h
      cases h
      cases i with
      | zero =>
        cases hi
        rfl
      | succ i => exact ih hf hi

theorem eq_of_whole {a b : α} {open? : Option Break} (h : whole a open? = .ok b) : a = b := by
  cases open? with
  | none =>
    cases h
    rfl
  | some _ => cases h

/-- A record is made of slots, each empty or with the value that the text has for its field. -/
theorem exists_slots {x : Fields α} {r : Reading} {a : α} (h : x.decode r = .ok a) :
    ∃ slots, x.build slots = .ok a ∧ ∀ i v key, x.keys[i]? = some key →
      slots[i]? = some (some v) → r.HasField i key.names v := by
  cases r with
  | object members open? =>
    obtain ⟨slots, hf, h⟩ := bind_eq_ok_iff.1 h
    obtain ⟨slots', hw, h⟩ := bind_eq_ok_iff.1 h
    obtain rfl := eq_of_whole hw
    refine ⟨slots, h, ?_⟩
    intro i v key hk hi
    rcases of_fill hf hi with before | ⟨key', name, hk', hn, hm⟩
    · rw [List.getElem?_map, hk] at before
      cases before
    · rw [hk] at hk'
      cases hk'
      exact ⟨name, hn, hm⟩
  | array items open? =>
    obtain ⟨slots, hf, h⟩ := bind_eq_ok_iff.1 h
    obtain ⟨slots', hw, h⟩ := bind_eq_ok_iff.1 h
    obtain rfl := eq_of_whole hw
    exact ⟨slots, h, fun i v key _ hi => of_fillInOrder hf hi⟩
  | _ => cases h

/-! ### Values from slots -/

theorem build_required {name : String} {d : Decoder α} {a : α}
    (h : (required name d).build slots = .ok a) : ∃ r, slots = [some r] ∧ d r = .ok a := by
  match slots, h with
  | [some r], h => exact ⟨r, rfl, h⟩

theorem build_and {x : Fields α} {y : Fields β} {p : α × β} (h : (x.and y).build slots = .ok p) :
    x.build (slots.take x.keys.length) = .ok p.1 ∧ y.build (slots.drop x.keys.length) = .ok p.2 := by
  obtain ⟨a, hx, h⟩ := bind_eq_ok_iff.1 h
  obtain ⟨b, hy, h⟩ := bind_eq_ok_iff.1 h
  cases h
  exact ⟨hx, hy⟩

theorem build_map {f : α → β} {x : Fields α} {b : β} (h : (x.map f).build slots = .ok b) :
    ∃ a, x.build slots = .ok a ∧ f a = b := by
  change (x.build slots).map f = .ok b at h
  cases hx : x.build slots with
  | error e =>
    rw [hx] at h
    cases h
  | ok a =>
    rw [hx] at h
    cases h
    exact ⟨a, rfl, rfl⟩

end Fields

theorem Decode.eq_of_text {r : Reading} {s : String} (h : Decode.text r = .ok s) : r = .text s := by
  cases r with
  | text s' =>
    cases h
    rfl
  | _ => cases h

/-- A text that is read is one reading, of which the decoder makes the result. -/
theorem eq_of_read {α : Type} {d : Decoder α} {b : Bytes} {a : α} (h : read d b = .ok a) :
    d (scan b).1 = .ok a := by
  obtain ⟨a', hd, h⟩ := bind_eq_ok_iff.1 h
  split at h
  · split at h
    · cases h
      exact hd
    · cases h
  · cases h

end Json
end ContainerBuild
