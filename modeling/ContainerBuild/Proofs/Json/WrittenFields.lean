import ContainerBuild.Proofs.Json.Filling

/-!
# Records that are written field by field

A record is written as an object with a member for each field, in the order of the fields, and a field
that may be absent can be left out. `Writes` says that the members hold a value of the fields: a law for
each way to put fields together makes the law of the whole record, and reading the object finds the value.
-/

namespace ContainerBuild
namespace Json

open Reading (ofJson ofMembers ofItems)

/-- What is written for the fields of a record, one after another: a member under a name of the field,
or none. -/
inductive Fills : List Key → List (Option Json) → List (String × Json) → Prop
  | nil : Fills [] [] []
  | written {key : Key} {keys : List Key} {slots : List (Option Json)} {members : List (String × Json)}
      {name : String} {j : Json} (known : name ∈ key.names) (fits : key.check (ofJson j) = .ok ())
      (rest : Fills keys slots members) : Fills (key :: keys) (some j :: slots) ((name, j) :: members)
  | leftOut {key : Key} {keys : List Key} {slots : List (Option Json)} {members : List (String × Json)}
      (rest : Fills keys slots members) : Fills (key :: keys) (none :: slots) members

namespace Fills

variable {key : Key} {keys keys' : List Key} {slots slots' : List (Option Json)}
  {members members' : List (String × Json)}

theorem append (h : Fills keys slots members) (h' : Fills keys' slots' members') :
    Fills (keys ++ keys') (slots ++ slots') (members ++ members') := by
  induction h with
  | nil => exact h'
  | written known fits _ ih => exact .written known fits ih
  | leftOut _ ih => exact .leftOut ih

theorem length_eq (h : Fills keys slots members) : slots.length = keys.length := by
  induction h with
  | nil => rfl
  | written _ _ _ ih => exact congrArg (· + 1) ih
  | leftOut _ ih => exact congrArg (· + 1) ih

theorem found_cons (key : Key) (name : String) (r : Reading)
    (rest : List (Option String × Reading)) :
    key.found ((some name, r) :: rest) = key.found [(some name, r)] ++ key.found rest :=
  Fields.found_append key [(some name, r)] rest

theorem found_eq_nil (h : Fills keys slots members)
    (other : ∀ key' ∈ keys, ∀ name ∈ key.names, name ∉ key'.names) :
    key.found (ofMembers members) = [] := by
  induction h with
  | nil => rfl
  | written known _ _ ih =>
    obtain ⟨first, others⟩ := List.forall_mem_cons.1 other
    rw [ofMembers, found_cons, Fields.found_of_notMem fun hn => first _ hn known, ih others]
    rfl
  | leftOut _ ih => exact ih (List.forall_mem_cons.1 other).2

theorem found_cons_of_other {name : String} (other : name ∉ key.names) (j : Json)
    (members : List (String × Json)) :
    key.found (ofMembers ((name, j) :: members)) = key.found (ofMembers members) := by
  rw [ofMembers, found_cons, Fields.found_of_notMem other]
  rfl

/-- Each field finds what was written for it, and nothing else. -/
theorem found (h : Fills keys slots members) (disjoint : DisjointKeys keys) :
    keys.map (fun key => key.found (ofMembers members)) =
      slots.map fun slot => (slot.map ofJson).toList := by
  induction h with
  | nil => rfl
  | @written key keys slots members name j known _ rest ih =>
    obtain ⟨own, disjoint⟩ := List.pairwise_cons.1 disjoint
    have others : keys.map (fun key' => key'.found (ofMembers ((name, j) :: members))) =
        keys.map fun key' => key'.found (ofMembers members) :=
      List.map_congr_left fun key' hk => found_cons_of_other (own key' hk name known) j members
    rw [List.map_cons, List.map_cons, others, ih disjoint, ofMembers, found_cons,
      Fields.found_of_mem known, rest.found_eq_nil own]
    rfl
  | leftOut rest ih =>
    obtain ⟨own, disjoint⟩ := List.pairwise_cons.1 disjoint
    rw [List.map_cons, List.map_cons, ih disjoint, rest.found_eq_nil own]
    rfl

theorem accepts (h : Fills keys slots members) (disjoint : DisjointKeys keys) :
    ∀ key ∈ keys, Fields.Accepts key (ofMembers members) := by
  induction h with
  | nil => nofun
  | @written key keys slots members name j known fits rest ih =>
    obtain ⟨own, disjoint⟩ := List.pairwise_cons.1 disjoint
    refine List.forall_mem_cons.2 ⟨?_, fun key' hk => ?_⟩
    · rw [Fields.Accepts, ofMembers, found_cons, Fields.found_of_mem known, rest.found_eq_nil own]
      exact ⟨Nat.le_refl 1, List.forall_mem_singleton.2 fits⟩
    · rw [Fields.Accepts, found_cons_of_other (own key' hk name known)]
      exact ih disjoint key' hk
  | leftOut rest ih =>
    obtain ⟨own, disjoint⟩ := List.pairwise_cons.1 disjoint
    refine List.forall_mem_cons.2 ⟨?_, ih disjoint⟩
    rw [Fields.Accepts, rest.found_eq_nil own]
    exact ⟨Nat.zero_le 1, nofun⟩

end Fills

namespace Fields

variable {α β : Type} {x : Fields α} {y : Fields β} {a : α} {b : β} {d : Decoder α} {j : Json}
  {members members' : List (String × Json)}

/-- Members in which the fields find a value. -/
def Writes (x : Fields α) (a : α) (members : List (String × Json)) : Prop :=
  ∃ slots, Fills x.keys slots members ∧ x.build (slots.map (Option.map ofJson)) = .ok a

theorem writes_single {name : String} {names : List String} {mayEnd : Bool}
    {absent : Except Fault α} (known : name ∈ names)
    (h : d (ofJson j) = .ok a) : (single names d mayEnd absent).Writes a [(name, j)] := by
  refine ⟨[some j], .written known ?_ .nil, h⟩
  simp only [h]
  rfl

theorem writes_required (name : String) (h : d (ofJson j) = .ok a) :
    (required name d).Writes a [(name, j)] :=
  writes_single List.mem_cons_self h

theorem writes_withDefault (name : String) (default : α) (h : d (ofJson j) = .ok a) :
    (withDefault name d default).Writes a [(name, j)] :=
  writes_single List.mem_cons_self h

theorem writes_optional (name : String) {a? : Option α} (h : Decode.nullable d (ofJson j) = .ok a?) :
    (optional name d).Writes a? [(name, j)] :=
  writes_single List.mem_cons_self h

/-- Of several names the first is the one that is written. -/
theorem writes_optionalTail (name : String) (others : List String) {a? : Option α}
    (h : Decode.nullable d (ofJson j) = .ok a?) :
    (optionalTail (name :: others) d).Writes a? [(name, j)] :=
  writes_single List.mem_cons_self h

theorem writes_leftOut (names : List String) (d : Decoder α) : (optionalTail names d).Writes none [] :=
  ⟨[none], .leftOut .nil, rfl⟩

theorem Writes.and (hx : x.Writes a members) (hy : y.Writes b members') :
    (x.and y).Writes (a, b) (members ++ members') := by
  obtain ⟨slots, fills, built⟩ := hx
  obtain ⟨slots', fills', built'⟩ := hy
  refine ⟨slots ++ slots', fills.append fills', ?_⟩
  have length : (slots.map (Option.map ofJson)).length = x.keys.length := by
    rw [List.length_map, fills.length_eq]
  change (x.build _ >>= fun _ => _) = _
  rw [List.map_append, ← length, List.take_left, List.drop_left, built, built']
  rfl

theorem Writes.map (hx : x.Writes a members) (f : α → β) : (x.map f).Writes (f a) members := by
  obtain ⟨slots, fills, built⟩ := hx
  refine ⟨slots, fills, ?_⟩
  change (x.build _).map f = _
  rw [built]
  rfl

/-- A value is read from the object in which it is written. -/
theorem Writes.decode (h : x.Writes a members) (disjoint : DisjointKeys x.keys) :
    x.decode (ofJson (.object members)) = .ok a := by
  obtain ⟨slots, fills, built⟩ := h
  have heads : x.keys.map (fun key => (key.found (ofMembers members)).head?) =
      slots.map (Option.map ofJson) := by
    have found := congrArg (List.map List.head?) (fills.found disjoint)
    rw [List.map_map, List.map_map] at found
    refine found.trans (List.map_congr_left fun slot _ => ?_)
    cases slot <;> rfl
  have keys : ∀ m ∈ ofMembers members, m.1 ≠ none := by
    clear * -
    induction members with
    | nil => nofun
    | cons m members ih => exact List.forall_mem_cons.2 ⟨Option.some_ne_none _, ih⟩
  rw [ofJson, decode_object_iff x disjoint, heads]
  exact ⟨rfl, keys, fills.accepts disjoint, built⟩

end Fields

/-! ### Values of fields -/

namespace Decode

variable {α : Type} {d : Decoder α} {write : α → Json}

theorem text_ofJson (s : String) : text (ofJson (.text s)) = .ok s := rfl

theorem nullable_ofJson {j : Json} {a : α} (h : d (ofJson j) = .ok a) (there : ofJson j ≠ .null) :
    nullable d (ofJson j) = .ok (some a) := by
  unfold nullable
  split
  · contradiction
  · rw [h]
    rfl

theorem textOrNull_ofJson (s? : Option String) : nullable text (ofJson (.textOrNull s?)) = .ok s? := by
  cases s? <;> rfl

def IsInt64 (n : Int) : Prop :=
  -1 - Text.maxSigned64 ≤ n ∧ n ≤ Text.maxSigned64

instance (n : Int) : Decidable (IsInt64 n) := inferInstanceAs (Decidable (_ ∧ _))

theorem int64_ofJson {n : Int} (h : IsInt64 n) : int64 (ofJson (.integer n)) = .ok n :=
  if_pos h

theorem int64OrNull_ofJson {n? : Option Int} (h : ∀ n ∈ n?, IsInt64 n) :
    nullable int64 (ofJson (.integerOrNull n?)) = .ok n? := by
  cases n? with
  | none => rfl
  | some n => exact nullable_ofJson (int64_ofJson (h n rfl)) nofun

theorem nat_ofJson {n high : Nat} (h : n ≤ high) : nat high (ofJson (.nat n)) = .ok n := by
  have range : (0 : Int) ≤ n ∧ (n : Int) ≤ high := ⟨Int.natCast_nonneg n, Int.ofNat_le.2 h⟩
  change (if (0 : Int) ≤ n ∧ (n : Int) ≤ high then Except.ok (n : Int) else _).map Int.toNat = _
  rw [if_pos range]
  rfl

theorem uint16_ofJson (n : UInt16) : uint16 (ofJson (.nat n.toNat)) = .ok n := by
  rw [uint16, nat_ofJson (Nat.le_of_lt_succ n.toNat_lt)]
  exact congrArg Except.ok UInt16.ofNat_toNat

theorem bool_ofJson (b : Bool) : bool (ofJson (.bool b)) = .ok b := rfl

theorem uint16OrNull_ofJson (n? : Option UInt16) :
    nullable uint16 (ofJson (.integerOrNull (n?.map fun n => (n.toNat : Int)))) = .ok n? := by
  cases n? with
  | none => rfl
  | some n => exact nullable_ofJson (uint16_ofJson n) nofun

theorem uint64_ofJson (n : UInt64) :
    (nat Text.maxUnsigned64 (ofJson (.nat n.toNat))).map UInt64.ofNat = .ok n := by
  have fits : n.toNat ≤ Text.maxUnsigned64 := Nat.le_of_lt_succ n.toNat_lt
  rw [nat_ofJson fits]
  exact congrArg Except.ok UInt64.ofNat_toNat

theorem items_ofItems {l : List α} (h : ∀ a ∈ l, d (ofJson (write a)) = .ok a) :
    items d (ofItems (l.map write)) = .ok l := by
  induction l with
  | nil => rfl
  | cons a l ih =>
    obtain ⟨first, rest⟩ := List.forall_mem_cons.1 h
    rw [List.map_cons, ofItems, items, first, ih rest]
    rfl

theorem list_ofJson {l : List α} (h : ∀ a ∈ l, d (ofJson (write a)) = .ok a) :
    list d (ofJson (.array (l.map write))) = .ok l := by
  rw [ofJson, list, items_ofItems h]
  rfl

theorem texts_ofJson (l : List String) : list text (ofJson (.texts l)) = .ok l :=
  list_ofJson fun s _ => text_ofJson s

theorem word_ofJson {named : String → Option α} {s : String} {a : α} (h : named s = some a) :
    word named (ofJson (.text s)) = .ok a := by
  rw [ofJson, word, h]

end Decode

end Json
end ContainerBuild
