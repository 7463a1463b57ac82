import ContainerBuild.Json.Record
import ContainerBuild.Proofs.Traversal

/-!
# When a record can be read

An object is read as a record if every key is a text, no field is there twice and every value that a
field has is one it may have; each field then gets its value, wherever it stands among the members. An
array is read if it has no more items than there are fields and only fields that may be absent are left.
-/

namespace ContainerBuild
namespace Json

/-- The values that the members of an object have for a field. -/
def Key.found (key : Key) (members : List (Option String × Reading)) : List Reading :=
  members.filterMap fun (name, r) =>
    if name.any fun name => key.names.contains name then some r else none

/-- No name belongs to two of the fields. -/
def DisjointKeys (keys : List Key) : Prop :=
  keys.Pairwise fun key key' => ∀ name ∈ key.names, name ∉ key'.names

namespace Fields

variable {α : Type} {keys : List Key} {name : String} {r : Reading}
  {filled : List (Option Reading)} {g : Key → Option Reading}
  {members before : List (Option String × Reading)} {items : List Reading}

theorem found_append (key : Key) (before members : List (Option String × Reading)) :
    key.found (before ++ members) = key.found before ++ key.found members :=
  List.filterMap_append

theorem found_of_mem {key : Key} (h : name ∈ key.names) (r : Reading) :
    key.found [(some name, r)] = [r] := by
  simp [Key.found, h]

theorem found_of_notMem {key : Key} (h : name ∉ key.names) (r : Reading) :
    key.found [(some name, r)] = [] := by
  simp [Key.found, h]

theorem fillSlot_cons (name : String) (r : Reading) (key : Key) (keys : List Key)
    (slot : Option Reading) (slots : List (Option Reading)) :
    fillSlot name r (key :: keys) (slot :: slots) =
      if key.names.contains name then
        match slot with
        | some _ => .error .mismatch
        | none => key.check r >>= fun _ => .ok (some r :: slots)
      else fillSlot name r keys slots >>= fun filled => .ok (slot :: filled) :=
  rfl

/-- A value is put into the slots of the fields with its name, which must be empty. -/
theorem fillSlot_eq_ok_iff (disjoint : DisjointKeys keys) :
    fillSlot name r keys (keys.map g) = .ok filled ↔
      (∀ key ∈ keys, name ∈ key.names → g key = none ∧ key.check r = .ok ()) ∧
        filled = keys.map fun key => if name ∈ key.names then some r else g key := by
  induction keys generalizing filled with
  | nil => simp [fillSlot, eq_comm]
  | cons key keys ih =>
    obtain ⟨hkey, disjoint⟩ := List.pairwise_cons.1 disjoint
    simp only [List.map_cons, List.forall_mem_cons, fillSlot_cons, List.contains_iff_mem]
    by_cases hn : name ∈ key.names
    · have hothers : ∀ key' ∈ keys, name ∉ key'.names := fun key' hk => hkey key' hk name hn
      have hmap : (keys.map fun key => if name ∈ key.names then some r else g key) = keys.map g :=
        List.map_congr_left fun key' hk => if_neg (hothers key' hk)
      have hvacuous : ∀ key' ∈ keys, name ∈ key'.names → g key' = none ∧ key'.check r = .ok () :=
        fun key' hk h => absurd h (hothers key' hk)
      rw [if_pos hn, if_pos hn, hmap]
      cases hg : g key with
      | some _ => simp [hn]
      | none =>
        dsimp only
        rw [bind_eq_ok_iff]
        constructor
        · rintro ⟨u, hu, h⟩
          exact ⟨⟨fun _ => ⟨rfl, hu⟩, hvacuous⟩, (Except.ok.inj h).symm⟩
        · rintro ⟨⟨h, -⟩, rfl⟩
          exact ⟨(), (h hn).2, rfl⟩
    · rw [if_neg hn, if_neg hn, bind_eq_ok_iff]
      constructor
      · rintro ⟨more, hm, h⟩
        obtain ⟨hrest, rfl⟩ := (ih disjoint).1 hm
        exact ⟨⟨fun h => absurd h hn, hrest⟩, (Except.ok.inj h).symm⟩
      · rintro ⟨⟨-, hrest⟩, rfl⟩
        exact ⟨_, (ih disjoint).2 ⟨hrest, rfl⟩, rfl⟩

/-- Whether the values of a field are one or none, each of which it may have. -/
def Accepts (key : Key) (members : List (Option String × Reading)) : Prop :=
  (key.found members).length ≤ 1 ∧ ∀ v ∈ key.found members, key.check v = .ok ()

theorem accepts_concat_iff {key : Key} :
    Accepts key (before ++ [(some name, r)]) ↔ Accepts key before ∧
      (name ∈ key.names → (key.found before).head? = none ∧ key.check r = .ok ()) := by
  unfold Accepts
  rw [found_append]
  by_cases hn : name ∈ key.names
  · rw [found_of_mem hn]
    cases key.found before <;> simp [hn]
  · rw [found_of_notMem hn, List.append_nil]
    simp [hn]

theorem head?_found_concat {key : Key} (h : name ∈ key.names → (key.found before).head? = none) :
    (key.found (before ++ [(some name, r)])).head? =
      if name ∈ key.names then some r else (key.found before).head? := by
  rw [found_append]
  by_cases hn : name ∈ key.names
  · rw [found_of_mem hn, List.head?_eq_none_iff.1 (h hn), if_pos hn]
    rfl
  · rw [found_of_notMem hn, List.append_nil, if_neg hn]

theorem Accepts.of_append {key : Key} (h : Accepts key (before ++ members)) : Accepts key before := by
  obtain ⟨hlen, hcheck⟩ := h
  rw [found_append] at hlen hcheck
  rw [List.length_append] at hlen
  exact ⟨by omega, fun v hv => hcheck v (List.mem_append_left _ hv)⟩

theorem fillSlot_found_iff (disjoint : DisjointKeys keys)
    (accepts : ∀ key ∈ keys, Accepts key before) :
    fillSlot name r keys (keys.map fun key => (key.found before).head?) = .ok filled ↔
      (∀ key ∈ keys, Accepts key (before ++ [(some name, r)])) ∧
        filled = keys.map fun key => (key.found (before ++ [(some name, r)])).head? := by
  rw [fillSlot_eq_ok_iff disjoint]
  have hmap (h : ∀ key ∈ keys, name ∈ key.names → (key.found before).head? = none) :
      (keys.map fun key => if name ∈ key.names then some r else (key.found before).head?) =
        keys.map fun key => (key.found (before ++ [(some name, r)])).head? :=
    List.map_congr_left fun key hk => (head?_found_concat (h key hk)).symm
  constructor
  · rintro ⟨h, rfl⟩
    exact ⟨fun key hk => accepts_concat_iff.2 ⟨accepts key hk, h key hk⟩,
      hmap fun key hk hn => (h key hk hn).1⟩
  · rintro ⟨h, rfl⟩
    have hempty := fun key hk => (accepts_concat_iff.1 (h key hk)).2
    exact ⟨hempty, (hmap fun key hk hn => (hempty key hk hn).1).symm⟩

theorem fill_found_iff (disjoint : DisjointKeys keys) (accepts : ∀ key ∈ keys, Accepts key before) :
    fill keys (keys.map fun key => (key.found before).head?) members = .ok filled ↔
      (∀ m ∈ members, m.1 ≠ none) ∧ (∀ key ∈ keys, Accepts key (before ++ members)) ∧
        filled = keys.map fun key => (key.found (before ++ members)).head? := by
  induction members generalizing before with
  | nil =>
    simp only [List.append_nil, fill, Except.ok.injEq]
    constructor
    · rintro rfl
      exact ⟨nofun, accepts, rfl⟩
    · rintro ⟨-, -, rfl⟩
      rfl
  | cons m members ih =>
    obtain ⟨_ | name, r⟩ := m
    · simp [fill]
    have happend : before ++ (some name, r) :: members = before ++ [(some name, r)] ++ members := by
      rw [List.append_assoc, List.singleton_append]
    rw [fill, bind_eq_ok_iff, happend, List.forall_mem_cons]
    constructor
    · rintro ⟨mid, hmid, h⟩
      obtain ⟨haccepts, rfl⟩ := (fillSlot_found_iff disjoint accepts).1 hmid
      obtain ⟨hkeys, hall⟩ := (ih haccepts).1 h
      exact ⟨⟨Option.some_ne_none name, hkeys⟩, hall⟩
    · rintro ⟨⟨-, hkeys⟩, hall, hfilled⟩
      have haccepts : ∀ key ∈ keys, Accepts key (before ++ [(some name, r)]) :=
        fun key hk => (hall key hk).of_append
      exact ⟨_, (fillSlot_found_iff disjoint accepts).2 ⟨haccepts, rfl⟩,
        (ih haccepts).2 ⟨hkeys, hall, hfilled⟩⟩

theorem whole_eq_ok_iff {β : Type} {a b : β} {open? : Option Break} :
    whole a open? = .ok b ↔ open? = none ∧ a = b := by
  cases open? with
  | none => simp
  | some e => simp [whole]

/-- An object is read as a record exactly if it is closed, all keys are texts, and every field
accepts its values. -/
theorem decode_object_iff (x : Fields α) (disjoint : DisjointKeys x.keys) (open? : Option Break)
    (a : α) :
    x.decode (.object members open?) = .ok a ↔
      open? = none ∧ (∀ m ∈ members, m.1 ≠ none) ∧ (∀ key ∈ x.keys, Accepts key members) ∧
        x.build (x.keys.map fun key => (key.found members).head?) = .ok a := by
  have nothing : ∀ key ∈ x.keys, Accepts key [] := fun key _ => ⟨Nat.zero_le 1, nofun⟩
  have hfill (filled : List (Option Reading)) :
      fill x.keys (x.keys.map fun _ => none) members = .ok filled ↔
        (∀ m ∈ members, m.1 ≠ none) ∧ (∀ key ∈ x.keys, Accepts key members) ∧
          filled = x.keys.map fun key => (key.found members).head? :=
    fill_found_iff disjoint nothing
  unfold decode
  simp only [bind_eq_ok_iff, hfill, whole_eq_ok_iff]
  constructor
  · rintro ⟨_, ⟨hkeys, haccepts, rfl⟩, _, ⟨rfl, rfl⟩, h⟩
    exact ⟨rfl, hkeys, haccepts, h⟩
  · rintro ⟨rfl, hkeys, haccepts, h⟩
    exact ⟨_, ⟨hkeys, haccepts, rfl⟩, _, ⟨rfl, rfl⟩, h⟩

/-- The items of an array are read one after another, and the fields that are left may be absent. -/
theorem fillInOrder_eq_ok_iff :
    fillInOrder keys items = .ok filled ↔
      items.length ≤ keys.length ∧ (∀ p ∈ keys.zip items, p.1.check p.2 = .ok ()) ∧
        (∀ key ∈ keys.drop items.length, key.mayEnd = true) ∧
        filled = items.map some ++ List.replicate (keys.length - items.length) none := by
  induction keys generalizing items filled with
  | nil =>
    cases items with
    | nil =>
      constructor
      · intro h
        exact ⟨Nat.le_refl 0, nofun, nofun, (Except.ok.inj h).symm⟩
      · rintro ⟨-, -, -, rfl⟩
        rfl
    | cons r items => exact ⟨nofun, fun h => absurd h.1 (Nat.not_succ_le_zero _)⟩
  | cons key keys ih =>
    cases items with
    | nil =>
      simp only [List.drop_zero, List.length_nil, List.forall_mem_cons] at ih ⊢
      unfold fillInOrder
      by_cases may : key.mayEnd
      · rw [if_pos may, bind_eq_ok_iff]
        constructor
        · rintro ⟨more, hmore, h⟩
          obtain ⟨-, -, hmay, rfl⟩ := ih.1 hmore
          exact ⟨Nat.zero_le _, nofun, ⟨may, hmay⟩, (Except.ok.inj h).symm⟩
        · rintro ⟨-, -, ⟨-, hmay⟩, rfl⟩
          exact ⟨_, ih.2 ⟨Nat.zero_le _, by simp, hmay, rfl⟩, rfl⟩
      · rw [if_neg may]
        exact ⟨nofun, fun h => absurd h.2.2.1.1 may⟩
    | cons r items =>
      unfold fillInOrder
      simp only [bind_eq_ok_iff, ih, List.length_cons, List.zip_cons_cons, List.forall_mem_cons,
        List.drop_succ_cons, List.map_cons, List.cons_append, Nat.succ_le_succ_iff,
        Nat.succ_sub_succ_eq_sub]
      constructor
      · rintro ⟨u, hu, more, ⟨hlen, hcheck, hmay, rfl⟩, h⟩
        exact ⟨hlen, ⟨hu, hcheck⟩, hmay, (Except.ok.inj h).symm⟩
      · rintro ⟨hlen, ⟨hu, hcheck⟩, hmay, rfl⟩
        exact ⟨(), hu, _, ⟨hlen, hcheck, hmay, rfl⟩, rfl⟩

theorem decode_array_iff (x : Fields α) (open? : Option Break) (a : α) :
    x.decode (.array items open?) = .ok a ↔
      open? = none ∧ items.length ≤ x.keys.length ∧
        (∀ p ∈ x.keys.zip items, p.1.check p.2 = .ok ()) ∧
        (∀ key ∈ x.keys.drop items.length, key.mayEnd = true) ∧
        x.build (items.map some ++ List.replicate (x.keys.length - items.length) none) = .ok a := by
  unfold decode
  simp only [bind_eq_ok_iff, fillInOrder_eq_ok_iff, whole_eq_ok_iff]
  constructor
  · rintro ⟨_, ⟨hlen, hcheck, hmay, rfl⟩, _, ⟨rfl, rfl⟩, h⟩
    exact ⟨rfl, hlen, hcheck, hmay, h⟩
  · rintro ⟨rfl, hlen, hcheck, hmay, h⟩
    exact ⟨_, ⟨hlen, hcheck, hmay, rfl⟩, _, ⟨rfl, rfl⟩, h⟩

end Fields
end Json
end ContainerBuild
