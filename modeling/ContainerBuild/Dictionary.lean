/-!
# Dictionaries

A dictionary gives values to keys of a linear order. Its entries are in ascending order of their keys,
so there is at most one entry for a key and equal contents make equal dictionaries.
-/

namespace ContainerBuild

structure Dictionary (κ α : Type) [LT κ] where
  entries : List (κ × α)
  sorted : entries.Pairwise fun a b => a.1 < b.1

namespace Dictionary

variable {κ α : Type} [LT κ]

def empty : Dictionary κ α :=
  ⟨[], List.Pairwise.nil⟩

instance : Inhabited (Dictionary κ α) := ⟨empty⟩

def keys (d : Dictionary κ α) : List κ :=
  d.entries.map Prod.fst

def size (d : Dictionary κ α) : Nat :=
  d.entries.length

def get? [BEq κ] (d : Dictionary κ α) (key : κ) : Option α :=
  (d.entries.find? fun e => e.1 == key).map Prod.snd

@[simp] theorem get?_empty [BEq κ] (key : κ) : (empty : Dictionary κ α).get? key = none := rfl

def contains [BEq κ] (d : Dictionary κ α) (key : κ) : Bool :=
  d.keys.contains key

def filter (d : Dictionary κ α) (p : κ → Bool) : Dictionary κ α :=
  ⟨d.entries.filter fun e => p e.1, d.sorted.filter _⟩

def erase [BEq κ] (d : Dictionary κ α) (key : κ) : Dictionary κ α :=
  d.filter fun k => !(k == key)

theorem get?_erase [BEq κ] [LawfulBEq κ] (d : Dictionary κ α) (key k : κ) :
    (d.erase key).get? k = if key == k then none else d.get? k := by
  simp only [get?, erase, filter, List.find?_filter]
  by_cases h : key = k
  · subst h
    simp
  · have hne : (fun e : κ × α => !(e.1 == key) && e.1 == k) = fun e => e.1 == k := by
      funext e
      by_cases hk : e.1 = k
      · simp [hk, Ne.symm h]
      · simp [hk]
    simp [h, hne]

variable [DecidableLT κ]

/-- Puts an entry where its key belongs, in place of an entry that has the key already. -/
def insertEntry (key : κ) (value : α) : List (κ × α) → List (κ × α)
  | [] => [(key, value)]
  | (k, v) :: rest =>
    if key < k then (key, value) :: (k, v) :: rest
    else if k < key then (k, v) :: insertEntry key value rest
    else (key, value) :: rest

theorem mem_insertEntry {key : κ} {value : α} {e : κ × α} {l : List (κ × α)}
    (h : e ∈ insertEntry key value l) : e = (key, value) ∨ e ∈ l := by
  induction l with
  | nil => exact Or.inl (by simpa [insertEntry] using h)
  | cons first rest ih =>
    obtain ⟨k, v⟩ := first
    unfold insertEntry at h
    split at h
    · simpa using h
    · split at h
      · rcases List.mem_cons.1 h with rfl | h
        · exact Or.inr (by simp)
        · exact (ih h).imp_right (List.mem_cons_of_mem _)
      · rcases List.mem_cons.1 h with rfl | h
        · exact Or.inl rfl
        · exact Or.inr (List.mem_cons_of_mem _ h)

variable [LE κ] [Std.IsLinearOrder κ] [Std.LawfulOrderLT κ]

theorem sorted_insertEntry (key : κ) (value : α) {l : List (κ × α)}
    (h : l.Pairwise fun a b => a.1 < b.1) :
    (insertEntry key value l).Pairwise fun a b => a.1 < b.1 := by
  induction l with
  | nil => simp [insertEntry]
  | cons first rest ih =>
    obtain ⟨k, v⟩ := first
    obtain ⟨hk, hrest⟩ := List.pairwise_cons.1 h
    unfold insertEntry
    split
    · rename_i hlt
      refine List.pairwise_cons.2 ⟨fun e he => ?_, h⟩
      rcases List.mem_cons.1 he with rfl | he
      · exact hlt
      · exact Std.lt_trans hlt (hk e he)
    · split
      · rename_i hlt
        refine List.pairwise_cons.2 ⟨fun e he => ?_, ih hrest⟩
        rcases mem_insertEntry he with rfl | he
        · exact hlt
        · exact hk e he
      · rename_i h1 h2
        have : key = k := Std.le_antisymm (Std.not_lt.1 h2) (Std.not_lt.1 h1)
        subst this
        exact List.pairwise_cons.2 ⟨hk, hrest⟩

def insert (d : Dictionary κ α) (key : κ) (value : α) : Dictionary κ α :=
  ⟨insertEntry key value d.entries, sorted_insertEntry key value d.sorted⟩

@[simp] theorem entries_insert (d : Dictionary κ α) (key : κ) (value : α) :
    (d.insert key value).entries = insertEntry key value d.entries :=
  rfl

theorem find?_insertEntry [BEq κ] [LawfulBEq κ] (key k : κ) (value : α) (l : List (κ × α)) :
    (insertEntry key value l).find? (fun e => e.1 == k) =
      if key == k then some (key, value) else l.find? fun e => e.1 == k := by
  induction l with
  | nil =>
    by_cases h : key = k <;> simp [insertEntry, h]
  | cons first rest ih =>
    obtain ⟨k', v⟩ := first
    unfold insertEntry
    split
    · by_cases h : key = k <;> simp [List.find?_cons, h]
    · split
      · rename_i h1 h2
        by_cases h : k' = k
        · subst h
          have hne : key ≠ k' := fun h => Std.lt_irrefl (h ▸ h2)
          simp [hne]
        · simp [h, ih]
      · rename_i h1 h2
        have hk : key = k' := Std.le_antisymm (Std.not_lt.1 h2) (Std.not_lt.1 h1)
        subst hk
        by_cases h : key = k <;> simp [h]

theorem get?_insert [BEq κ] [LawfulBEq κ] (d : Dictionary κ α) (key k : κ) (value : α) :
    (d.insert key value).get? k = if key == k then some value else d.get? k := by
  unfold get?
  rw [entries_insert, find?_insertEntry]
  split <;> rfl

/-- The entries one after another; of several with one key the last counts. -/
def insertAll (d : Dictionary κ α) (l : List (κ × α)) : Dictionary κ α :=
  l.foldl (fun d e => d.insert e.1 e.2) d

def ofList (l : List (κ × α)) : Dictionary κ α :=
  empty.insertAll l

end Dictionary
end ContainerBuild
