import ContainerBuild.FileTree

/-!
# Listing a tree

What lies below a place is listed completely, each place once, and a directory before all that lies in
it.
-/

namespace ContainerBuild

namespace Dictionary

variable {κ α : Type} [LT κ] [BEq κ] [LawfulBEq κ] [LE κ] [Std.LawfulOrderLT κ]

theorem find?_of_mem {l : List (κ × α)} (sorted : l.Pairwise fun a b => a.1 < b.1) {key : κ}
    {value : α} (h : (key, value) ∈ l) : l.find? (fun e => e.1 == key) = some (key, value) := by
  induction l with
  | nil => cases h
  | cons first rest ih =>
    obtain ⟨less, sorted⟩ := List.pairwise_cons.1 sorted
    rcases List.mem_cons.1 h with rfl | h
    · rw [List.find?_cons, beq_self_eq_true]
    · have ne : (first.1 == key) = false := by
        refine beq_false_of_ne fun he => ?_
        exact Std.lt_irrefl (he ▸ less _ h)
      rw [List.find?_cons, ne]
      exact ih sorted h

theorem get?_eq_some_iff {d : Dictionary κ α} {key : κ} {value : α} :
    d.get? key = some value ↔ (key, value) ∈ d.entries := by
  unfold get?
  constructor
  · intro h
    obtain ⟨⟨k, v⟩, hf, rfl⟩ := Option.map_eq_some_iff.1 h
    obtain rfl : k = key := by simpa using List.find?_some hf
    exact List.mem_of_find?_eq_some hf
  · intro h
    rw [find?_of_mem d.sorted h]
    rfl

end Dictionary

namespace FileTree

variable {t : FileTree} {p q r : Place} {n : FileNode}

theorem append_lt_append_iff : r ++ p < r ++ q ↔ p < q := by
  induction r with
  | nil => rfl
  | cons x r ih =>
    rw [List.cons_append, List.cons_append, List.cons_lt_cons_iff, ih]
    constructor
    · rintro (h | ⟨-, h⟩)
      · exact absurd h Std.lt_irrefl
      · exact h
    · exact fun h => .inr ⟨rfl, h⟩

theorem lt_append (h : q ≠ []) : p < p ++ q := by
  have := (append_lt_append_iff (r := p) (p := []) (q := q)).2
  rw [List.append_nil] at this
  obtain ⟨x, q, rfl⟩ := List.exists_cons_of_ne_nil h
  exact this (List.nil_lt_cons x q)

/-- What is listed after a place and not after all that lies below it lies below it. -/
theorem exists_append_of_lt (h : p < r) (hr : r ≤ p ++ q) : ∃ q', q' ≠ [] ∧ r = p ++ q' := by
  induction p generalizing r with
  | nil =>
    refine ⟨r, ?_, rfl⟩
    rintro rfl
    exact Std.lt_irrefl h
  | cons x p ih =>
    cases r with
    | nil => exact absurd h (List.not_lt_nil _)
    | cons y r =>
      rcases List.cons_lt_cons_iff.1 h with less | ⟨rfl, after⟩
      · have more : x :: (p ++ q) < y :: r := List.cons_lt_cons_iff.2 (.inl less)
        exact absurd hr (Std.not_le.2 more)
      · have hr' : r ≤ p ++ q := by
          refine Std.not_lt.1 fun less => ?_
          exact Std.not_le.2 (List.cons_lt_cons_iff.2 (.inr ⟨rfl, less⟩)) hr
        obtain ⟨q', hq', rfl⟩ := ih after hr'
        exact ⟨q', hq', rfl⟩

theorem of_below {e : Place × FileNode} {l : Place × FileNode}
    (h : (if p.isPrefixOf e.1 && e.1.length > p.length then some (e.1.drop p.length, e.2)
      else none) = some l) : e = (p ++ l.1, l.2) ∧ l.1 ≠ [] := by
  split at h
  · rename_i hc
    obtain rfl := Option.some.inj h
    obtain ⟨hp, hl⟩ : p.isPrefixOf e.1 = true ∧ p.length < e.1.length := by simpa using hc
    obtain ⟨q, hq⟩ := List.isPrefixOf_iff_prefix.1 hp
    rw [← hq] at hl ⊢
    rw [List.drop_left]
    refine ⟨Prod.ext hq.symm rfl, ?_⟩
    rintro rfl
    simp at hl
  · cases h

theorem mem_below_iff : (q, n) ∈ t.below p ↔ q ≠ [] ∧ t.node? (p ++ q) = some n := by
  have inside (hq : q ≠ []) : t.node? (p ++ q) = t.nodes.get? (p ++ q) :=
    if_neg (by simp [hq])
  constructor
  · intro h
    obtain ⟨e, he, hl⟩ := List.mem_filterMap.1 h
    obtain ⟨rfl, hq⟩ := of_below hl
    exact ⟨hq, (inside hq).trans (Dictionary.get?_eq_some_iff.2 he)⟩
  · rintro ⟨hq, h⟩
    rw [inside hq, Dictionary.get?_eq_some_iff] at h
    refine List.mem_filterMap.2 ⟨_, h, ?_⟩
    have hp : p.isPrefixOf (p ++ q) = true := List.isPrefixOf_iff_prefix.2 (List.prefix_append p q)
    have hl : p.length < (p ++ q).length := by
      have := List.length_pos_iff.2 hq
      rw [List.length_append]
      omega
    simp only [hp, Bool.true_and, decide_eq_true_eq, gt_iff_lt, if_pos hl, List.drop_left]

theorem pairwise_below (t : FileTree) (p : Place) :
    (t.below p).Pairwise fun a b => a.1 < b.1 := by
  refine List.Pairwise.filterMap _ (fun a a' h b hb b' hb' => ?_) t.nodes.sorted
  obtain ⟨rfl, -⟩ := of_below hb
  obtain ⟨rfl, -⟩ := of_below hb'
  exact append_lt_append_iff.1 h

/-- What is listed before a place: everything on the way to it, and not the place itself. -/
theorem mem_before {l : List (Place × FileNode)} {more : List (Place × FileNode)}
    (h : t.below p = l ++ (q, n) :: more) :
    (∀ x y, y ≠ [] → x ++ y = q → ∀ m, (x, m) ∈ t.below p → (x, m) ∈ l) ∧ ∀ m, (q, m) ∉ l := by
  have sorted := pairwise_below t p
  rw [h] at sorted
  obtain ⟨-, after, before⟩ := List.pairwise_append.1 sorted
  refine ⟨fun x y hy hq m hm => ?_, fun m hm => ?_⟩
  · have less : x < q := hq ▸ lt_append hy
    rw [h] at hm
    rcases List.mem_append.1 hm with hm | hm
    · exact hm
    rcases List.mem_cons.1 hm with he | hm
    · obtain ⟨rfl, -⟩ := Prod.mk.inj he
      exact absurd less Std.lt_irrefl
    · have := (List.pairwise_cons.1 after).1 _ hm
      exact absurd (Std.lt_trans less this) Std.lt_irrefl
  · exact Std.lt_irrefl (before (q, m) hm (q, n) List.mem_cons_self)

end FileTree
end ContainerBuild
