import Mathlib.Data.List.Sort
import ContainerBuild.Archive.Walk
import ContainerBuild.Proofs.Archive.Unpacking
import ContainerBuild.Proofs.FileTree.Enumeration

/-!
# Depth-first order

Places in ascending order are in depth-first order: what lies below a place comes right after it, before
anything else, and what lies in one directory is in the order of the names. A walk that visits the children
of a directory in turn, each with all that lies below it, comes to what lies below the directory in that
order.
-/

namespace ContainerBuild
namespace FileTree

variable {t : FileTree} {p q : Place} {n : Name} {x : FileNode}

/-- Places in depth-first order: none comes twice, neighbours are in the order of their names, and what lies
below a place is what comes right after it. -/
structure DepthFirst (l : List Place) : Prop where
  once : l.Nodup
  neighbours : ∀ before q a after b, l = before ++ (q ++ [a]) :: after → q ++ [b] ∈ after → a < b
  subtree : ∀ before q after, l = before ++ q :: after → ∃ inside rest, after = inside ++ rest ∧
    (∀ p ∈ inside, q <+: p) ∧ ∀ p ∈ before ++ rest, ¬q <+: p

/-- In ascending order the places below one come right after it. -/
theorem exists_subtree {after : List Place} (greater : ∀ p ∈ after, q < p)
    (sorted : after.Pairwise (· < ·)) : ∃ inside rest, after = inside ++ rest ∧
      (∀ p ∈ inside, q <+: p) ∧ ∀ p ∈ rest, ¬q <+: p := by
  induction after with
  | nil => exact ⟨[], [], rfl, nofun, nofun⟩
  | cons first after ih =>
    obtain ⟨here, greater⟩ := List.forall_mem_cons.1 greater
    obtain ⟨least, sorted⟩ := List.pairwise_cons.1 sorted
    by_cases below : q <+: first
    · obtain ⟨inside, rest, rfl, hin, hout⟩ := ih greater sorted
      exact ⟨first :: inside, rest, rfl, List.forall_mem_cons.2 ⟨below, hin⟩, hout⟩
    · refine ⟨[], first :: after, rfl, nofun, List.forall_mem_cons.2 ⟨below, fun p hp => ?_⟩⟩
      rintro ⟨more, rfl⟩
      -- The first place would lie between the directory and something in it.
      obtain ⟨q', -, rfl⟩ := exists_append_of_lt here (Std.le_of_lt (least _ hp))
      exact below (List.prefix_append q q')

theorem depthFirst_of_sorted {l : List Place} (sorted : l.Pairwise (· < ·)) : DepthFirst l := by
  refine ⟨sorted.imp fun less same => ?_, ?_, ?_⟩
  · exact Std.lt_irrefl (same ▸ less)
  · rintro before q a after b rfl hb
    obtain ⟨-, later, -⟩ := List.pairwise_append.1 sorted
    have less := append_lt_append_iff.1 ((List.pairwise_cons.1 later).1 _ hb)
    rcases List.cons_lt_cons_iff.1 less with less | ⟨-, less⟩
    · exact less
    · exact absurd less (List.not_lt_nil _)
  · rintro before q after rfl
    obtain ⟨-, later, earlier⟩ := List.pairwise_append.1 sorted
    obtain ⟨greater, later⟩ := List.pairwise_cons.1 later
    obtain ⟨inside, rest, rfl, hin, hout⟩ := exists_subtree greater later
    refine ⟨inside, rest, rfl, hin, fun p hp => ?_⟩
    rcases List.mem_append.1 hp with hp | hp
    · rintro ⟨more, rfl⟩
      have less : q ++ more < q := earlier _ hp q List.mem_cons_self
      rcases eq_or_ne more [] with rfl | hm
      · rw [List.append_nil] at less
        exact Std.lt_irrefl less
      · exact Std.lt_irrefl (Std.lt_trans less (lt_append hm))
    · exact hout p hp

theorem depthFirst_below (t : FileTree) (p : Place) : DepthFirst ((t.below p).map Prod.fst) :=
  depthFirst_of_sorted (List.pairwise_map.2 (pairwise_below t p))

/-! ### Children -/

theorem mem_children_iff : (n, x) ∈ t.children p ↔ t.node? (p ++ [n]) = some x := by
  constructor
  · intro h
    obtain ⟨⟨q, y⟩, hq, found⟩ := List.mem_filterMap.1 h
    simp only at found
    split at found
    · cases found
      exact (mem_below_iff.1 hq).2
    · cases found
  · intro h
    exact List.mem_filterMap.2 ⟨([n], x), mem_below_iff.2 ⟨List.cons_ne_nil _ _, h⟩, rfl⟩

theorem pairwise_children (t : FileTree) (p : Place) :
    (t.children p).Pairwise fun a b => a.1 < b.1 := by
  refine List.Pairwise.filterMap _ ?_ (pairwise_below t p)
  rintro ⟨q, x⟩ ⟨q', x'⟩ less c hc c' hc'
  simp only at hc hc'
  split at hc
  · split at hc'
    · cases hc
      cases hc'
      rcases List.cons_lt_cons_iff.1 less with less | ⟨-, less⟩
      · exact less
      · exact absurd less (List.not_lt_nil _)
    · cases hc'
  · cases hc

/-- A child with all that lies below it, seen from its directory. -/
def branch (t : FileTree) (p : Place) (c : Name × FileNode) : List (Place × FileNode) :=
  ([c.1], c.2) :: (t.below (p ++ [c.1])).map fun (q, x) => (c.1 :: q, x)

theorem mem_branch_iff {c : Name × FileNode} : (q, x) ∈ t.branch p c ↔
    (q, x) = ([c.1], c.2) ∨ ∃ q', q = c.1 :: q' ∧ q' ≠ [] ∧ t.node? (p ++ q) = some x := by
  rw [branch, List.mem_cons, List.mem_map]
  refine or_congr_right ⟨?_, ?_⟩
  · rintro ⟨⟨q', y⟩, hq, he⟩
    obtain ⟨rfl, rfl⟩ := Prod.mk.inj he
    obtain ⟨hne, hx⟩ := mem_below_iff.1 hq
    exact ⟨q', rfl, hne, by rwa [List.append_assoc] at hx⟩
  · rintro ⟨q', rfl, hne, hx⟩
    refine ⟨(q', x), mem_below_iff.2 ⟨hne, ?_⟩, rfl⟩
    rwa [List.append_assoc]

theorem head_of_mem_branch {c : Name × FileNode} {e : Place × FileNode} (h : e ∈ t.branch p c) :
    ∃ q', e.1 = c.1 :: q' := by
  rcases List.mem_cons.1 h with rfl | h
  · exact ⟨[], rfl⟩
  · obtain ⟨⟨q', x⟩, -, rfl⟩ := List.mem_map.1 h
    exact ⟨q', rfl⟩

theorem pairwise_branch (t : FileTree) (p : Place) (c : Name × FileNode) :
    (t.branch p c).Pairwise fun a b => a.1 < b.1 := by
  have below : ((t.below (p ++ [c.1])).map fun (q, x) => (c.1 :: q, x)).Pairwise fun a b => a.1 < b.1 := by
    refine List.pairwise_map.2 ((pairwise_below t (p ++ [c.1])).imp fun less => ?_)
    exact List.cons_lt_cons_iff.2 (.inr ⟨rfl, less⟩)
  refine List.pairwise_cons.2 ⟨fun e he => ?_, below⟩
  obtain ⟨⟨q, x⟩, hq, rfl⟩ := List.mem_map.1 he
  exact lt_append (p := [c.1]) (mem_below_iff.1 hq).1

/-- What lies below a directory of a well-formed tree is what its children and their branches are. -/
theorem below_eq_flatMap (wellFormed : t.WellFormed) (p : Place) :
    t.below p = (t.children p).flatMap (t.branch p) := by
  have sorted : ((t.children p).flatMap (t.branch p)).Pairwise fun a b => a.1 < b.1 := by
    refine List.pairwise_flatMap.2 ⟨fun c _ => pairwise_branch t p c, ?_⟩
    refine (pairwise_children t p).imp fun {c c'} less e he e' he' => ?_
    obtain ⟨q, hq⟩ := head_of_mem_branch he
    obtain ⟨q', hq'⟩ := head_of_mem_branch he'
    rw [hq, hq']
    exact List.cons_lt_cons_iff.2 (.inl less)
  refine List.Pairwise.eq_of_mem_iff (pairwise_below t p) sorted ?_
  rintro ⟨q, x⟩
  rw [mem_below_iff, List.mem_flatMap]
  constructor
  · rintro ⟨hq, hx⟩
    obtain ⟨n, q, rfl⟩ := List.exists_cons_of_ne_nil hq
    by_cases hne : q = []
    · subst hne
      exact ⟨(n, x), mem_children_iff.2 hx, mem_branch_iff.2 (.inl rfl)⟩
    · have there : t.node? (p ++ [n] ++ q) ≠ none := by simp [hx]
      obtain ⟨mode, hm⟩ := isDirectoryAt_iff.1 (wellFormed.isDirectoryAt there hne)
      exact ⟨(n, .directory mode), mem_children_iff.2 hm, mem_branch_iff.2 (.inr ⟨q, rfl, hne, hx⟩)⟩
  · rintro ⟨⟨n, y⟩, hc, hb⟩
    rcases mem_branch_iff.1 hb with he | ⟨q', rfl, -, hx⟩
    · obtain ⟨rfl, rfl⟩ := Prod.mk.inj he
      exact ⟨List.cons_ne_nil _ _, mem_children_iff.1 hc⟩
    · exact ⟨List.cons_ne_nil _ _, hx⟩

end FileTree
end ContainerBuild
