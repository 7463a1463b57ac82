import Mathlib.Data.List.Induction
import ContainerBuild.Proofs.Archive.Confinement
import ContainerBuild.Proofs.Archive.Placing
import ContainerBuild.Proofs.FileTree.Enumeration

/-!
# Unpacking members in order

The members of a directory come in the order of their places. When the turn of one comes, everything on
the way to it has been put, and its own place is still free: so all of them are unpacked, and nothing else
is put below the directory. The order is that in which a well-formed tree is listed.
-/

namespace ContainerBuild

open FilePath

/-- What a system guarantees of a tree: what has a place lies in a directory, has a name that a path can
go by, and no more data, permissions and names than there can be. -/
structure FileTree.WellFormed (t : FileTree) : Prop where
  inside : ∀ p n, t.node? (p ++ [n]) ≠ none → t.isDirectoryAt p = true
  name : ∀ p n, t.node? (p ++ [n]) ≠ none → IsName n ∧ 0 ∉ n ∧ n.length ≤ FileTree.maxName
  possible : ∀ p x, p ≠ [] → t.node? p = some x → x.Possible
  reach : ∀ p, t.node? p ≠ none → breadth p ≤ Text.maxSigned64

namespace FileTree.WellFormed

variable {t : FileTree} {p q : Place} {x : FileNode}

theorem isDirectoryAt (h : t.WellFormed) (hn : t.node? (p ++ q) ≠ none) (hq : q ≠ []) :
    t.isDirectoryAt p = true := by
  induction q using List.reverseRecOn with
  | nil => exact absurd rfl hq
  | append_singleton q n ih =>
    rw [← List.append_assoc] at hn
    have directory := h.inside (p ++ q) n hn
    by_cases hq : q = []
    · rwa [hq, List.append_nil] at directory
    · exact ih (isSome_node?_of_isDirectoryAt directory) hq

theorem names (h : t.WellFormed) (hn : t.node? (p ++ q) ≠ none) :
    ∀ n ∈ q, IsName n ∧ 0 ∉ n ∧ n.length ≤ maxName := by
  induction q using List.reverseRecOn with
  | nil => simp
  | append_singleton q n ih =>
    rw [← List.append_assoc] at hn
    intro m hm
    rcases List.mem_append.1 hm with hm | hm
    · exact ih (isSome_node?_of_isDirectoryAt (h.inside (p ++ q) n hn)) m hm
    · obtain rfl := List.mem_singleton.1 hm
      exact h.name (p ++ q) m hn

end FileTree.WellFormed

theorem FileTree.wellFormed_of_entries {t : FileTree} (h : ∀ e ∈ t.nodes.entries,
      t.isDirectoryAt e.1.dropLast = true ∧
        (∀ n ∈ e.1.getLast?, IsName n ∧ 0 ∉ n ∧ n.length ≤ maxName) ∧ e.2.Possible ∧
          breadth e.1 ≤ Text.maxSigned64) : t.WellFormed := by
  have entry {p : Place} (hp : p ≠ []) {x : FileNode} (hx : t.node? p = some x) :
      (p, x) ∈ t.nodes.entries := by
    rw [node?, if_neg (by simpa using hp)] at hx
    exact Dictionary.get?_eq_some_iff.1 hx
  have last {p : Place} {n : Name} (hn : t.node? (p ++ [n]) ≠ none) :
      ∃ x, (p ++ [n], x) ∈ t.nodes.entries := by
    obtain ⟨x, hx⟩ := Option.ne_none_iff_exists'.1 hn
    exact ⟨x, entry (by simp) hx⟩
  refine ⟨fun p n hn => ?_, fun p n hn => ?_, fun p x hp hx => (h _ (entry hp hx)).2.2.1,
    fun p hn => ?_⟩
  · obtain ⟨x, hx⟩ := last hn
    simpa using (h _ hx).1
  · obtain ⟨x, hx⟩ := last hn
    exact (h _ hx).2.1 n (by simp)
  · by_cases hp : p = []
    · rw [hp]
      exact Nat.zero_le _
    · obtain ⟨x, hx⟩ := Option.ne_none_iff_exists'.1 hn
      exact (h _ (entry hp hx)).2.2.2

namespace Archive

open FileTree

variable {t t₀ : FileTree} {root dest : List Name} {r d : Place}

/-- A node that can come after the nodes of a list: everything on the way to its place is among them, and
the place itself is not. -/
structure Ready (l : List (Place × FileNode)) (p : Place) : Prop where
  ne_nil : p ≠ []
  names : ∀ n ∈ p, IsName n ∧ 0 ∉ n ∧ n.length ≤ maxName
  way : ∀ a b, a ≠ [] → b ≠ [] → a ++ b = p → ∃ mode, (a, FileNode.directory mode) ∈ l
  fresh : ∀ x, (p, x) ∉ l

def Orderly (l : List (Place × FileNode)) : Prop :=
  ∀ before p x after, l = before ++ (p, x) :: after → Ready before p

theorem Orderly.ne_nil {l : List (Place × FileNode)} {p : Place} {x : FileNode} (h : Orderly l)
    (hp : (p, x) ∈ l) : p ≠ [] := by
  obtain ⟨before, after, split⟩ := List.append_of_mem hp
  exact (h before p x after split).ne_nil

theorem Orderly.of_append {a b : List (Place × FileNode)} (h : Orderly (a ++ b)) : Orderly a := by
  intro before p x after split
  apply h before p x (after ++ b)
  rw [split, List.append_assoc, List.cons_append]

theorem Orderly.concat {l : List (Place × FileNode)} {p : Place} (h : Orderly l) (ready : Ready l p)
    (x : FileNode) : Orderly (l ++ [(p, x)]) := by
  intro before q y after split
  rcases List.eq_nil_or_concat after with rfl | ⟨after, last, rfl⟩
  · obtain ⟨rfl, he⟩ := List.append_inj' split rfl
    obtain ⟨rfl, -⟩ := Prod.mk.inj (List.cons.inj he).1
    exact ready
  · rw [List.concat_eq_append, ← List.cons_append, ← List.append_assoc] at split
    exact h before q y after (List.append_inj' split rfl).1

/-- A well-formed tree is listed in such an order. -/
theorem orderly_below (wellFormed : t.WellFormed) (r : Place) : Orderly (t.below r) := by
  intro l p x more all
  have mem {q : Place} {y : FileNode} (h : (q, y) ∈ l ++ (p, x) :: more) :
      q ≠ [] ∧ t.node? (r ++ q) = some y := mem_below_iff.1 (all ▸ h)
  obtain ⟨hp, hx⟩ := mem (List.mem_append_right l List.mem_cons_self)
  have there : t.node? (r ++ p) ≠ none := by simp [hx]
  obtain ⟨before, fresh⟩ := mem_before all
  refine ⟨hp, wellFormed.names there, ?_, fresh⟩
  intro a b ha hb hab
  rw [← hab, ← List.append_assoc] at there
  obtain ⟨mode, hm⟩ := isDirectoryAt_iff.1 (wellFormed.isDirectoryAt there hb)
  exact ⟨mode, before a b hb hab _ (mem_below_iff.2 ⟨ha, hm⟩)⟩

/-- In such an order the permissions of a directory do not matter. -/
theorem Orderly.withMode {before after : List (Place × FileNode)} {p : Place} {mode : Nat}
    (h : Orderly (before ++ (p, .directory mode) :: after)) (mode' : Nat) :
    Orderly (before ++ (p, .directory mode') :: after) := by
  intro l q x rest split
  rcases List.append_eq_append_iff.1 split with ⟨between, rfl, tail⟩ | ⟨between, rfl, tail⟩
  · cases between with
    | nil =>
      obtain ⟨he, -⟩ := List.cons.inj tail
      obtain ⟨rfl, -⟩ := Prod.mk.inj he
      rw [List.append_nil]
      exact h before p _ after rfl
    | cons first between =>
      obtain ⟨rfl, rfl⟩ := List.cons.inj tail
      have ready := h (before ++ (p, .directory mode) :: between) q x rest (by simp)
      refine ⟨ready.ne_nil, ready.names, ?_, ?_⟩
      · intro a b ha hb hab
        obtain ⟨m, hm⟩ := ready.way a b ha hb hab
        rcases List.mem_append.1 hm with hm | hm
        · exact ⟨m, List.mem_append_left _ hm⟩
        rcases List.mem_cons.1 hm with he | hm
        · obtain ⟨rfl, -⟩ := Prod.mk.inj he
          exact ⟨mode', by simp⟩
        · exact ⟨m, by simp [hm]⟩
      · intro y hy
        rcases List.mem_append.1 hy with hy | hy
        · exact ready.fresh y (List.mem_append_left _ hy)
        rcases List.mem_cons.1 hy with he | hy
        · obtain ⟨rfl, -⟩ := Prod.mk.inj he
          exact ready.fresh (.directory mode) (by simp)
        · exact ready.fresh y (by simp [hy])
  · cases between with
    | nil =>
      obtain ⟨he, -⟩ := List.cons.inj tail
      obtain ⟨rfl, -⟩ := Prod.mk.inj he
      rw [List.append_nil] at h
      exact h l q _ after rfl
    | cons first between =>
      obtain ⟨rfl, rfl⟩ := List.cons.inj tail
      apply h l q x (between ++ (p, .directory mode) :: after)
      rw [List.append_assoc, List.cons_append]

theorem exists_child_after (wellFormed : t.WellFormed) {p q : Place} (hp : p ≠ []) (hq : q ≠ [])
    (there : t.node? (r ++ (p ++ q)) ≠ none) : ∃ before mode n x after,
      t.below r = before ++ (p, .directory mode) :: (p ++ [n], x) :: after := by
  obtain ⟨y, hy⟩ := Option.ne_none_iff_exists'.1 there
  rw [← List.append_assoc] at there
  obtain ⟨mode, hm⟩ := isDirectoryAt_iff.1 (wellFormed.isDirectoryAt there hq)
  obtain ⟨before, rest, split⟩ := List.append_of_mem (mem_below_iff.2 ⟨hp, hm⟩)
  have sorted := pairwise_below t r
  have mem : (p ++ q, y) ∈ t.below r := mem_below_iff.2 ⟨by simp [hp], hy⟩
  rw [split] at sorted mem
  obtain ⟨-, after, less⟩ := List.pairwise_append.1 sorted
  obtain ⟨greater, after⟩ := List.pairwise_cons.1 after
  have later : (p ++ q, y) ∈ rest := by
    rcases List.mem_append.1 mem with mem | mem
    · have : p ++ q < p := less _ mem _ List.mem_cons_self
      exact absurd (Std.lt_trans this (lt_append hq)) Std.lt_irrefl
    rcases List.mem_cons.1 mem with he | mem
    · exact absurd (List.append_right_eq_self.1 (Prod.mk.inj he).1) hq
    · exact mem
  cases rest with
  | nil => cases later
  | cons first rest =>
    obtain ⟨p₁, x⟩ := first
    have first_le : p₁ ≤ p ++ q := by
      rcases List.mem_cons.1 later with he | later
      · obtain ⟨rfl, -⟩ := Prod.mk.inj he
        exact Std.le_refl _
      · exact Std.le_of_lt ((List.pairwise_cons.1 after).1 _ later)
    obtain ⟨q₁, hq₁, rfl⟩ := exists_append_of_lt (greater _ List.mem_cons_self) first_le
    obtain ⟨n, q₁, rfl⟩ := List.exists_cons_of_ne_nil hq₁
    by_cases last : q₁ = []
    · subst last
      exact ⟨before, mode, n, x, rest, split⟩
    · -- What is on the way there would have been listed between.
      have ready := orderly_below wellFormed r (before ++ [(p, .directory mode)]) _ x rest
        (by rw [split, List.append_assoc]; rfl)
      obtain ⟨m, hm⟩ := ready.way (p ++ [n]) q₁ (by simp) last (by simp)
      rcases List.mem_append.1 hm with hm | hm
      · have : p ++ [n] < p := less _ hm _ List.mem_cons_self
        exact absurd (Std.lt_trans this (lt_append (List.cons_ne_nil n []))) Std.lt_irrefl
      · have he := List.mem_singleton.1 hm
        exact absurd (List.append_right_eq_self.1 (Prod.mk.inj he).1) (List.cons_ne_nil n [])

theorem possible_of_mem_below (wellFormed : t.WellFormed) {p : Place} {x : FileNode}
    (h : (p, x) ∈ t.below r) : x.Possible := by
  obtain ⟨hp, hx⟩ := mem_below_iff.1 h
  exact wellFormed.possible (r ++ p) x (by simp [hp]) hx

theorem describes_map {l : List (Place × FileNode)} (possible : ∀ p x, (p, x) ∈ l → x.Possible) :
    List.Forall₂ (fun node m => Describes node.1 node.2 m) l (l.map fun (p, x) => memberOf p x) := by
  refine List.forall₂_map_right_iff.2 (List.forall₂_same.2 ?_)
  intro node hn
  exact describes_memberOf node.1 (possible node.1 node.2 hn)

theorem shows_of_read {l : List (Place × FileNode)} {ms : List Tar.Member} {es : List Tar.Entry}
    (describes : List.Forall₂ (fun node m => Describes node.1 node.2 m) l ms)
    (read : List.Forall₂ Tar.Entry.ReadAs es ms) : List.Forall₂ Shows es l := by
  induction describes generalizing es with
  | nil =>
    cases read
    exact .nil
  | cons first _ ih =>
    cases read with
    | cons head tail => exact .cons ⟨_, first, head⟩ (ih tail)

/-- A tree in which the nodes of a list have been put below a place, and nothing else has changed. -/
structure Placed (t₀ : FileTree) (dest : List Name) (d : Place) (l : List (Place × FileNode))
    (t' : FileTree) : Prop where
  leads : t'.canonical dest = .ok d
  nodes : ∀ q x, (q, x) ∈ l → ∃ x', t'.node? (d ++ q) = some x' ∧ x.Alike x'
  others : ∀ p, (∀ q x, (q, x) ∈ l → p ≠ d ++ q) → t'.node? p = t₀.node? p

/-- Names that are directories one in the other lead to the last of them. -/
theorem canonical_append {t' : FileTree} {q : List Name} (hd : t'.canonical dest = .ok d)
    (names : ∀ n ∈ q, IsEntryName n)
    (directories : ∀ a b, a ++ b = q → t'.isDirectoryAt (d ++ a) = true) :
    t'.canonical (dest ++ q) = .ok (d ++ q) := by
  induction q using List.reverseRecOn with
  | nil => simpa using hd
  | append_singleton q n ih =>
    have before := ih (fun m hm => names m (by simp [hm])) fun a b h =>
      directories a (b ++ [n]) (by rw [← List.append_assoc, h])
    have last := directories (q ++ [n]) [] (List.append_nil _)
    rw [← List.append_assoc] at last
    obtain ⟨mode, hm⟩ := isDirectoryAt_iff.1 last
    rw [← List.append_assoc, ← List.append_assoc]
    exact canonical_child before (directories q [n] rfl) (names n (by simp)) hm fun _ => nofun

theorem within_of_put {t' : FileTree} {p : Place} {x : FileNode} (nothing : t.node? p = none)
    (nodes : ∀ q, t'.node? q = if p = q then some x else t.node? q) : t.Within t' := by
  intro q y hy
  have ne : p ≠ q := by
    rintro rfl
    simp [nothing] at hy
  rw [nodes, if_neg ne]
  exact Within.refl t q y hy

namespace Placed

variable {t' : FileTree} {l : List (Place × FileNode)} {e : Tar.Entry} {p : Place} {x : FileNode}

theorem isDirectoryAt {b : Place} (placed : Placed t₀ dest d l t')
    (directory : t₀.isDirectoryAt d = true) (orderly : Orderly l)
    (put : b ≠ [] → ∃ mode, (b, FileNode.directory mode) ∈ l) : t'.isDirectoryAt (d ++ b) = true := by
  by_cases hb : b = []
  · have same : t'.node? d = t₀.node? d := placed.others d fun q y hq => by
      simpa using orderly.ne_nil hq
    obtain ⟨mode, hm⟩ := isDirectoryAt_iff.1 directory
    rw [hb, List.append_nil]
    exact isDirectoryAt_iff.2 ⟨mode, same.trans hm⟩
  · obtain ⟨mode, hm⟩ := put hb
    obtain ⟨x', hx', alike⟩ := placed.nodes b _ hm
    cases alike
    exact isDirectoryAt_iff.2 ⟨mode, hx'⟩

theorem vacant {init : Place} {n : Name} (placed : Placed t₀ dest d l t')
    (directory : t₀.isDirectoryAt d = true) (empty : ∀ p, Below d p → t₀.node? p = none)
    (orderly : Orderly l) (ready : Ready l (init ++ [n])) :
    Vacant t' (dest ++ init) (d ++ init) n := by
  have entry : ∀ m ∈ init ++ [n], IsEntryName m := by
    intro m hm
    obtain ⟨name, zero, short⟩ := ready.names m hm
    exact ⟨name.ne_dot, name.ne_dotDot, zero, short⟩
  have directories (a b : Place) (hab : a ++ b = init) : t'.isDirectoryAt (d ++ a) = true :=
    placed.isDirectoryAt directory orderly fun ha =>
      ready.way a (b ++ [n]) ha (by simp) (by rw [← List.append_assoc, hab])
  have nothing : t'.node? (d ++ init ++ [n]) = none := by
    rw [placed.others]
    · exact empty _ (below_child (List.prefix_append d init) n)
    · intro q y hq he
      rw [List.append_assoc] at he
      exact ready.fresh y (List.append_cancel_left he ▸ hq)
  exact ⟨canonical_append placed.leads (fun m hm => entry m (by simp [hm])) directories,
    directories init [] (List.append_nil _), entry n (by simp), nothing⟩

theorem concat {t'' : FileTree} {x' : FileNode} (placed : Placed t₀ dest d l t')
    (nothing : t'.node? (d ++ p) = none) (fresh : ∀ x, (p, x) ∉ l) (alike : x.Alike x')
    (nodes : ∀ q, t''.node? q = if d ++ p = q then some x' else t'.node? q) :
    Placed t₀ dest d (l ++ [(p, x)]) t'' := by
  refine ⟨(within_of_put nothing nodes).canonical placed.leads, ?_, ?_⟩
  · intro q y hq
    rw [nodes]
    rcases List.mem_append.1 hq with hq | hq
    · have ne : d ++ p ≠ d ++ q := fun he => fresh y (List.append_cancel_left he ▸ hq)
      rw [if_neg ne]
      exact placed.nodes q y hq
    · obtain ⟨rfl, rfl⟩ := Prod.mk.inj (List.mem_singleton.1 hq)
      exact ⟨x', if_pos rfl, alike⟩
  · intro q hq
    have ne : d ++ p ≠ q := fun he => hq p x (by simp) he.symm
    rw [nodes, if_neg ne]
    exact placed.others q fun q' y hq' => hq q' y (by simp [hq'])

/-- One more member is unpacked, once everything on the way to it has been put. -/
theorem unpackEntry (placed : Placed t₀ dest d l t') (directory : t₀.isDirectoryAt d = true)
    (empty : ∀ p, Below d p → t₀.node? p = none) (orderly : Orderly l) (ready : Ready l p)
    (shows : Shows e (p, x)) :
    ∃ t'', (Archive.unpackEntry dest e).run t' = (.ok (), t'') ∧
      Placed t₀ dest d (l ++ [(p, x)]) t'' := by
  obtain ⟨init, n, rfl⟩ : ∃ init n, p = init ++ [n] := by
    rcases List.eq_nil_or_concat p with rfl | ⟨init, n, hc⟩
    · exact absurd rfl ready.ne_nil
    · exact ⟨init, n, by rw [hc, List.concat_eq_append]⟩
  have v := placed.vacant directory empty orderly ready
  obtain ⟨x', alike, t'', run, nodes⟩ := puts_unpackEntry placed.leads (List.prefix_append d init) v
    (fun m hm => (ready.names m hm).1) shows
  have nothing := v.nothing
  rw [List.append_assoc] at nothing nodes
  exact ⟨t'', run, placed.concat nothing ready.fresh alike nodes⟩

/-- Members are unpacked in an order in which each can come after those before it. -/
theorem unpackEntries {more : List (Place × FileNode)} {es : List Tar.Entry}
    (placed : Placed t₀ dest d l t') (directory : t₀.isDirectoryAt d = true)
    (empty : ∀ p, Below d p → t₀.node? p = none) (orderly : Orderly (l ++ more))
    (shows : List.Forall₂ Shows es more) :
    ∃ t₁, (Archive.unpackEntries dest es).run t' = (.ok (), t₁) ∧
      Placed t₀ dest d (l ++ more) t₁ := by
  induction more generalizing l es t' with
  | nil =>
    cases shows
    rw [List.append_nil]
    exact ⟨t', rfl, placed⟩
  | cons first more ih =>
    obtain ⟨p, x⟩ := first
    cases shows with
    | cons head tail =>
      have ready : Ready l p := orderly l p x more rfl
      obtain ⟨t'', run, placed'⟩ := placed.unpackEntry directory empty orderly.of_append ready head
      have together : l ++ [(p, x)] ++ more = l ++ (p, x) :: more := by
        rw [List.append_assoc, List.singleton_append]
      rw [← together] at orderly ⊢
      obtain ⟨t₁, run', placed₁⟩ := ih placed' orderly tail
      refine ⟨t₁, ?_, placed₁⟩
      rw [Archive.unpackEntries, run_bind, run]
      exact run'

/-- Once all that a tree has below a place has been put, there is a node alike at each place below, and
no other. -/
theorem alike (placed : Placed t₀ dest d l t')
    (all : ∀ q x, (q, x) ∈ l ↔ q ≠ [] ∧ t.node? (r ++ q) = some x)
    (empty : ∀ p, Below d p → t₀.node? p = none) {q : Place} (hq : q ≠ []) :
    Option.Rel FileNode.Alike (t.node? (r ++ q)) (t'.node? (d ++ q)) := by
  cases hx : t.node? (r ++ q) with
  | none =>
    have same : t'.node? (d ++ q) = t₀.node? (d ++ q) := placed.others _ fun q' x hq' he => by
      obtain rfl := List.append_cancel_left he
      obtain ⟨-, hx'⟩ := (all q x).1 hq'
      rw [hx] at hx'
      cases hx'
    rw [same, empty _ ⟨List.prefix_append d q, by simpa using hq⟩]
    exact .none
  | some x =>
    obtain ⟨x', hx', alike⟩ := placed.nodes q x ((all q x).2 ⟨hq, hx⟩)
    rw [hx']
    exact .some alike

theorem outside (placed : Placed t₀ dest d l t') (orderly : Orderly l) (hp : ¬Below d p) :
    t'.node? p = t₀.node? p := by
  refine placed.others p fun q x hq => ?_
  rintro rfl
  exact hp ⟨List.prefix_append d q, by simpa using orderly.ne_nil hq⟩

end Placed

end Archive
end ContainerBuild
