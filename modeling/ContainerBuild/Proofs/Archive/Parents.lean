import Mathlib.Data.List.Infix
import ContainerBuild.Proofs.Archive.Unpacking

/-!
# Making the directories around a member

Where a directory is empty, all directories on the way to a member are missing. They are made from the
outermost on, each in the one before, and stand for themselves in the order of members: so the member is
unpacked as if they had come before it. A name that is too long for the file system stops the work.
-/

namespace ContainerBuild
namespace Archive

open FileTree FilePath

variable {t t₀ : FileTree} {dest around : List Name} {a d : Place} {p q : Place} {n : Name} {x : FileNode}

/-! ### The stages of a way -/

/-- The beginnings of a way but the empty one, shortest first. -/
def stages (p : Place) : List Place := p.inits.tail

@[simp] theorem stages_nil : stages [] = [] := rfl

theorem stages_concat (p : Place) (n : Name) : stages (p ++ [n]) = stages p ++ [p ++ [n]] := by
  have nonempty : p.inits ≠ [] := by
    intro h
    have := List.length_inits p
    simp [h] at this
  rw [stages, List.inits_append, List.tail_append_of_ne_nil nonempty]
  rfl

theorem mem_stages_iff : q ∈ stages p ↔ q ≠ [] ∧ q <+: p := by
  induction p using List.reverseRecOn with
  | nil => simp
  | append_singleton p n ih =>
    rw [stages_concat, List.mem_append, ih, List.mem_singleton, List.prefix_concat_iff]
    constructor
    · rintro (⟨hq, h⟩ | rfl)
      · exact ⟨hq, .inr h⟩
      · exact ⟨by simp, .inl rfl⟩
    · rintro ⟨hq, rfl | h⟩
      · exact .inr rfl
      · exact .inl ⟨hq, h⟩

theorem beginnings_append (names : List Name) (p : Place) :
    beginnings (names ++ p) = ((stages p).map (names ++ ·)).reverse ++ beginnings names := by
  induction p using List.reverseRecOn with
  | nil => simp
  | append_singleton p n ih =>
    rw [← List.append_assoc, beginnings_concat, ih, stages_concat, List.map_append, List.reverse_append,
      List.append_assoc]
    rfl

theorem takeWhile_beginnings_append {names : List Name} {missing : List Name → Bool}
    (there : missing names = false) (gone : ∀ q ∈ stages p, missing (names ++ q) = true) :
    (beginnings (names ++ p)).takeWhile missing = ((stages p).map (names ++ ·)).reverse := by
  have all : ∀ way ∈ ((stages p).map (names ++ ·)).reverse, missing way = true := by
    intro way hway
    obtain ⟨q, hq, rfl⟩ := List.mem_map.1 (List.mem_reverse.1 hway)
    exact gone q hq
  rw [beginnings_append, List.takeWhile_append_of_pos all, takeWhile_beginnings there, List.append_nil]

def directoriesOn (p : Place) : List (Place × FileNode) :=
  (stages p).map fun q => (q, .directory newDirectoryMode)

theorem directoriesOn_concat (p : Place) (n : Name) :
    directoriesOn (p ++ [n]) = directoriesOn p ++ [(p ++ [n], .directory newDirectoryMode)] := by
  rw [directoriesOn, stages_concat, List.map_append]
  rfl

theorem mem_directoriesOn_iff :
    (q, x) ∈ directoriesOn p ↔ q ≠ [] ∧ q <+: p ∧ x = .directory newDirectoryMode := by
  simp only [directoriesOn, List.mem_map, mem_stages_iff, Prod.mk.injEq]
  constructor
  · rintro ⟨q, ⟨hq, h⟩, rfl, rfl⟩
    exact ⟨hq, h, rfl⟩
  · rintro ⟨hq, h, rfl⟩
    exact ⟨q, ⟨hq, h⟩, rfl, rfl⟩

theorem ready_directoriesOn (names : ∀ m ∈ p ++ [n], IsName m ∧ 0 ∉ m ∧ m.length ≤ maxName) :
    Ready (directoriesOn p) (p ++ [n]) := by
  refine ⟨by simp, names, fun a b ha hb hab => ?_, fun x hx => ?_⟩
  · have before : a <+: p ++ [n] := ⟨b, hab⟩
    rcases List.prefix_concat_iff.1 before with rfl | before
    · exact absurd (List.append_right_eq_self.1 hab) hb
    · exact ⟨newDirectoryMode, mem_directoriesOn_iff.2 ⟨ha, before, rfl⟩⟩
  · have length := (mem_directoriesOn_iff.1 hx).2.1.length_le
    rw [List.length_append, List.length_singleton] at length
    omega

theorem orderly_directoriesOn (names : ∀ m ∈ p, IsName m ∧ 0 ∉ m ∧ m.length ≤ maxName) :
    Orderly (directoriesOn p) := by
  induction p using List.reverseRecOn with
  | nil =>
    intro before q y after split
    simp [directoriesOn] at split
  | append_singleton p n ih =>
    rw [directoriesOn_concat]
    exact (ih fun m hm => names m (by simp [hm])).concat (ready_directoriesOn names) _

/-! ### What is missing -/

theorem linkStat_ne_ok (ha : t.canonical around = .ok a) (name : IsName n)
    (nothing : t.node? (a ++ [n]) = none) (rest : List Name) (x : FileNode) :
    t.linkStat (around ++ n :: rest) ≠ .ok x := by
  have alone (y : FileNode) : t.linkStat (around ++ [n]) ≠ .ok y := by
    intro h
    obtain ⟨p, hp, hy⟩ := linkStat_eq_ok_iff.1 h
    obtain ⟨rfl, -⟩ := of_follow_child ha name.ne_dot name.ne_dotDot hp
    rw [nothing] at hy
    cases hy
  by_cases last : rest = []
  · subst last
    exact alone x
  · intro h
    obtain ⟨p, hp, -⟩ := linkStat_eq_ok_iff.1 h
    rw [List.append_cons] at hp
    obtain ⟨b, hb, -⟩ := canonical_of_follow last hp
    obtain ⟨y, hy⟩ := linkStat_of_canonical hb
    exact alone y hy

/-- Below an empty directory, all directories on a way are made. -/
theorem run_ensureAround_of_empty (hd : t.canonical dest = .ok d)
    (empty : ∀ p, Below d p → t.node? p = none) (names : ∀ m ∈ p, IsName m) :
    (ensureAround dest (dest ++ p)).run t =
      (makeMissing dest ((stages p).map (dest ++ ·))).run t := by
  obtain ⟨y, hy⟩ := linkStat_of_canonical hd
  rw [ensureAround, run_get_bind]
  simp only
  rw [takeWhile_beginnings_append (by simp only [hy]), List.reverse_reverse]
  intro q hq
  obtain ⟨nonempty, before⟩ := mem_stages_iff.1 hq
  obtain ⟨n, rest, rfl⟩ := List.exists_cons_of_ne_nil nonempty
  have name : IsName n := names n (before.subset List.mem_cons_self)
  have nothing := empty _ (below_child List.prefix_rfl n)
  cases hs : t.linkStat (dest ++ n :: rest) with
  | ok x => exact absurd hs (linkStat_ne_ok hd name nothing rest x)
  | error fault => rfl

/-! ### Making what is missing -/

theorem run_makeMissing_concat (ways : List (List Name)) (names : List Name) :
    (makeMissing dest (ways ++ [names])).run t = match (makeMissing dest ways).run t with
      | (.ok _, t') => (makeMissing dest [names]).run t'
      | (.error e, t') => (.error e, t') := by
  induction ways generalizing t with
  | nil => rfl
  | cons way ways ih =>
    rw [List.cons_append, makeMissing, makeMissing, run_bind, run_bind]
    rcases (requireInside dest way.dropLast).run t with ⟨_ | _, t'⟩
    · rfl
    · simp only
      rw [run_bind, run_bind]
      rcases (makeAll (fun fault => .archive fault.text) way).run t' with ⟨_ | _, t''⟩
      · rfl
      · exact ih

theorem canonical_of_placed {t' : FileTree} (placed : Placed t₀ dest d (directoriesOn p) t')
    (directory : t₀.isDirectoryAt d = true)
    (names : ∀ m ∈ p, IsName m ∧ 0 ∉ m ∧ m.length ≤ maxName) :
    t'.canonical (dest ++ p) = .ok (d ++ p) ∧ t'.isDirectoryAt (d ++ p) = true := by
  have directories (a b : Place) (hab : a ++ b = p) : t'.isDirectoryAt (d ++ a) = true :=
    placed.isDirectoryAt directory (orderly_directoriesOn names) fun ha =>
      ⟨newDirectoryMode, mem_directoriesOn_iff.2 ⟨ha, ⟨b, hab⟩, rfl⟩⟩
  refine ⟨canonical_append placed.leads (fun m hm => ?_) directories, directories p [] (List.append_nil p)⟩
  obtain ⟨name, zero, short⟩ := names m hm
  exact ⟨name.ne_dot, name.ne_dotDot, zero, short⟩

/-- The directories on a way are made if the file system takes their names. -/
theorem exists_run_makeMissing (hd : t₀.canonical dest = .ok d) (directory : t₀.isDirectoryAt d = true)
    (empty : ∀ p, Below d p → t₀.node? p = none)
    (names : ∀ m ∈ p, IsName m ∧ 0 ∉ m ∧ m.length ≤ maxName) :
    ∃ t', (makeMissing dest ((stages p).map (dest ++ ·))).run t₀ = (.ok (), t') ∧
      Placed t₀ dest d (directoriesOn p) t' := by
  induction p using List.reverseRecOn with
  | nil => exact ⟨t₀, rfl, hd, nofun, fun _ _ => rfl⟩
  | append_singleton p n ih =>
    have before : ∀ m ∈ p, IsName m ∧ 0 ∉ m ∧ m.length ≤ maxName := fun m hm => names m (by simp [hm])
    obtain ⟨t', run, placed⟩ := ih before
    have ready := ready_directoriesOn names
    have v := placed.vacant directory empty (orderly_directoriesOn before) ready
    have nothing := v.nothing
    have nodes := v.node?_set (x := .directory newDirectoryMode)
    rw [List.append_assoc] at nothing nodes
    refine ⟨t'.set (d ++ (p ++ [n])) (.directory newDirectoryMode), ?_, ?_⟩
    · rw [stages_concat, List.map_append, List.map_singleton, run_makeMissing_concat, run]
      simp only
      rw [← List.append_assoc, ← List.append_assoc]
      exact v.run_makeMissing placed.leads (List.prefix_append d p)
    · rw [directoriesOn_concat]
      exact placed.concat nothing ready.fresh (.directory newDirectoryMode) nodes

/-- Of a way with a name that is too long, the last name is so and no other, or one before it is. -/
theorem exists_long_concat (long : ∃ m ∈ p ++ [n], maxName < m.length) :
    (∃ m ∈ p, maxName < m.length) ∨ (∀ m ∈ p, m.length ≤ maxName) ∧ maxName < n.length := by
  by_cases earlier : ∃ m ∈ p, maxName < m.length
  · exact .inl earlier
  · refine .inr ⟨fun m hm => Nat.not_lt.1 fun h => earlier ⟨m, hm, h⟩, ?_⟩
    obtain ⟨m, hm, h⟩ := long
    rcases List.mem_append.1 hm with hm | hm
    · exact absurd ⟨m, hm, h⟩ earlier
    · rwa [List.mem_singleton.1 hm] at h

/-- What a name is put by must not be longer than the file system takes. -/
theorem create_of_long (ha : t.canonical around = .ok a) (directory : t.isDirectoryAt a = true)
    (name : IsName n) (zero : 0 ∉ n) (long : maxName < n.length) :
    t.create (around ++ [n]) x = .error .nameTooLong := by
  rw [create, follow_child ha name.ne_dot name.ne_dotDot, if_pos directory, if_neg zero, if_pos long]
  rfl

theorem run_makeMissing_of_long (hd : t.canonical dest = .ok d) (ha : t.canonical around = .ok a)
    (inside : d <+: a) (directory : t.isDirectoryAt a = true) (name : IsName n) (zero : 0 ∉ n)
    (long : maxName < n.length) : (makeMissing dest [around ++ [n]]).run t =
      (.error (.archive SystemFault.nameTooLong.text), t) := by
  have absent : t.isDirectory (around ++ [n]) = false := by
    refine Bool.eq_false_iff.2 fun there => ?_
    obtain ⟨p, hp⟩ := exists_of_isDirectory there
    obtain ⟨y, hy⟩ := linkStat_of_canonical hp
    obtain ⟨q, hq, -⟩ := linkStat_eq_ok_iff.1 hy
    obtain ⟨-, -, entry⟩ := of_follow_child ha name.ne_dot name.ne_dotDot hq
    exact absurd long (Nat.not_lt.2 entry.short)
  have made : t.makeDirectories (around ++ [n]) = (.error .nameTooLong, t) := by
    rw [makeDirectories, List.reverse_concat, makeDirectoriesFrom, List.reverse_cons,
      List.reverse_reverse, makeDirectory, create_of_long ha directory name zero long]
    have other : SystemFault.nameTooLong ≠ .notFound := by decide
    simp only [if_neg other, absent, Bool.false_eq_true, if_false]
  unfold makeMissing
  rw [run_bind, List.dropLast_concat, run_requireInside_of_inside hd ha inside]
  simp only
  rw [run_bind, run_makeAll, made]

theorem exists_run_makeMissing_of_long (hd : t₀.canonical dest = .ok d)
    (directory : t₀.isDirectoryAt d = true) (empty : ∀ p, Below d p → t₀.node? p = none)
    (names : ∀ m ∈ p, IsName m ∧ 0 ∉ m) (long : ∃ m ∈ p, maxName < m.length) :
    ∃ t', (makeMissing dest ((stages p).map (dest ++ ·))).run t₀ =
      (.error (.archive SystemFault.nameTooLong.text), t') := by
  induction p using List.reverseRecOn with
  | nil =>
    obtain ⟨m, hm, -⟩ := long
    cases hm
  | append_singleton p n ih =>
    rw [stages_concat, List.map_append, List.map_singleton, run_makeMissing_concat]
    have before : ∀ m ∈ p, IsName m ∧ 0 ∉ m := fun m hm => names m (by simp [hm])
    rcases exists_long_concat long with earlier | ⟨fits, last⟩
    · obtain ⟨t', run⟩ := ih before earlier
      exact ⟨t', by rw [run]⟩
    · have short : ∀ m ∈ p, IsName m ∧ 0 ∉ m ∧ m.length ≤ maxName := fun m hm =>
        ⟨(before m hm).1, (before m hm).2, fits m hm⟩
      obtain ⟨name, zero⟩ := names n (by simp)
      obtain ⟨t', run, placed⟩ := exists_run_makeMissing hd directory empty short
      obtain ⟨leads, inside⟩ := canonical_of_placed placed directory short
      refine ⟨t', ?_⟩
      rw [run, ← List.append_assoc]
      exact run_makeMissing_of_long placed.leads leads (List.prefix_append d p) inside name zero last

end Archive
end ContainerBuild
