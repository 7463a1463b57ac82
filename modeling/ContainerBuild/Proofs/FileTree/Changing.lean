import ContainerBuild.Proofs.FileTree.Following
import ContainerBuild.Proofs.Traversal

/-!
# Changing trees

What each operation on a tree makes of its nodes. An operation that succeeds changes one node, at the
place that its path leads to. Directories that are made on the way to a place are the only new nodes,
and beginnings of the path lead to them.
-/

namespace ContainerBuild

namespace FileTree

open FilePath (dot dotDot)

variable {t t' : FileTree} {p q a : Place} {names around : List Name} {n : Name} {x : FileNode}

/-! ### Nodes -/

theorem node?_set_of_ne_nil (h : p ≠ []) :
    (t.set p x).node? q = if p = q then some x else t.node? q := by
  by_cases hq : q = []
  · subst hq
    rw [if_neg h, node?_root, node?_root]
  · exact node?_set hq

theorem node?_remove (h : p ≠ []) :
    (t.remove p).node? q = if p = q then none else t.node? q := by
  by_cases hq : q = []
  · subst hq
    rw [if_neg h, node?_root, node?_root]
  · have hb : q.isEmpty = false := by simpa using hq
    simp only [node?, remove, hb, Bool.false_eq_true, if_false, Dictionary.get?_erase]
    by_cases hpq : p = q <;> simp [hpq]

theorem ne_nil_of_node?_eq_none (h : t.node? p = none) : p ≠ [] := by
  rintro rfl
  simp at h

theorem isSome_node?_of_isDirectoryAt (h : t.isDirectoryAt p = true) : t.node? p ≠ none := by
  obtain ⟨mode, hm⟩ := isDirectoryAt_iff.1 h
  simp [hm]

theorem within_set (h : t.node? p = none) (x : FileNode) : t.Within (t.set p x) := by
  intro q n hn
  have hne : p ≠ q := by
    rintro rfl
    simp [h] at hn
  rw [node?_set_of_ne_nil (ne_nil_of_node?_eq_none h), if_neg hne]
  exact Within.refl t q n hn

theorem within_set_withMode (hp : p ≠ []) (h : t.node? p = some x) (mode : Nat) :
    t.Within (t.set p (FileNode.withMode mode x)) := by
  intro q n hn
  rw [node?_set_of_ne_nil hp]
  split
  · rename_i hpq
    subst hpq
    obtain rfl : x = n := Option.some.inj (h.symm.trans hn)
    exact ⟨mode, rfl⟩
  · exact Within.refl t q n hn

theorem remove_within (hp : p ≠ []) : (t.remove p).Within t := by
  intro q n hn
  rw [node?_remove hp] at hn
  split at hn
  · cases hn
  · exact Within.refl t q n hn

/-! ### Operations that succeed -/

theorem follow_eq_ok_iff {through : Bool} :
    t.follow through names = .ok p ↔ ∃ k ≤ maxLinks, t.Leads through k [] names p :=
  followFrom_eq_ok_iff

theorem canonical_eq_ok_iff :
    t.canonical names = .ok p ↔ (∃ k ≤ maxLinks, t.Leads true k [] names p) ∧ t.node? p ≠ none := by
  rw [← follow_eq_ok_iff, canonical, bind_eq_ok_iff]
  constructor
  · rintro ⟨q, hq, h⟩
    split at h
    · rename_i some
      obtain rfl : q = p := Except.ok.inj h
      exact ⟨hq, by simpa [Option.isSome_iff_ne_none] using some⟩
    · cases h
  · rintro ⟨hp, some⟩
    exact ⟨p, hp, if_pos (Option.isSome_iff_ne_none.2 some)⟩

theorem create_of_none (hp : t.follow false names = .ok p) (nothing : t.node? p = none) :
    t.create names x = .ok (t.set p x) := by
  rw [create, hp]
  simp only [bind, Except.bind, nothing]
  rfl

theorem create_of_some {y : FileNode} (hp : t.follow false names = .ok p)
    (there : t.node? p = some y) : t.create names x = .error .alreadyExists := by
  rw [create, hp]
  simp only [bind, Except.bind, there]
  rfl

theorem create_eq_ok_iff :
    t.create names x = .ok t' ↔
      ∃ p, t.follow false names = .ok p ∧ t.node? p = none ∧ t' = t.set p x := by
  rw [create, bind_eq_ok_iff]
  refine exists_congr fun p => and_congr_right fun _ => ?_
  cases t.node? p with
  | none =>
    simp only [true_and]
    exact ⟨fun h => (Except.ok.inj h).symm, fun h => congrArg _ h.symm⟩
  | some y =>
    simp only [reduceCtorEq, false_and]

theorem unlink_eq_ok_iff :
    t.unlink names = .ok t' ↔ ∃ p y, t.follow false names = .ok p ∧ t.node? p = some y ∧
      (∀ mode, y ≠ .directory mode) ∧ t' = t.remove p := by
  rw [unlink, bind_eq_ok_iff]
  constructor
  · rintro ⟨p, hp, h⟩
    split at h
    · cases h
    · cases h
    · rename_i y stays hy
      exact ⟨p, y, hp, hy, stays, (Except.ok.inj h).symm⟩
  · rintro ⟨p, y, hp, hy, stays, rfl⟩
    refine ⟨p, hp, ?_⟩
    rw [hy]
    cases y with
    | directory mode => exact absurd rfl (stays mode)
    | file _ _ => rfl
    | link _ => rfl

theorem setMode_eq_ok_iff {mode : Nat} :
    t.setMode names mode = .ok t' ↔ ∃ p y, t.canonical names = .ok p ∧ t.node? p = some y ∧
      t' = t.set p (FileNode.withMode (mode % 0o10000) y) := by
  rw [setMode, bind_eq_ok_iff]
  constructor
  · rintro ⟨p, hp, h⟩
    split at h
    · rename_i y hy
      exact ⟨p, y, hp, hy, (Except.ok.inj h).symm⟩
    · cases h
  · rintro ⟨p, y, hp, hy, rfl⟩
    refine ⟨p, hp, ?_⟩
    rw [hy]
    rfl

theorem exists_of_isDirectory (h : t.isDirectory names = true) : ∃ p, t.canonical names = .ok p := by
  unfold isDirectory at h
  split at h
  · rename_i mode hs
    rw [stat, bind_eq_ok_iff] at hs
    obtain ⟨p, hp, hn⟩ := hs
    refine ⟨p, canonical_eq_ok_iff.2 ⟨follow_eq_ok_iff.1 hp, ?_⟩⟩
    intro nothing
    simp only [nothing] at hn
    cases hn
  · cases h

theorem Within.canonical (h : t.Within t') (hp : t.canonical names = .ok p) :
    t'.canonical names = .ok p := by
  obtain ⟨⟨k, hk, leads⟩, some⟩ := canonical_eq_ok_iff.1 hp
  exact canonical_eq_ok_iff.2 ⟨⟨k, hk, h.leads leads some⟩, h.isSome some⟩

/-- A directory is found again where every directory and every link has stayed. -/
theorem KeepsWays.canonical (h : t.KeepsWays t') (hp : t.canonical names = .ok p)
    (directory : t.isDirectoryAt p = true) : t'.canonical names = .ok p := by
  obtain ⟨⟨k, hk, leads⟩, -⟩ := canonical_eq_ok_iff.1 hp
  exact canonical_eq_ok_iff.2
    ⟨⟨k, hk, h.leads leads directory⟩, isSome_node?_of_isDirectoryAt (h.isDirectoryAt directory)⟩

theorem keepsWays_remove {mode : Nat} {data : Bytes} (h : t.node? p = some (.file mode data)) :
    t.KeepsWays (t.remove p) := by
  intro q x hx other
  have nonempty : p ≠ [] := by
    rintro rfl
    rw [node?_root] at h
    cases h
  have elsewhere : p ≠ q := by
    rintro rfl
    rw [h] at hx
    exact other mode data (Option.some.inj hx).symm
  rw [node?_remove nonempty, if_neg elsewhere, hx]

/-! ### In a directory that names lead to -/

theorem exists_followFrom_child (through : Bool) (ha : t.canonical around = .ok a) (n : Name) :
    ∃ links, t.follow through (around ++ [n]) = t.followFrom through links a [n] := by
  obtain ⟨⟨k, hk, leads⟩, some⟩ := canonical_eq_ok_iff.1 ha
  refine ⟨maxLinks - k, ?_⟩
  rw [← followFrom_append leads some (List.cons_ne_nil n []), Nat.sub_add_cancel hk]
  rfl

theorem follow_child (ha : t.canonical around = .ok a) (hd : n ≠ dot) (hu : n ≠ dotDot) :
    t.follow false (around ++ [n]) =
      if t.isDirectoryAt a then
        if 0 ∈ n then .error .invalidArgument
        else if maxName < n.length then .error .nameTooLong
        else .ok (a ++ [n])
      else .error .notADirectory := by
  obtain ⟨links, hl⟩ := exists_followFrom_child false ha n
  rw [hl, followFrom_single hd hu]

theorem of_follow_child (ha : t.canonical around = .ok a) (hd : n ≠ dot) (hu : n ≠ dotDot)
    (h : t.follow false (around ++ [n]) = .ok p) :
    p = a ++ [n] ∧ t.isDirectoryAt a = true ∧ IsEntryName n := by
  rw [follow_child ha hd hu] at h
  split at h
  · rename_i inside
    split at h
    · cases h
    · rename_i hz
      split at h
      · cases h
      · rename_i hl
        exact ⟨(Except.ok.inj h).symm, inside, hd, hu, hz, Nat.not_lt.1 hl⟩
  · cases h

theorem canonical_child (ha : t.canonical around = .ok a) (inside : t.isDirectoryAt a = true)
    (hn : IsEntryName n) (hx : t.node? (a ++ [n]) = some x) (stays : ∀ target, x ≠ .link target) :
    t.canonical (around ++ [n]) = .ok (a ++ [n]) := by
  obtain ⟨links, hl⟩ := exists_followFrom_child true ha n
  refine canonical_eq_ok_iff.2 ⟨follow_eq_ok_iff.1 ?_, by simp [hx]⟩
  rw [hl, followFrom_eq_ok_iff]
  exact ⟨0, Nat.zero_le _, .enter inside hn hx stays .stop⟩

/-- What is put into a directory is never missing a directory around it. -/
theorem create_child_ne_notFound (ha : t.canonical around = .ok a) (hd : n ≠ dot)
    (hu : n ≠ dotDot) : t.create (around ++ [n]) x ≠ .error .notFound := by
  intro h
  cases hf : t.follow false (around ++ [n]) with
  | error fault =>
    rw [create, hf] at h
    obtain rfl : fault = .notFound := Except.error.inj h
    rw [follow_child ha hd hu] at hf
    split at hf
    · split at hf
      · cases hf
      · split at hf <;> cases hf
    · cases hf
  | ok p =>
    cases hy : t.node? p with
    | none =>
      rw [create_of_none hf hy] at h
      cases h
    | some y =>
      rw [create_of_some hf hy] at h
      cases h

/-- A path that can be followed leads to a directory with its beginning. -/
theorem canonical_of_follow {through : Bool} {rest : List Name} (hr : rest ≠ [])
    (h : t.follow through (names ++ rest) = .ok p) :
    ∃ a, t.canonical names = .ok a ∧ t.isDirectoryAt a = true := by
  obtain ⟨m, hm, leads⟩ := follow_eq_ok_iff.1 h
  obtain ⟨a, k, j, hk, hl, inside, -⟩ := leads.split hr
  exact ⟨a, canonical_eq_ok_iff.2 ⟨⟨k, Nat.le_trans hk hm, hl⟩,
    isSome_node?_of_isDirectoryAt inside⟩, inside⟩

theorem linkStat_eq_ok_iff :
    t.linkStat names = .ok x ↔ ∃ p, t.follow false names = .ok p ∧ t.node? p = some x := by
  rw [linkStat, bind_eq_ok_iff]
  refine exists_congr fun p => and_congr_right fun _ => ?_
  cases t.node? p with
  | none => simp [throw, throwThe, MonadExceptOf.throw]
  | some y => simp [pure, Except.pure]

/-- A path with something at its end has something there for those who do not follow links too. -/
theorem linkStat_of_canonical (h : t.canonical names = .ok p) : ∃ y, t.linkStat names = .ok y := by
  obtain ⟨⟨k, hk, leads⟩, some⟩ := canonical_eq_ok_iff.1 h
  obtain ⟨q, j, hj, leads', some'⟩ := leads.to_end some
  obtain ⟨y, hy⟩ := Option.ne_none_iff_exists'.1 some'
  exact ⟨y, linkStat_eq_ok_iff.2 ⟨q, follow_eq_ok_iff.2 ⟨j, Nat.le_trans hj hk, leads'⟩, hy⟩⟩

/-! ### Making directories -/

theorem canonical_of_set (h : t.follow false names = .ok p) (nothing : t.node? p = none)
    (mode : Nat) : (t.set p (.directory mode)).canonical names = .ok p := by
  have within := within_set nothing (.directory mode)
  have there : (t.set p (.directory mode)).node? p = some (.directory mode) := by
    rw [node?_set_of_ne_nil (ne_nil_of_node?_eq_none nothing), if_pos rfl]
  refine canonical_eq_ok_iff.2 ⟨?_, by simp [there]⟩
  obtain ⟨m, hm, leads⟩ := follow_eq_ok_iff.1 h
  rcases List.eq_nil_or_concat names with rfl | ⟨before, n, rfl⟩
  · cases leads
    simp at nothing
  rw [List.concat_eq_append] at leads ⊢
  obtain ⟨q, k, j, hk, hl, inside, last⟩ := leads.split (List.cons_ne_nil n [])
  have some := isSome_node?_of_isDirectoryAt inside
  have inside' := within.isDirectoryAt inside
  -- The last step is made again where the new directory is.
  have step : (t.set p (.directory mode)).Leads true 0 q [n] p := by
    generalize hn : [n] = steps at last
    cases last with
    | stop => cases hn
    | here _ go =>
      obtain ⟨rfl, rfl⟩ := List.cons.inj hn
      cases go
      exact absurd nothing some
    | up _ go =>
      obtain ⟨rfl, rfl⟩ := List.cons.inj hn
      cases go
      exact .up inside' .stop
    | missing _ name _ =>
      obtain ⟨rfl, -⟩ := List.cons.inj hn
      exact .enter inside' name there (fun _ e => by cases e) .stop
    | halt _ _ hx _ => simp [nothing] at hx
    | link _ _ _ hr _ =>
      obtain ⟨rfl, rfl⟩ := List.cons.inj hn
      simp at hr
    | enter _ _ hx _ go =>
      obtain ⟨rfl, rfl⟩ := List.cons.inj hn
      cases go
      simp [nothing] at hx
  rw [← followFrom_eq_ok_iff, ← Nat.sub_add_cancel (Nat.le_trans hk hm),
    followFrom_append (within.leads hl some) (within.isSome some) (List.cons_ne_nil n [])]
  exact followFrom_eq_ok_iff.2 ⟨0, Nat.zero_le _, step⟩

/-- A tree with new directories, to each of which a beginning of some names leads. -/
def Extends (t t' : FileTree) (names : List Name) : Prop :=
  ∀ p, t'.node? p = t.node? p ∨
    t.node? p = none ∧ t'.node? p = some (.directory newDirectoryMode) ∧
      ∃ k, t'.canonical (names.take k) = .ok p

theorem Extends.refl (t : FileTree) (names : List Name) : t.Extends t names :=
  fun _ => .inl rfl

theorem Extends.makeDirectory {t'' : FileTree} (h : t.Extends t' names)
    (hm : t'.makeDirectory (names ++ [n]) = .ok t'') :
    t.Extends t'' (names ++ [n]) ∧ ∃ p, t''.canonical (names ++ [n]) = .ok p := by
  obtain ⟨p, hp, nothing, rfl⟩ := create_eq_ok_iff.1 hm
  have within := within_set nothing (.directory newDirectoryMode)
  have made := canonical_of_set hp nothing newDirectoryMode
  refine ⟨fun q => ?_, p, made⟩
  rw [node?_set_of_ne_nil (ne_nil_of_node?_eq_none nothing)]
  by_cases hq : p = q
  · subst hq
    right
    refine ⟨?_, if_pos rfl, (names ++ [n]).length, by rwa [List.take_length]⟩
    rcases h p with hp | ⟨nothing', -⟩
    · rw [← hp, nothing]
    · exact nothing'
  · rw [if_neg hq]
    rcases h q with hq | ⟨nothing', hd, k, hk⟩
    · exact .inl hq
    · refine .inr ⟨nothing', hd, min k names.length, ?_⟩
      rw [List.take_append_of_le_length (Nat.min_le_right _ _), ← List.take_take, List.take_length]
      exact within.canonical hk

theorem Extends.more (h : t.Extends t' names) (n : Name) : t.Extends t' (names ++ [n]) := by
  intro p
  rcases h p with hp | ⟨nothing, hd, k, hk⟩
  · exact .inl hp
  · refine .inr ⟨nothing, hd, min k names.length, ?_⟩
    rwa [List.take_append_of_le_length (Nat.min_le_right _ _), ← List.take_take, List.take_length]

/-- What making directories does to a tree, whether it succeeds or not. -/
theorem extends_makeDirectoriesFrom (reversed : List Name) :
    t.Extends (t.makeDirectoriesFrom reversed).2 reversed.reverse ∧
      ((t.makeDirectoriesFrom reversed).1 = .ok () →
        ∃ p, (t.makeDirectoriesFrom reversed).2.canonical reversed.reverse = .ok p) := by
  induction reversed with
  | nil => exact ⟨.refl t [], fun _ => ⟨[], rfl⟩⟩
  | cons n before ih =>
    rw [List.reverse_cons]
    unfold makeDirectoriesFrom
    rw [List.reverse_cons]
    simp only
    split
    · rename_i made hm
      obtain ⟨grown, leads⟩ := (Extends.refl t before.reverse).makeDirectory hm
      exact ⟨grown, fun _ => leads⟩
    · rename_i fault hf
      split
      · obtain ⟨grown, -⟩ := ih
        split
        · rename_i around hr
          rw [hr] at grown
          unfold ensureDirectory
          split
          · rename_i made hm
            obtain ⟨grown', leads⟩ := grown.makeDirectory hm
            exact ⟨grown', fun _ => leads⟩
          · split
            · rename_i there
              exact ⟨grown.more n, fun _ => exists_of_isDirectory there⟩
            · exact ⟨grown.more n, fun h => by cases h⟩
        · rename_i around hr
          rw [hr] at grown
          exact ⟨grown.more n, fun h => by cases h⟩
      · split
        · rename_i there
          exact ⟨.refl t _, fun _ => exists_of_isDirectory there⟩
        · exact ⟨.refl t _, fun h => by cases h⟩

theorem extends_makeDirectories (names : List Name) :
    t.Extends (t.makeDirectories names).2 names ∧
      ((t.makeDirectories names).1 = .ok () →
        ∃ p, (t.makeDirectories names).2.canonical names = .ok p) := by
  have h := extends_makeDirectoriesFrom (t := t) names.reverse
  rwa [List.reverse_reverse] at h

/-- In a directory that names lead to, at most the last directory is made. -/
theorem makeDirectories_child (ha : t.canonical around = .ok a) (hd : n ≠ dot) (hu : n ≠ dotDot) :
    (t.makeDirectories (around ++ [n])).2 = t ∨
      t.node? (a ++ [n]) = none ∧
        (t.makeDirectories (around ++ [n])).2 = t.set (a ++ [n]) (.directory newDirectoryMode) := by
  rw [makeDirectories, List.reverse_concat]
  unfold makeDirectoriesFrom
  rw [List.reverse_cons, List.reverse_reverse]
  simp only
  split
  · rename_i made hm
    obtain ⟨p, hp, nothing, rfl⟩ := create_eq_ok_iff.1 hm
    obtain ⟨rfl, -⟩ := of_follow_child ha hd hu hp
    exact .inr ⟨nothing, rfl⟩
  · rename_i fault hf
    split
    · rename_i missing
      exact absurd (missing ▸ hf) (create_child_ne_notFound ha hd hu)
    · split
      · exact .inl rfl
      · exact .inl rfl

theorem makeDirectories_of_directory (h : t.canonical names = .ok p)
    (directory : t.isDirectoryAt p = true) : t.makeDirectories names = (.ok (), t) := by
  have there : t.makeDirectory names = .error .alreadyExists := by
    obtain ⟨y, hy⟩ := linkStat_of_canonical h
    obtain ⟨q, hq, hn⟩ := linkStat_eq_ok_iff.1 hy
    exact create_of_some hq hn
  have isDirectory : t.isDirectory names = true := by
    obtain ⟨follow, -⟩ := canonical_eq_ok_iff.1 h
    obtain ⟨mode, hm⟩ := isDirectoryAt_iff.1 directory
    have stat : t.stat names = .ok (.directory mode) := by
      rw [FileTree.stat, bind_eq_ok_iff]
      exact ⟨p, follow_eq_ok_iff.2 follow, by rw [hm]; rfl⟩
    rw [FileTree.isDirectory, stat]
  unfold makeDirectories
  cases hr : names.reverse with
  | nil => rfl
  | cons last before =>
    have back : (last :: before).reverse = names := by rw [← hr, List.reverse_reverse]
    rw [makeDirectoriesFrom]
    simp only [back, there, isDirectory]
    rfl

end FileTree
end ContainerBuild
