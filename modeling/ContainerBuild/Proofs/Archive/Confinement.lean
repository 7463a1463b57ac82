import ContainerBuild.Proofs.Archive.Running
import ContainerBuild.Proofs.FileTree.Changing

/-!
# Unpacking stays inside

Whatever the members of an archive are, unpacking it changes nothing outside the directory it is
unpacked into. `Confined` says so of one part of the work: nothing but what is below the directory
changes, and if the part succeeds, the path of the directory still leads to it. The second half is what
makes the parts fit together. A link on that path may lie in the directory itself, and a member may
remove it; but then the path leads nowhere, and nothing more can be put there.
-/

namespace ContainerBuild
namespace Archive

open FileTree FilePath

/-- A place below another one. -/
def Below (d p : Place) : Prop := d <+: p ∧ d ≠ p

theorem below_child {d a : Place} (h : d <+: a) (n : Name) : Below d (a ++ [n]) := by
  refine ⟨h.trans (List.prefix_append a [n]), ?_⟩
  rintro rfl
  have := h.length_le
  simp only [List.length_append, List.length_singleton] at this
  omega

/-- A part of the work on a tree changes nothing but what is below a place, and if it succeeds, some
names still lead to that place. -/
structure Confined (dest : List Name) (d : Place) (t : FileTree) (m : Change Unit) : Prop where
  outside : ∀ p, ¬Below d p → (m.run t).2.node? p = t.node? p
  leads : (m.run t).1 = .ok () → (m.run t).2.canonical dest = .ok d

variable {dest names around : List Name} {d a : Place} {n : Name} {t : FileTree} {m : Change Unit}

namespace Confined

theorem of_same (hd : t.canonical dest = .ok d) (h : (m.run t).2 = t) : Confined dest d t m :=
  ⟨fun p _ => by rw [h], fun _ => by rw [h, hd]⟩

theorem pure (hd : t.canonical dest = .ok d) : Confined dest d t (Pure.pure ()) :=
  .of_same hd rfl

theorem throw (hd : t.canonical dest = .ok d) (e : BuildError) : Confined dest d t (throw e) :=
  .of_same hd rfl

theorem bind {f : Unit → Change Unit} (hm : Confined dest d t m)
    (hf : ∀ t', m.run t = (.ok (), t') → t'.canonical dest = .ok d → Confined dest d t' (f ())) :
    Confined dest d t (m >>= f) := by
  obtain ⟨outside, leads⟩ := hm
  rcases hr : m.run t with ⟨e | u, t'⟩
  · rw [hr] at outside
    have hb : (m >>= f).run t = (.error e, t') := by rw [run_bind, hr]
    exact ⟨by rw [hb]; exact outside, fun h => by rw [hb] at h; cases h⟩
  · rw [hr] at outside leads
    have hb : (m >>= f).run t = (f ()).run t' := by rw [run_bind, hr]
    obtain ⟨outside', leads'⟩ := hf t' hr (leads rfl)
    rw [← hb] at outside' leads'
    exact ⟨fun p hp => (outside' p hp).trans (outside p hp), leads'⟩

theorem get_bind {f : FileTree → Change Unit} (h : Confined dest d t (f t)) :
    Confined dest d t (get >>= f) :=
  ⟨h.outside, h.leads⟩

/-- A single operation, whose success keeps what is outside and where the names lead. -/
theorem apply {f : FileTree → Except SystemFault FileTree} (hd : t.canonical dest = .ok d)
    (hf : ∀ t', f t = .ok t' → (∀ p, ¬Below d p → t'.node? p = t.node? p) ∧
      t'.canonical dest = .ok d) : Confined dest d t (Archive.apply f) := by
  cases h : f t with
  | error fault => exact .of_same hd (by rw [run_apply, h])
  | ok t' =>
    obtain ⟨outside, leads⟩ := hf t' h
    have hr : (Archive.apply f).run t = (.ok (), t') := by rw [run_apply, h]
    exact ⟨by rw [hr]; exact outside, fun _ => by rw [hr]; exact leads⟩

end Confined

theorem liesIn_eq_ok_true (hd : t.canonical dest = .ok d) (h : liesIn t dest names = .ok true) :
    ∃ a, t.canonical names = .ok a ∧ d <+: a := by
  rw [liesIn, bind_eq_ok_iff] at h
  obtain ⟨a, ha, h⟩ := h
  rw [bind_eq_ok_iff] at h
  obtain ⟨d', hd', h⟩ := h
  obtain rfl : d = d' := Except.ok.inj (hd.symm.trans hd')
  exact ⟨a, ha, List.isPrefixOf_iff_prefix.1 (Except.ok.inj h)⟩

theorem confined_requireInside (hd : t.canonical dest = .ok d) (dest' names : List Name) :
    Confined dest d t (requireInside dest' names) := by
  refine .of_same hd ?_
  rw [run_requireInside]
  split <;> rfl

theorem eq_of_requireInside {t' : FileTree} (h : (requireInside dest names).run t = (.ok (), t')) :
    t = t' := by
  rw [run_requireInside] at h
  split at h
  · cases h
  · exact (Prod.mk.inj h).2
  · cases h

/-- What has passed the check lies in the place that the names of the directory lead to. -/
theorem of_requireInside {t' : FileTree} (hd : t.canonical dest = .ok d)
    (h : (requireInside dest names).run t = (.ok (), t')) :
    ∃ a, t.canonical names = .ok a ∧ d <+: a := by
  rw [run_requireInside] at h
  split at h
  · cases h
  · rename_i hl
    exact liesIn_eq_ok_true hd hl
  · cases h

/-! ### Operations in a directory inside -/

theorem ne_nil_of_below {p : Place} (h : Below d p) : p ≠ [] := by
  rintro rfl
  exact h.2 (List.prefix_nil.1 h.1)

theorem node?_set_outside {p q : Place} {x : FileNode} (hq : Below d q) (hp : ¬Below d p) :
    (t.set q x).node? p = t.node? p := by
  have hne : q ≠ p := by
    rintro rfl
    exact hp hq
  rw [node?_set_of_ne_nil (ne_nil_of_below hq), if_neg hne]

theorem node?_remove_outside {p q : Place} (hq : Below d q) (hp : ¬Below d p) :
    (t.remove q).node? p = t.node? p := by
  have hne : q ≠ p := by
    rintro rfl
    exact hp hq
  rw [node?_remove (ne_nil_of_below hq), if_neg hne]

/-- The names of the directory lead to a place, and longer names to one in it. -/
structure Inside (dest : List Name) (d : Place) (more : List Name) (a : Place) (t : FileTree) :
    Prop where
  base : t.canonical dest = .ok d
  around : t.canonical (dest ++ more) = .ok a
  inside : d <+: a

variable {more : List Name} {x : FileNode}

theorem Inside.below (h : Inside dest d more a t) (n : Name) : Below d (a ++ [n]) :=
  below_child h.inside n

theorem Inside.of_within {t' : FileTree} (h : Inside dest d more a t) (w : t.Within t') :
    Inside dest d more a t' :=
  ⟨w.canonical h.base, w.canonical h.around, h.inside⟩

theorem Inside.of_follow {t' : FileTree} {p : Place} (h : Inside dest d more a t) (w : t'.Within t)
    (hf : t'.follow false (dest ++ more ++ [n]) = .ok p) : Inside dest d more a t' := by
  obtain ⟨a', ha', -⟩ := canonical_of_follow (List.cons_ne_nil n []) hf
  obtain rfl : a' = a := Except.ok.inj ((w.canonical ha').symm.trans h.around)
  rw [List.append_assoc] at hf
  obtain ⟨d', hd', -⟩ := canonical_of_follow (by simp) hf
  obtain rfl : d' = d := Except.ok.inj ((w.canonical hd').symm.trans h.base)
  exact ⟨hd', ha', h.inside⟩

/-- A tree in which a node has just been put at a name in a directory. -/
structure Put (t : FileTree) (a : Place) (n : Name) (x : FileNode) (t' : FileTree) : Prop where
  directory : t.isDirectoryAt a = true
  name : IsEntryName n
  nothing : t.node? (a ++ [n]) = none
  eq : t' = t.set (a ++ [n]) x

theorem put_of_create {t' : FileTree} (ha : t.canonical around = .ok a) (hn : n ≠ dot)
    (hu : n ≠ dotDot) (h : t.create (around ++ [n]) x = .ok t') : Put t a n x t' := by
  obtain ⟨p, hp, nothing, rfl⟩ := create_eq_ok_iff.1 h
  obtain ⟨rfl, inside, name⟩ := of_follow_child ha hn hu hp
  exact ⟨inside, name, nothing, rfl⟩

theorem Put.within {t' : FileTree} (h : Put t a n x t') : t.Within t' := by
  obtain ⟨-, -, nothing, rfl⟩ := h
  exact within_set nothing x

theorem Put.there {t' : FileTree} (h : Put t a n x t') : t'.node? (a ++ [n]) = some x := by
  obtain ⟨-, -, nothing, rfl⟩ := h
  rw [node?_set_of_ne_nil (ne_nil_of_node?_eq_none nothing), if_pos rfl]

theorem Put.outside {t' : FileTree} (put : Put t a n x t') (h : Inside dest d more a t) {p : Place}
    (hp : ¬Below d p) : t'.node? p = t.node? p := by
  rw [put.eq]
  exact node?_set_outside (h.below n) hp

/-- Replacing a node fails, having removed it at most; or puts the new node where nothing is left. -/
theorem run_replaceWith_cases (h : Inside dest d more a t) (hn : n ≠ dot) (hu : n ≠ dotDot)
    (x : FileNode) : ∃ t₁, (t₁ = t ∨ t₁ = t.remove (a ++ [n])) ∧
      ((∃ e, (replaceWith (dest ++ more ++ [n]) x).run t = (.error e, t₁)) ∨
        ∃ t', (replaceWith (dest ++ more ++ [n]) x).run t = (.ok (), t') ∧
          Inside dest d more a t₁ ∧ Put t₁ a n x t') := by
  unfold replaceWith
  rw [run_get_bind]
  split
  · rename_i t' ht
    exact ⟨t, .inl rfl, .inr ⟨t', rfl, h, put_of_create h.around hn hu ht⟩⟩
  · rename_i fault hf
    split
    · rw [run_bind, run_apply]
      cases hx : t.unlink (dest ++ more ++ [n]) with
      | error fault' => exact ⟨t, .inl rfl, .inl ⟨_, rfl⟩⟩
      | ok t₁ =>
        obtain ⟨p, y, hp, -, -, rfl⟩ := unlink_eq_ok_iff.1 hx
        obtain ⟨rfl, -⟩ := of_follow_child h.around hn hu hp
        refine ⟨_, .inr rfl, ?_⟩
        simp only
        rw [run_apply]
        cases hc : (t.remove (a ++ [n])).create (dest ++ more ++ [n]) x with
        | error fault' => exact .inl ⟨_, rfl⟩
        | ok t' =>
          obtain ⟨q, hq, -⟩ := create_eq_ok_iff.1 hc
          have h₁ := h.of_follow (remove_within (by simp)) hq
          exact .inr ⟨t', rfl, h₁, put_of_create h₁.around hn hu hc⟩
    · exact ⟨t, .inl rfl, .inl ⟨_, rfl⟩⟩

theorem confined_replaceWith (h : Inside dest d more a t) (hn : n ≠ dot) (hu : n ≠ dotDot)
    (x : FileNode) : Confined dest d t (replaceWith (dest ++ more ++ [n]) x) := by
  obtain ⟨t₁, ht₁, hr⟩ := run_replaceWith_cases h hn hu x
  have outside : ∀ p, ¬Below d p → t₁.node? p = t.node? p := by
    intro p hp
    rcases ht₁ with rfl | rfl
    · rfl
    · exact node?_remove_outside (h.below n) hp
  rcases hr with ⟨e, hr⟩ | ⟨t', hr, h₁, put⟩
  · exact ⟨by rw [hr]; exact outside, fun ok => by rw [hr] at ok; cases ok⟩
  · refine ⟨fun p hp => ?_, fun _ => ?_⟩
    · rw [hr, ← outside p hp]
      exact put.outside h₁ hp
    · rw [hr]
      exact put.within.canonical h₁.base

/-- Permissions are set at the place of the name, since what is there is no link. -/
theorem confined_applyMode (e : Tar.Entry) (h : Inside dest d more a t)
    (directory : t.isDirectoryAt a = true) (name : IsEntryName n) (hx : t.node? (a ++ [n]) = some x)
    (stays : ∀ target, x ≠ .link target) : Confined dest d t (applyMode e (dest ++ more ++ [n])) := by
  unfold applyMode
  split
  · refine .apply h.base fun t' ht => ?_
    obtain ⟨p, y, hp, hy, rfl⟩ := setMode_eq_ok_iff.1 ht
    have hc := canonical_child h.around directory name hx stays
    obtain rfl : p = a ++ [n] := Except.ok.inj (hp.symm.trans hc)
    exact ⟨fun q hq => node?_set_outside (h.below n) hq,
      (within_set_withMode (by simp) hy _).canonical h.base⟩
  · exact .pure h.base

/-! ### Members -/

theorem of_provideDirectory (h : Inside dest d more a t) (hn : n ≠ dot) (hu : n ≠ dotDot)
    (ht : provideDirectory t (dest ++ more ++ [n]) = .ok t') :
    t.Within t' ∧ (∀ p, ¬Below d p → t'.node? p = t.node? p) ∧ IsEntryName n ∧
      t.isDirectoryAt a = true ∧ ∃ mode, t'.node? (a ++ [n]) = some (.directory mode) := by
  unfold provideDirectory at ht
  split at ht
  · rename_i t₁ hm
    obtain rfl : t₁ = t' := Except.ok.inj ht
    have put := put_of_create h.around hn hu hm
    exact ⟨put.within, fun p hp => put.outside h hp, put.name, put.directory, _, put.there⟩
  · split at ht
    · rename_i mode hs
      split at ht
      · obtain rfl : t = t' := Except.ok.inj ht
        obtain ⟨p, hp, hx⟩ := linkStat_eq_ok_iff.1 hs
        obtain ⟨rfl, directory, name⟩ := of_follow_child h.around hn hu hp
        exact ⟨.refl t, fun _ _ => rfl, name, directory, mode, hx⟩
      · cases ht
    · cases ht

theorem confined_unpackDirectory (e : Tar.Entry) (h : Inside dest d more a t) (hn : n ≠ dot)
    (hu : n ≠ dotDot) : Confined dest d t (unpackDirectory e (dest ++ more ++ [n])) := by
  refine (Confined.apply h.base fun t' ht => ?_).bind fun t' hr _ => ?_
  · obtain ⟨within, outside, -⟩ := of_provideDirectory h hn hu ht
    exact ⟨outside, within.canonical h.base⟩
  · rw [run_apply] at hr
    split at hr
    · rename_i t₁ ht
      obtain rfl : t₁ = t' := (Prod.mk.inj hr).2
      obtain ⟨within, -, name, directory, mode, hx⟩ := of_provideDirectory h hn hu ht
      exact confined_applyMode e (h.of_within within) (within.isDirectoryAt directory) name hx
        fun _ e => by cases e
    · cases hr

theorem confined_unpackLink (h : Inside dest d more a t) (hn : n ≠ dot) (hu : n ≠ dotDot)
    (target : Bytes) : Confined dest d t (unpackLink (dest ++ more ++ [n]) target) := by
  unfold unpackLink
  split
  · exact .throw h.base _
  · split
    · exact .throw h.base _
    · exact confined_replaceWith h hn hu _

theorem confined_unpackHardLink (h : Inside dest d more a t) (hn : n ≠ dot) (hu : n ≠ dotDot)
    (target : Bytes) : Confined dest d t (unpackHardLink dest (dest ++ more ++ [n]) target) := by
  unfold unpackHardLink
  refine .get_bind ?_
  rw [h.base]
  refine (confined_requireInside h.base d _).bind fun t' hr _ => ?_
  obtain rfl := eq_of_requireInside hr
  refine .apply h.base fun t' ht => ?_
  rw [hardLink, bind_eq_ok_iff] at ht
  obtain ⟨y, -, ht⟩ := ht
  have create : t.create (dest ++ more ++ [n]) y = .ok t' := by
    cases y with
    | directory mode => cases ht
    | file mode data => exact ht
    | link target => exact ht
  have put := put_of_create h.around hn hu create
  exact ⟨fun p hp => put.outside h hp, put.within.canonical h.base⟩

theorem confined_unpackFile (e : Tar.Entry) (h : Inside dest d more a t) (hn : n ≠ dot)
    (hu : n ≠ dotDot) : Confined dest d t (unpackFile e (dest ++ more ++ [n])) := by
  unfold unpackFile
  simp only
  refine (confined_replaceWith h hn hu _).bind fun t' hr hd => ?_
  split
  · exact .throw hd _
  · obtain ⟨t₁, -, ⟨e, he⟩ | ⟨t₂, h₂, h₁, put⟩⟩ := run_replaceWith_cases h hn hu
      (.file newFileMode e.data.1)
    · rw [he] at hr
      cases hr
    · rw [h₂] at hr
      obtain rfl : t₂ = t' := (Prod.mk.inj hr).2
      exact confined_applyMode e (h₁.of_within put.within)
        (put.within.isDirectoryAt put.directory) put.name put.there fun _ e => by cases e

theorem confined_place (e : Tar.Entry) (h : Inside dest d more a t) (hn : n ≠ dot)
    (hu : n ≠ dotDot) : Confined dest d t (place e dest (dest ++ more ++ [n])) := by
  have file := confined_unpackFile e h hn hu
  have directory := confined_unpackDirectory e h hn hu
  unfold place
  simp only
  split
  · exact directory
  · split
    · split
      · exact .throw h.base _
      · split
        · exact .throw h.base _
        · split
          · exact confined_unpackHardLink h hn hu _
          · exact confined_unpackLink h hn hu _
    · split
      · exact .pure h.base
      · split
        · exact directory
        · exact file

/-- Missing directories are made one after another, each in one that has passed the check. -/
theorem confined_makeMissing {missing : List (List Name)} (hd : t.canonical dest = .ok d)
    (proper : ∀ names ∈ missing, ∃ init n, names = init ++ [n] ∧ n ≠ dot ∧ n ≠ dotDot) :
    Confined dest d t (makeMissing dest missing) := by
  induction missing generalizing t with
  | nil => exact .pure hd
  | cons names missing ih =>
    obtain ⟨⟨init, n, rfl, hn, hu⟩, rest⟩ := List.forall_mem_cons.1 proper
    unfold makeMissing
    refine (confined_requireInside hd dest _).bind fun t' hr _ => ?_
    obtain rfl := eq_of_requireInside hr
    rw [List.dropLast_concat] at hr
    obtain ⟨a, ha, inside⟩ := of_requireInside hd hr
    -- At most the last directory is made, and it lies in the place that was checked.
    have made : Confined dest d t (makeAll (fun fault => .archive fault.text) (init ++ [n])) := by
      have hs : ((makeAll (fun fault => .archive fault.text) (init ++ [n])).run t).2 =
          (t.makeDirectories (init ++ [n])).2 := by
        rw [run_makeAll]
        split <;> simp [*]
      rcases makeDirectories_child ha hn hu with same | ⟨nothing, set⟩
      · exact .of_same hd (by rw [hs, same])
      · refine ⟨fun p hp => ?_, fun _ => ?_⟩
        · rw [hs, set]
          exact node?_set_outside (below_child inside n) hp
        · rw [hs, set]
          exact (within_set nothing _).canonical hd
    exact made.bind fun t' _ hd' => ih hd' rest

theorem proper_wayTo {name : Bytes} (h : n ∈ wayTo name) : n ≠ dot ∧ n ≠ dotDot := by
  obtain ⟨c, hc, hn⟩ := List.mem_filterMap.1 h
  -- Every step that is a name comes from a piece that is no dot.
  have step {l : List Name} (hs : c ∈ (l.filter (· != dot)).map Component.ofPiece) :
      n ≠ dot ∧ n ≠ dotDot := by
    obtain ⟨piece, hp, rfl⟩ := List.mem_map.1 hs
    have hd : piece ≠ dot := by simpa using (List.mem_filter.1 hp).2
    by_cases hu : piece = dotDot
    · rw [Component.ofPiece, if_pos hu] at hn
      cases hn
    · rw [Component.ofPiece, if_neg hu] at hn
      obtain rfl : piece = n := Option.some.inj hn
      exact ⟨hd, hu⟩
  unfold components at hc
  simp only at hc
  split at hc
  · rcases List.mem_cons.1 hc with rfl | hs
    · cases hn
    · exact step hs
  · split at hc
    · split at hc
      · rcases List.mem_cons.1 hc with rfl | hs
        · cases hn
        · exact step hs
      · exact step hc
    · cases hc

theorem lt_of_mem_takeWhile {q : Nat → Bool} {N j k : Nat} (hj : q j = false) (hN : j < N)
    (hk : k ∈ (List.range N).reverse.takeWhile q) : j < k := by
  induction N with
  | zero => omega
  | succ N ih =>
    rw [List.range_succ, List.reverse_concat, List.takeWhile_cons] at hk
    split at hk
    · rename_i hq
      have hne : j ≠ N := by
        rintro rfl
        simp [hj] at hq
      rcases List.mem_cons.1 hk with rfl | hk
      · omega
      · exact ih (by omega) hk
    · cases hk

/-- What is missing of a way lies beyond any beginning of it that leads to something. -/
theorem of_mem_missing {names' : List Name} {missing : List Name → Bool}
    (there : missing names = false)
    (h : names' ∈ (beginnings (names ++ more)).takeWhile missing) :
    ∃ init n, names' = names ++ init ++ [n] ∧ n ∈ more := by
  rw [beginnings, List.takeWhile_map] at h
  obtain ⟨k, hk, rfl⟩ := List.mem_map.1 h
  have hle : k < (names ++ more).length + 1 :=
    List.mem_range.1 (List.mem_reverse.1 ((List.takeWhile_sublist _).mem hk))
  have hlt : names.length < k := by
    refine lt_of_mem_takeWhile ?_ (by rw [List.length_append]; omega) hk
    simpa using there
  rw [List.length_append] at hle
  obtain ⟨j, rfl⟩ : ∃ j, k = names.length + (j + 1) := ⟨k - names.length - 1, by omega⟩
  have hj : j < more.length := by omega
  refine ⟨more.take j, more[j], ?_, List.getElem_mem hj⟩
  rw [List.take_length_add_append, List.take_succ_eq_append_getElem hj, List.append_assoc]

theorem confined_ensureAround (hd : t.canonical dest = .ok d)
    (proper : ∀ n ∈ more, n ≠ dot ∧ n ≠ dotDot) :
    Confined dest d t (ensureAround dest (dest ++ more)) := by
  unfold ensureAround
  refine .get_bind (confined_makeMissing hd fun names' h => ?_)
  obtain ⟨y, there⟩ := linkStat_of_canonical hd
  obtain ⟨init, n, rfl, hn⟩ := of_mem_missing (by simp only [there]) (List.mem_reverse.1 h)
  exact ⟨dest ++ init, n, rfl, proper n hn⟩

theorem confined_unpackEntry (e : Tar.Entry) (hd : t.canonical dest = .ok d) :
    Confined dest d t (unpackEntry dest e) := by
  unfold unpackEntry
  split
  · exact .throw hd _
  · simp only
    split
    · exact .pure hd
    · rename_i hw
      have proper : ∀ n ∈ wayTo e.name, n ≠ dot ∧ n ≠ dotDot := fun n h => proper_wayTo h
      obtain ⟨more, n, way⟩ : ∃ more n, wayTo e.name = more ++ [n] := by
        rcases List.eq_nil_or_concat (wayTo e.name) with nil | ⟨more, n, way⟩
        · simp [nil] at hw
        · exact ⟨more, n, by simpa using way⟩
      rw [way] at proper ⊢
      rw [List.dropLast_concat, ← List.append_assoc]
      obtain ⟨hn, hu⟩ := proper n (by simp)
      refine (confined_ensureAround hd fun m hm => proper m (by simp [hm])).bind fun t' _ hd' => ?_
      refine (confined_requireInside hd' dest _).bind fun t'' hr hd'' => ?_
      obtain rfl := eq_of_requireInside hr
      obtain ⟨a, around, inside⟩ := of_requireInside hd' hr
      exact confined_place e ⟨hd', around, inside⟩ hn hu

theorem confined_unpackEntries (es : List Tar.Entry) (hd : t.canonical dest = .ok d) :
    Confined dest d t (unpackEntries dest es) := by
  induction es generalizing t with
  | nil => exact .pure hd
  | cons e es ih =>
    unfold unpackEntries
    exact (confined_unpackEntry e hd).bind fun t' _ hd' => ih hd'

/-! ### Archives -/

/-- Whatever the archive is and however unpacking it ends, at every place there is what was there
before; or the place is below the one that the directory's names lead to once it is made; or it is the
directory or one on the way to it, and was made where nothing was. -/
theorem node?_extract (t : FileTree) (dest : List Name) (archive : Bytes) (p : Place) :
    (extract t dest archive).2.node? p = t.node? p ∨
      (∃ d, (t.makeDirectories dest).2.canonical dest = .ok d ∧ Below d p) ∨
      t.node? p = none ∧
        (extract t dest archive).2.node? p = some (.directory newDirectoryMode) ∧
        ∃ k, (t.makeDirectories dest).2.canonical (dest.take k) = .ok p := by
  obtain ⟨grown, leads⟩ := extends_makeDirectories (t := t) dest
  have same (h : (extract t dest archive).2.node? p = (t.makeDirectories dest).2.node? p) :
      (extract t dest archive).2.node? p = t.node? p ∨ t.node? p = none ∧
        (extract t dest archive).2.node? p = some (.directory newDirectoryMode) ∧
        ∃ k, (t.makeDirectories dest).2.canonical (dest.take k) = .ok p := by
    rw [h]
    exact grown p
  rw [run_extract] at same ⊢
  rcases hm : t.makeDirectories dest with ⟨fault | _, t₁⟩
  · rw [hm] at same
    exact (same rfl).imp_right .inr
  · rw [hm] at same leads
    obtain ⟨d, hd⟩ := leads rfl
    by_cases hb : Below d p
    · exact .inr (.inl ⟨d, hd, hb⟩)
    · have confined : Confined dest d t₁ (unpackEntries dest (Tar.entries (Gzip.source archive)).1 >>=
          fun _ => if !(Tar.entries (Gzip.source archive)).2 then throw (.archive "unreadable member")
            else Pure.pure ()) := by
        refine (confined_unpackEntries _ hd).bind fun t' _ hd' => ?_
        split
        · exact .throw hd' _
        · exact .pure hd'
      exact (same (confined.outside p hb)).imp_right .inr

end Archive
end ContainerBuild
