import ContainerBuild.FileTree

/-!
# Following paths

`Leads` says which place a path leads to and through how many links, one case for each kind of step.
Following a path comes to a place exactly if the path leads there through links that are not too many.

A path is followed in parts: where its beginning leads to something, the rest goes on from there. And
where it leads depends only on the nodes on the way, so in a tree that has further nodes, or other
permissions, a path that leads to something still leads to it.
-/

namespace ContainerBuild
namespace FileTree

open FilePath (dot dotDot)

/-- What a name must be for a step into a directory. -/
structure IsEntryName (n : Name) : Prop where
  ne_dot : n ≠ dot
  ne_dotDot : n ≠ dotDot
  no_zero : 0 ∉ n
  short : n.length ≤ maxName

/-- The names lead from a directory to a place, through a number of links. Only the last name may be one
that nothing has. A link at the end is a step on the way only with `through`. -/
inductive Leads (t : FileTree) (through : Bool) : Nat → Place → List Name → Place → Prop
  | stop {dir : Place} : Leads t through 0 dir [] dir
  | here {k : Nat} {dir p : Place} {rest : List Name} (inside : t.isDirectoryAt dir = true)
      (go : Leads t through k dir rest p) : Leads t through k dir (dot :: rest) p
  | up {k : Nat} {dir p : Place} {rest : List Name} (inside : t.isDirectoryAt dir = true)
      (go : Leads t through k dir.dropLast rest p) : Leads t through k dir (dotDot :: rest) p
  | missing {dir : Place} {n : Name} (inside : t.isDirectoryAt dir = true) (hn : IsEntryName n)
      (nothing : t.node? (dir ++ [n]) = none) : Leads t through 0 dir [n] (dir ++ [n])
  | halt {dir : Place} {n : Name} {target : Bytes} (inside : t.isDirectoryAt dir = true)
      (hn : IsEntryName n) (hl : t.node? (dir ++ [n]) = some (.link target))
      (ht : through = false) : Leads t through 0 dir [n] (dir ++ [n])
  | link {k : Nat} {dir p : Place} {n : Name} {rest : List Name} {target : Bytes}
      (inside : t.isDirectoryAt dir = true) (hn : IsEntryName n)
      (hl : t.node? (dir ++ [n]) = some (.link target)) (hr : rest ≠ [] ∨ through = true)
      (go : Leads t through k (if FilePath.isAbsolute target then [] else dir)
        (FilePath.walk target ++ rest) p) : Leads t through (k + 1) dir (n :: rest) p
  | enter {k : Nat} {dir p : Place} {n : Name} {rest : List Name} {x : FileNode}
      (inside : t.isDirectoryAt dir = true) (hn : IsEntryName n)
      (hx : t.node? (dir ++ [n]) = some x) (stays : ∀ target, x ≠ .link target)
      (go : Leads t through k (dir ++ [n]) rest p) : Leads t through k dir (n :: rest) p

variable {t t' : FileTree} {through : Bool} {dir p q : Place} {names rest : List Name}

theorem isDirectoryAt_iff : t.isDirectoryAt p = true ↔ ∃ mode, t.node? p = some (.directory mode) := by
  unfold isDirectoryAt
  split <;> simp_all

/-! ### Following and leading -/

theorem advance_dot (inside : t.isDirectoryAt dir = true) :
    t.advance through dir (dot :: rest) = t.advance through dir rest := by
  rw [advance]
  simp only [inside, Bool.not_true, Bool.false_eq_true, if_false, if_true]

theorem advance_dotDot (inside : t.isDirectoryAt dir = true) :
    t.advance through dir (dotDot :: rest) = t.advance through dir.dropLast rest := by
  have hne : dotDot ≠ dot := by decide
  rw [advance]
  simp only [inside, hne, Bool.not_true, Bool.false_eq_true, if_false, if_true]

theorem advance_name {n : Name} (inside : t.isDirectoryAt dir = true) (hn : IsEntryName n) :
    t.advance through dir (n :: rest) =
      match t.node? (dir ++ [n]) with
      | none => if rest.isEmpty then .ok (.arrived (dir ++ [n])) else .error .notFound
      | some (.link target) =>
        if rest.isEmpty && !through then .ok (.arrived (dir ++ [n]))
        else .ok (.link (if FilePath.isAbsolute target then [] else dir)
          (FilePath.walk target ++ rest))
      | some _ => t.advance through (dir ++ [n]) rest := by
  rw [advance]
  rcases t.node? (dir ++ [n]) with _ | _ | _ | _ <;>
    simp [inside, hn.ne_dot, hn.ne_dotDot, hn.no_zero, Nat.not_lt.2 hn.short]

theorem advance_enter {n : Name} {x : FileNode} (inside : t.isDirectoryAt dir = true)
    (hn : IsEntryName n) (hx : t.node? (dir ++ [n]) = some x) (stays : ∀ target, x ≠ .link target) :
    t.advance through dir (n :: rest) = t.advance through (dir ++ [n]) rest := by
  rw [advance_name inside hn, hx]
  cases x with
  | link target => exact absurd rfl (stays target)
  | file mode data => rfl
  | directory mode => rfl

theorem advance_link {n : Name} {target : Bytes} (inside : t.isDirectoryAt dir = true)
    (hn : IsEntryName n) (hl : t.node? (dir ++ [n]) = some (.link target))
    (hr : rest ≠ [] ∨ through = true) :
    t.advance through dir (n :: rest) =
      .ok (.link (if FilePath.isAbsolute target then [] else dir) (FilePath.walk target ++ rest)) := by
  have onward : (rest.isEmpty && !through) = false := by
    rcases hr with hr | rfl
    · simp [hr]
    · simp
  rw [advance_name inside hn, hl]
  simp only [onward, Bool.false_eq_true, if_false]

theorem advance_cons_cases {n : Name} {s : Step} (h : t.advance through dir (n :: rest) = .ok s) :
    t.isDirectoryAt dir = true ∧ (n = dot ∨ n = dotDot ∨ IsEntryName n) := by
  rw [advance] at h
  cases inside : t.isDirectoryAt dir with
  | false => simp [inside] at h
  | true =>
    refine ⟨rfl, ?_⟩
    by_cases hd : n = dot
    · exact .inl hd
    by_cases hu : n = dotDot
    · exact .inr (.inl hu)
    by_cases hz : 0 ∈ n
    · simp [inside, hd, hu, hz] at h
    by_cases hl : maxName < n.length
    · simp [inside, hd, hu, hz, hl] at h
    · exact .inr (.inr ⟨hd, hu, hz, Nat.not_lt.1 hl⟩)

theorem leads_of_arrived (h : t.advance through dir names = .ok (.arrived p)) :
    t.Leads through 0 dir names p := by
  induction names generalizing dir with
  | nil =>
    cases h
    exact .stop
  | cons n rest ih =>
    obtain ⟨inside, rfl | rfl | hn⟩ := advance_cons_cases h
    · rw [advance_dot inside] at h
      exact .here inside (ih h)
    · rw [advance_dotDot inside] at h
      exact .up inside (ih h)
    · rw [advance_name inside hn] at h
      split at h
      · rename_i nothing
        split at h
        · rename_i hr
          obtain rfl : rest = [] := by simpa using hr
          cases h
          exact .missing inside hn nothing
        · cases h
      · rename_i target hl
        split at h
        · rename_i hr
          obtain ⟨rfl, rfl⟩ : rest = [] ∧ through = false := by simpa using hr
          cases h
          exact .halt inside hn hl rfl
        · cases h
      · rename_i x stays hx
        exact .enter inside hn hx stays (ih h)

/-- Where `advance` finds a link, the path goes on along its target. -/
theorem leads_of_link {dir' : Place} {more : List Name} {k : Nat}
    (h : t.advance through dir names = .ok (.link dir' more)) (go : t.Leads through k dir' more p) :
    t.Leads through (k + 1) dir names p := by
  induction names generalizing dir with
  | nil => cases h
  | cons n rest ih =>
    obtain ⟨inside, rfl | rfl | hn⟩ := advance_cons_cases h
    · rw [advance_dot inside] at h
      exact .here inside (ih h)
    · rw [advance_dotDot inside] at h
      exact .up inside (ih h)
    · rw [advance_name inside hn] at h
      split at h
      · split at h <;> cases h
      · rename_i target hl
        split at h
        · cases h
        · rename_i hr
          cases h
          refine .link inside hn hl ?_ go
          by_cases he : rest = []
          · right
            simpa [he] using hr
          · exact .inl he
      · rename_i x stays hx
        exact .enter inside hn hx stays (ih h)

theorem followFrom_congr {dir' : Place} {names' : List Name} {links : Nat}
    (h : t.advance through dir names = t.advance through dir' names') :
    t.followFrom through links dir names = t.followFrom through links dir' names' := by
  unfold followFrom
  rw [h]

theorem followFrom_of_arrived {links : Nat} (h : t.advance through dir names = .ok (.arrived p)) :
    t.followFrom through links dir names = .ok p := by
  unfold followFrom
  rw [h]

theorem followFrom_of_link {dir' : Place} {more : List Name} {links : Nat}
    (h : t.advance through dir names = .ok (.link dir' more)) :
    t.followFrom through (links + 1) dir names = t.followFrom through links dir' more := by
  rw [followFrom, h]

/-- Following a path comes to a place exactly if it leads there through links that are not too many. -/
theorem followFrom_eq_ok_iff {links : Nat} :
    t.followFrom through links dir names = .ok p ↔ ∃ k ≤ links, t.Leads through k dir names p := by
  constructor
  · intro h
    induction links generalizing dir names with
    | zero =>
      unfold followFrom at h
      split at h
      · cases h
      · rename_i ha
        cases h
        exact ⟨0, Nat.le_refl 0, leads_of_arrived ha⟩
      · cases h
    | succ links ih =>
      rw [followFrom] at h
      split at h
      · cases h
      · rename_i ha
        cases h
        exact ⟨0, Nat.zero_le _, leads_of_arrived ha⟩
      · rename_i ha
        obtain ⟨k, hk, go⟩ := ih h
        exact ⟨k + 1, Nat.succ_le_succ hk, leads_of_link ha go⟩
  · rintro ⟨k, hk, h⟩
    induction h generalizing links with
    | stop => exact followFrom_of_arrived rfl
    | here inside go ih => rw [followFrom_congr (advance_dot inside), ih hk]
    | up inside go ih => rw [followFrom_congr (advance_dotDot inside), ih hk]
    | missing inside hn nothing =>
      refine followFrom_of_arrived ?_
      rw [advance_name inside hn, nothing]
      rfl
    | halt inside hn hl ht =>
      refine followFrom_of_arrived ?_
      rw [advance_name inside hn, hl, ht]
      rfl
    | @link k dir p n rest target inside hn hl hr go ih =>
      obtain ⟨links, rfl⟩ : ∃ m, links = m + 1 := ⟨links - 1, by omega⟩
      rw [followFrom_of_link (advance_link inside hn hl hr), ih (by omega)]
    | @enter k dir p n rest x inside hn hx stays go ih =>
      rw [followFrom_congr (advance_enter inside hn hx stays), ih hk]

/-! ### Parts of a path -/

namespace Leads

/-- A path that goes on after some names has come to a directory with them. -/
theorem split {m : Nat} (h : t.Leads through m dir (names ++ rest) q) (hr : rest ≠ []) :
    ∃ p k j, k ≤ m ∧ t.Leads true k dir names p ∧ t.isDirectoryAt p = true ∧
      t.Leads through j p rest q := by
  generalize hl : names ++ rest = all at h
  induction h generalizing names with
  | stop => simp_all
  | @here k dir q more inside go ih =>
    cases names with
    | nil =>
      obtain rfl : rest = dot :: more := hl
      exact ⟨dir, 0, k, Nat.zero_le _, .stop, inside, .here inside go⟩
    | cons n names =>
      obtain ⟨rfl, rfl⟩ := List.cons.inj hl
      obtain ⟨p, k', j, hk, h, hp, g⟩ := ih rfl
      exact ⟨p, k', j, hk, .here inside h, hp, g⟩
  | @up k dir q more inside go ih =>
    cases names with
    | nil =>
      obtain rfl : rest = dotDot :: more := hl
      exact ⟨dir, 0, k, Nat.zero_le _, .stop, inside, .up inside go⟩
    | cons n names =>
      obtain ⟨rfl, rfl⟩ := List.cons.inj hl
      obtain ⟨p, k', j, hk, h, hp, g⟩ := ih rfl
      exact ⟨p, k', j, hk, .up inside h, hp, g⟩
  | @missing dir n inside hn nothing =>
    cases names with
    | nil =>
      obtain rfl : rest = [n] := hl
      exact ⟨dir, 0, 0, Nat.zero_le _, .stop, inside, .missing inside hn nothing⟩
    | cons n' names => simp_all
  | @halt dir n target inside hn hx ht =>
    cases names with
    | nil =>
      obtain rfl : rest = [n] := hl
      exact ⟨dir, 0, 0, Nat.zero_le _, .stop, inside, .halt inside hn hx ht⟩
    | cons n' names => simp_all
  | @link k dir q n more target inside hn hx hm go ih =>
    cases names with
    | nil =>
      obtain rfl : rest = n :: more := hl
      exact ⟨dir, 0, k + 1, Nat.zero_le _, .stop, inside, .link inside hn hx hm go⟩
    | cons n' names =>
      obtain ⟨rfl, rfl⟩ := List.cons.inj hl
      obtain ⟨p, k', j, hk, h, hp, g⟩ := ih (List.append_assoc _ names rest)
      exact ⟨p, k' + 1, j, Nat.succ_le_succ hk, .link inside hn hx (.inr rfl) h, hp, g⟩
  | @enter k dir q n more x inside hn hx stays go ih =>
    cases names with
    | nil =>
      obtain rfl : rest = n :: more := hl
      exact ⟨dir, 0, k, Nat.zero_le _, .stop, inside, .enter inside hn hx stays go⟩
    | cons n' names =>
      obtain ⟨rfl, rfl⟩ := List.cons.inj hl
      obtain ⟨p, k', j, hk, h, hp, g⟩ := ih rfl
      exact ⟨p, k', j, hk, .enter inside hn hx stays h, hp, g⟩

/-- A path that leads to something with the link at its end followed leads to something without. -/
theorem to_end {k : Nat} (h : t.Leads true k dir names p) (hp : t.node? p ≠ none) :
    ∃ q j, j ≤ k ∧ t.Leads false j dir names q ∧ t.node? q ≠ none := by
  induction h with
  | stop => exact ⟨_, 0, Nat.le_refl 0, .stop, hp⟩
  | here inside go ih =>
    obtain ⟨q, j, hj, h, hq⟩ := ih hp
    exact ⟨q, j, hj, .here inside h, hq⟩
  | up inside go ih =>
    obtain ⟨q, j, hj, h, hq⟩ := ih hp
    exact ⟨q, j, hj, .up inside h, hq⟩
  | missing inside hn nothing => exact absurd nothing hp
  | halt inside hn hl ht => cases ht
  | @link k dir p n rest target inside hn hl _ go ih =>
    by_cases hr : rest = []
    · subst hr
      exact ⟨dir ++ [n], 0, Nat.zero_le _, .halt inside hn hl rfl, by simp [hl]⟩
    · obtain ⟨q, j, hj, h, hq⟩ := ih hp
      exact ⟨q, j + 1, Nat.succ_le_succ hj, .link inside hn hl (.inl hr) h, hq⟩
  | enter inside hn hx stays go ih =>
    obtain ⟨q, j, hj, h, hq⟩ := ih hp
    exact ⟨q, j, hj, .enter inside hn hx stays h, hq⟩

end Leads

/-- Where names lead to something, the rest of a path is followed from there. -/
theorem followFrom_append {k : Nat} (h : t.Leads true k dir names p) (hp : t.node? p ≠ none)
    (hr : rest ≠ []) (links : Nat) :
    t.followFrom through (links + k) dir (names ++ rest) = t.followFrom through links p rest := by
  induction h with
  | stop => rfl
  | here inside go ih => rw [List.cons_append, followFrom_congr (advance_dot inside), ih hp]
  | up inside go ih => rw [List.cons_append, followFrom_congr (advance_dotDot inside), ih hp]
  | missing inside hn nothing => exact absurd nothing hp
  | halt inside hn hl ht => cases ht
  | @link k dir p n names target inside hn hl _ go ih =>
    have onward : names ++ rest ≠ [] := List.append_ne_nil_of_right_ne_nil names hr
    rw [← Nat.add_assoc, List.cons_append,
      followFrom_of_link (advance_link inside hn hl (.inl onward)), ← List.append_assoc, ih hp]
  | @enter k dir p n names x inside hn hx stays go ih =>
    rw [List.cons_append, followFrom_congr (advance_enter inside hn hx stays), ih hp]

/-! ### Single names -/

/-- A single step by a name: a link at the end is no step, and nothing needs to be there. -/
theorem followFrom_single {n : Name} (hd : n ≠ dot) (hu : n ≠ dotDot) (links : Nat) :
    t.followFrom false links dir [n] =
      if t.isDirectoryAt dir then
        if 0 ∈ n then .error .invalidArgument
        else if maxName < n.length then .error .nameTooLong
        else .ok (dir ++ [n])
      else .error .notADirectory := by
  cases inside : t.isDirectoryAt dir with
  | false =>
    unfold followFrom
    simp [advance, inside]
  | true =>
    by_cases hz : 0 ∈ n
    · unfold followFrom
      simp [advance, inside, hd, hu, hz]
    by_cases hl : maxName < n.length
    · unfold followFrom
      simp [advance, inside, hd, hu, hz, hl]
    simp only [hz, hl, if_true, if_false]
    refine followFrom_of_arrived ?_
    rw [advance_name inside ⟨hd, hu, hz, Nat.not_lt.1 hl⟩]
    cases hx : t.node? (dir ++ [n]) with
    | none => rfl
    | some x => cases x <;> rfl

/-! ### Trees with further nodes -/

/-- Every node of the one tree is in the other too, perhaps with other permissions. -/
def Within (t t' : FileTree) : Prop :=
  ∀ p n, t.node? p = some n → ∃ mode, t'.node? p = some (FileNode.withMode mode n)

theorem exists_withMode (n : FileNode) : ∃ mode, FileNode.withMode mode n = n := by
  cases n with
  | file mode data => exact ⟨mode, rfl⟩
  | directory mode => exact ⟨mode, rfl⟩
  | link target => exact ⟨0, rfl⟩

theorem withMode_eq_link_iff {mode : Nat} {n : FileNode} {target : Bytes} :
    FileNode.withMode mode n = .link target ↔ n = .link target := by
  cases n <;> simp [FileNode.withMode]

namespace Within

theorem refl (t : FileTree) : t.Within t := by
  intro p n h
  obtain ⟨mode, hm⟩ := exists_withMode n
  exact ⟨mode, by rw [h, hm]⟩

theorem isSome (h : t.Within t') (hp : t.node? p ≠ none) : t'.node? p ≠ none := by
  obtain ⟨n, hn⟩ := Option.ne_none_iff_exists'.1 hp
  obtain ⟨mode, hm⟩ := h p n hn
  simp [hm]

theorem isDirectoryAt (h : t.Within t') (hp : t.isDirectoryAt p = true) :
    t'.isDirectoryAt p = true := by
  obtain ⟨mode, hm⟩ := isDirectoryAt_iff.1 hp
  obtain ⟨mode', hm'⟩ := h p _ hm
  exact isDirectoryAt_iff.2 ⟨mode', hm'⟩

/-- What a path leads to, it leads to in a tree with further nodes as well. -/
theorem leads (h : t.Within t') {k : Nat} (g : t.Leads true k dir names p) (hp : t.node? p ≠ none) :
    t'.Leads true k dir names p := by
  induction g with
  | stop => exact .stop
  | here inside go ih => exact .here (h.isDirectoryAt inside) (ih hp)
  | up inside go ih => exact .up (h.isDirectoryAt inside) (ih hp)
  | missing inside hn nothing => exact absurd nothing hp
  | halt inside hn hl ht => cases ht
  | link inside hn hl hr go ih =>
    obtain ⟨_, hl'⟩ := h _ _ hl
    exact .link (h.isDirectoryAt inside) hn hl' hr (ih hp)
  | enter inside hn hx stays go ih =>
    obtain ⟨mode, hx'⟩ := h _ _ hx
    exact .enter (h.isDirectoryAt inside) hn hx'
      (fun target e => stays target (withMode_eq_link_iff.1 e)) (ih hp)

end Within

/-! ### Trees without some of the files -/

/-- Every directory and every link of the one tree is in the other too. -/
def KeepsWays (t t' : FileTree) : Prop :=
  ∀ p x, t.node? p = some x → (∀ mode data, x ≠ .file mode data) → t'.node? p = some x

theorem KeepsWays.isDirectoryAt (h : t.KeepsWays t') (hp : t.isDirectoryAt p = true) :
    t'.isDirectoryAt p = true := by
  obtain ⟨mode, hm⟩ := isDirectoryAt_iff.1 hp
  exact isDirectoryAt_iff.2 ⟨mode, h p _ hm fun _ _ => nofun⟩

theorem Leads.isDirectoryAt_start {k : Nat} (h : t.Leads through k dir names p)
    (hp : t.isDirectoryAt p = true) : t.isDirectoryAt dir = true := by
  cases h with
  | stop => exact hp
  | here inside => exact inside
  | up inside => exact inside
  | missing inside => exact inside
  | halt inside => exact inside
  | link inside => exact inside
  | enter inside => exact inside

/-- There is no file on the way to a directory. -/
theorem KeepsWays.leads (h : t.KeepsWays t') {k : Nat} (g : t.Leads true k dir names p)
    (hp : t.isDirectoryAt p = true) : t'.Leads true k dir names p := by
  induction g with
  | stop => exact .stop
  | here inside go ih => exact .here (h.isDirectoryAt inside) (ih hp)
  | up inside go ih => exact .up (h.isDirectoryAt inside) (ih hp)
  | missing inside hn nothing =>
    obtain ⟨mode, hm⟩ := isDirectoryAt_iff.1 hp
    rw [nothing] at hm
    cases hm
  | halt inside hn hl ht => cases ht
  | link inside hn hl hr go ih =>
    exact .link (h.isDirectoryAt inside) hn (h _ _ hl fun _ _ => nofun) hr (ih hp)
  | enter inside hn hx stays go ih =>
    obtain ⟨mode, hm⟩ := isDirectoryAt_iff.1 (go.isDirectoryAt_start hp)
    exact .enter (h.isDirectoryAt inside) hn (h _ _ hm fun _ _ => nofun) (fun _ => nofun) (ih hp)

end FileTree
end ContainerBuild
