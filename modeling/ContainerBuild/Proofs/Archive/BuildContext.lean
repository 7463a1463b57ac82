import ContainerBuild.Proofs.Archive.RoundTrip

/-!
# The context of a build

The archive of a context has the members of its directory, but for the build description, which is the
given one. What lies in a directory with the name of the build description is packed all the same, below
a file: there is then more than one member with that beginning, and the archive cannot be unpacked.
-/

namespace ContainerBuild
namespace Archive

open FileTree FilePath

variable {t t₀ : FileTree} {root dest : List Name} {r d : Place} {dockerfile : Bytes}

def description : Name := Utf8.encode dockerfileName

def descriptionMember (dockerfile : Bytes) : Tar.Member :=
  fileMember dockerfileName dockerfileMode dockerfile

def others (l : List (Place × FileNode)) : List (Place × FileNode) :=
  l.filter fun node => node.1 != [description]

/-- The nodes of a context with the given build description, in the order of the members. -/
def contextNodes (dockerfile : Bytes) (l : List (Place × FileNode)) : List (Place × FileNode) :=
  others l ++ [([description], .file dockerfileMode dockerfile)]

def contextMembers (dockerfile : Bytes) (l : List (Place × FileNode)) : List Tar.Member :=
  (others l).map (fun (p, x) => memberOf p x) ++ [descriptionMember dockerfile]

/-- Whether a member is a build description or lies below one. -/
def isAtDescription (e : Tar.Entry) : Bool :=
  (wayTo e.name).head? == some description

/-- Nothing lies below the build description of a context. -/
def NothingBelow (t : FileTree) (r : Place) : Prop :=
  ∀ q, q ≠ [] → t.node? (r ++ description :: q) = none

/-- The target of unpacking: some names lead to a directory with nothing in it. -/
structure EmptyDirectory (t₀ : FileTree) (dest : List Name) (d : Place) : Prop where
  leads : t₀.canonical dest = .ok d
  directory : t₀.isDirectoryAt d = true
  empty : ∀ p, Below d p → t₀.node? p = none

/-- What lies below a place is what a tree has, but for the build description, and nothing else has
changed. -/
structure Replaced (t : FileTree) (r : Place) (dockerfile : Bytes) (t₀ : FileTree) (d : Place)
    (t₁ : FileTree) : Prop where
  inside : ∀ q, q ≠ [] → Option.Rel FileNode.Alike
    ((t.set (r ++ [description]) (.file dockerfileMode dockerfile)).node? (r ++ q)) (t₁.node? (d ++ q))
  outside : ∀ p, ¬Below d p → t₁.node? p = t₀.node? p

theorem nothingBelow_iff : NothingBelow t r ↔ ∀ node ∈ t.below r,
    node.1.head? = some description → node.1 = [description] := by
  constructor
  · rintro nothing ⟨p, x⟩ hp first
    obtain ⟨q, rfl⟩ : ∃ q, p = description :: q := List.head?_eq_some_iff.1 first
    by_contra more
    have none := nothing q (by simpa using more)
    rw [(mem_below_iff.1 hp).2] at none
    cases none
  · intro only q hq
    by_contra there
    obtain ⟨x, hx⟩ := Option.ne_none_iff_exists'.1 there
    have mem : (description :: q, x) ∈ t.below r := mem_below_iff.2 ⟨List.cons_ne_nil _ _, hx⟩
    exact hq (by simpa using only _ mem rfl)

instance : Decidable (NothingBelow t r) :=
  decidable_of_iff' _ nothingBelow_iff

/-! ### The members -/

theorem isName_description : IsName description ∧ 0 ∉ description ∧ description.length ≤ maxName := by
  refine ⟨isName_iff.2 ?_, ?_, ?_⟩ <;> decide

theorem memberName_eq_description_iff {p : Place} (hp : ∀ n ∈ p, IsName n) :
    memberName p = description ↔ p = [description] := by
  constructor
  · intro h
    have way : wayTo description = [description] := by decide
    rw [← way, ← h, wayTo_memberName hp]
  · rintro rfl
    exact List.intercalate_singleton

theorem names_of_mem_below (wellFormed : t.WellFormed) {p : Place} {x : FileNode}
    (h : (p, x) ∈ t.below r) : ∀ n ∈ p, IsName n := by
  obtain ⟨-, hx⟩ := mem_below_iff.1 h
  intro n hn
  exact (wellFormed.names (p := r) (by simp [hx]) n hn).1

theorem members_filter (wellFormed : t.WellFormed) (r : Place) :
    ((t.below r).map fun (p, x) => memberOf p x).filter (fun m => m.name != description) =
      (others (t.below r)).map fun (p, x) => memberOf p x := by
  rw [List.filter_map, others]
  refine congrArg _ (List.filter_congr ?_)
  rintro ⟨p, x⟩ h
  have same := memberName_eq_description_iff (names_of_mem_below wellFormed h)
  rw [Function.comp_apply, memberOf_name, bne, bne, Bool.eq_iff_iff]
  simp [same]

theorem buildContext_eq (wellFormed : t.WellFormed) (hr : t.canonical root = .ok r) :
    buildContext dockerfile (some (t, root)) =
      ofMembers (contextMembers dockerfile (t.below r)) := by
  rw [contextMembers, ← members_filter wellFormed r, buildContext, treeMembers, hr]
  rfl

theorem ofDirectory_eq (hr : t.canonical root = .ok r) :
    ofDirectory t root = ofMembers ((t.below r).map fun (p, x) => memberOf p x) := by
  rw [ofDirectory, treeMembers, hr]
  rfl

theorem ofMembers_eq_ok_iff {ms : List Tar.Member} {archive : Bytes} :
    ofMembers ms = .ok archive ↔ Tar.write ms = .ok archive :=
  mapError_eq_ok_iff

theorem length_description : ¬Tar.nameWidth < description.length := by decide

theorem writable_left_out (wellFormed : t.WellFormed) {p : Place} {x : FileNode}
    (h : (p, x) ∈ t.below r) (name : memberName p = description) : (memberOf p x).Writable := by
  obtain ⟨hp, hx⟩ := mem_below_iff.1 h
  exact writable_memberOf wellFormed hx hp fun long => absurd (name ▸ long) length_description

theorem buildContext_of_error (wellFormed : t.WellFormed) (hr : t.canonical root = .ok r)
    {e : BuildError} (h : ofDirectory t root = .error e) :
    buildContext dockerfile (some (t, root)) = .error e := by
  rw [ofDirectory_eq hr, ofMembers, Tar.write] at h
  rw [buildContext_eq wellFormed hr, contextMembers, ← members_filter wellFormed r, ofMembers,
    Tar.write]
  cases body : Tar.renderAll ((t.below r).map fun (p, x) => memberOf p x) with
  | ok bytes =>
    rw [body] at h
    cases h
  | error flaw =>
    rw [body] at h
    have written : ∀ m ∈ (t.below r).map (fun (p, x) => memberOf p x),
        (m.name != description) = false → ∃ own, m.render = .ok own := by
      intro m hm left
      obtain ⟨⟨p, x⟩, hp, rfl⟩ := List.mem_map.1 hm
      have name : memberName p = description := by simpa using left
      obtain ⟨own, render, -⟩ := Tar.exists_render (writable_left_out wellFormed hp name)
      exact ⟨own, render⟩
    rw [Tar.renderAll_filter_append body written]
    exact h

theorem writable_of_packed (wellFormed : t.WellFormed) (hr : t.canonical root = .ok r) {packed : Bytes}
    (h : ofDirectory t root = .ok packed) :
    ∀ m ∈ (t.below r).map (fun (p, x) => memberOf p x), m.Writable := by
  rw [ofDirectory_eq hr, ofMembers_eq_ok_iff] at h
  obtain ⟨body, hb, -⟩ := bind_eq_ok_iff.1 h
  intro m hm
  obtain ⟨⟨p, x⟩, mem, rfl⟩ := List.mem_map.1 hm
  obtain ⟨hp, hx⟩ := mem_below_iff.1 mem
  have names := wellFormed.names (p := r) (q := p) (by simp [hx])
  obtain ⟨own, render⟩ := Tar.exists_render_of_mem hb _ hm
  obtain ⟨parts, written, -⟩ := bind_eq_ok_iff.1 render
  rw [memberOf_name] at written
  exact writable_memberOf wellFormed hx hp fun long =>
    Tar.cutName_ne_nil_of_written (fun n hn => ⟨(names n hn).1, (names n hn).2.1⟩) hp written long

theorem writable_descriptionMember (size : dockerfile.length ≤ Text.maxSigned64) :
    (descriptionMember dockerfile).Writable := by
  have name : ∃ p, p ≠ [] ∧ (∀ n ∈ p, IsName n ∧ 0 ∉ n) ∧ description = [slash].intercalate p := by
    refine ⟨[description], List.cons_ne_nil _ _, ?_, List.intercalate_singleton.symm⟩
    intro n hn
    obtain rfl := List.mem_singleton.1 hn
    exact ⟨isName_description.1, isName_description.2.1⟩
  have mode : dockerfileMode < Tar.octalLimit 8 := by decide
  have nameSize : description.length + Tar.blockSize ≤ Text.maxUnsigned64 := by decide
  exact ⟨name, fun long => absurd long length_description, mode, nameSize, Tar.add_blockSize_le size,
    fun _ h => Tar.Content.noConfusion h⟩

theorem writable_contextMembers {l : List (Place × FileNode)}
    (members : ∀ m ∈ l.map (fun (p, x) => memberOf p x), m.Writable)
    (size : dockerfile.length ≤ Text.maxSigned64) : ∀ m ∈ contextMembers dockerfile l, m.Writable := by
  intro m hm
  rcases List.mem_append.1 hm with hm | hm
  · obtain ⟨node, kept, rfl⟩ := List.mem_map.1 hm
    exact members _ (List.mem_map_of_mem (List.mem_filter.1 kept).1)
  · obtain rfl := List.mem_singleton.1 hm
    exact writable_descriptionMember size

theorem describes_contextMembers (wellFormed : t.WellFormed) (r : Place) (dockerfile : Bytes) :
    List.Forall₂ (fun node m => Describes node.1 node.2 m) (contextNodes dockerfile (t.below r))
      (contextMembers dockerfile (t.below r)) := by
  refine List.rel_append (describes_map fun p x hp => ?_) (.cons ?_ .nil)
  · exact possible_of_mem_below wellFormed (List.mem_filter.1 hp).1
  · have name : memberName [description] = description := List.intercalate_singleton
    have describes : Describes [description] (.file dockerfileMode dockerfile)
        ⟨memberName [description], dockerfileMode, .file dockerfile⟩ := .file dockerfile rfl
    rwa [name] at describes

/-! ### The places of the members -/

theorem mem_contextNodes_iff {p : Place} {x : FileNode} :
    (p, x) ∈ contextNodes dockerfile (t.below r) ↔
      p ≠ [] ∧ (t.set (r ++ [description]) (.file dockerfileMode dockerfile)).node? (r ++ p) =
        some x := by
  have way : r ++ [description] ≠ [] := by simp
  rw [contextNodes, List.mem_append, others, List.mem_filter, mem_below_iff, node?_set_of_ne_nil way,
    List.mem_singleton, Prod.mk.injEq]
  by_cases hp : p = [description]
  · subst hp
    simp [eq_comm]
  · have other : r ++ [description] ≠ r ++ p := fun he => hp (List.append_cancel_left he).symm
    rw [if_neg other]
    simp [hp]

theorem names_of_mem_contextNodes (wellFormed : t.WellFormed) {p : Place} {x : FileNode}
    (h : (p, x) ∈ contextNodes dockerfile (t.below r)) : ∀ n ∈ p, IsName n := by
  rcases List.mem_append.1 h with h | h
  · exact names_of_mem_below wellFormed (List.mem_filter.1 h).1
  · obtain ⟨rfl, -⟩ := Prod.mk.inj (List.mem_singleton.1 h)
    intro n hn
    obtain rfl := List.mem_singleton.1 hn
    exact isName_description.1

theorem map_wayTo_of_shows {es : List Tar.Entry} {l : List (Place × FileNode)}
    (shows : List.Forall₂ Shows es l) (names : ∀ p x, (p, x) ∈ l → ∀ n ∈ p, IsName n) :
    es.map (fun e => wayTo e.name) = l.map Prod.fst := by
  induction shows with
  | nil => rfl
  | @cons e node es l first _ ih =>
    have way : wayTo e.name = node.1 := by
      rw [Shows.name first, wayTo_memberName (names node.1 node.2 List.mem_cons_self)]
    rw [List.map_cons, List.map_cons, way,
      ih fun p x hp => names p x (List.mem_cons_of_mem _ hp)]

/-- There is one member for the build description if nothing lies below one, and else there are more. -/
theorem countP_isAtDescription (wellFormed : t.WellFormed) {es : List Tar.Entry}
    (shows : List.Forall₂ Shows es (contextNodes dockerfile (t.below r))) :
    es.countP isAtDescription = 1 ↔ NothingBelow t r := by
  have ways := map_wayTo_of_shows shows fun _ _ => names_of_mem_contextNodes wellFormed
  have count : es.countP isAtDescription =
      (others (t.below r)).countP (fun node => node.1.head? == some description) + 1 := by
    calc es.countP isAtDescription
        = (es.map fun e => wayTo e.name).countP fun p => p.head? == some description := by
          rw [List.countP_map]
          rfl
      _ = (contextNodes dockerfile (t.below r)).countP fun node =>
            node.1.head? == some description := by
          rw [ways, List.countP_map]
          rfl
      _ = _ := by
          rw [contextNodes, List.countP_append]
          rfl
  rw [count, Nat.add_eq_right, List.countP_eq_zero, nothingBelow_iff]
  constructor
  · intro none node mem first
    by_contra other
    exact none node (List.mem_filter.2 ⟨mem, by simpa using other⟩) (by simpa using first)
  · intro only node kept first
    obtain ⟨mem, other⟩ := List.mem_filter.1 kept
    have same := only node mem (by simpa using first)
    simp [same] at other

/-! ### Unpacking a context with nothing below its build description -/

theorem orderly_others {l : List (Place × FileNode)} (orderly : Orderly l)
    (nothing : ∀ q x, (description :: q, x) ∈ l → q = []) : Orderly (others l) := by
  intro before p x after split
  obtain ⟨l₁, l₂, rfl, rfl, tail⟩ := List.filter_eq_append_iff.1 split
  obtain ⟨skipped, rest, rfl, skip, -, -⟩ := List.filter_eq_cons_iff.1 tail
  have ready : Ready (l₁ ++ skipped) p := orderly (l₁ ++ skipped) p x rest (by simp)
  refine ⟨ready.ne_nil, ready.names, ?_, ?_⟩
  · intro a b ha hb hab
    have other : a ≠ [description] := by
      rintro rfl
      exact hb (nothing b x (by simp [← hab]))
    obtain ⟨mode, hm⟩ := ready.way a b ha hb hab
    rcases List.mem_append.1 hm with hm | hm
    · exact ⟨mode, List.mem_filter.2 ⟨hm, by simpa using other⟩⟩
    · exact absurd (by simpa using other) (skip _ hm)
  · intro y hy
    exact ready.fresh y (List.mem_append_left _ (List.mem_filter.1 hy).1)

theorem ready_description (l : List (Place × FileNode)) : Ready (others l) [description] := by
  refine ⟨List.cons_ne_nil _ _, ?_, ?_, ?_⟩
  · intro n hn
    obtain rfl := List.mem_singleton.1 hn
    exact isName_description
  · intro a b ha hb hab
    rcases List.append_eq_singleton_iff.1 hab with ⟨rfl, -⟩ | ⟨-, rfl⟩
    · exact absurd rfl ha
    · exact absurd rfl hb
  · intro x hx
    obtain ⟨-, other⟩ := List.mem_filter.1 hx
    simp at other

theorem orderly_contextNodes (wellFormed : t.WellFormed) (nothing : NothingBelow t r)
    (dockerfile : Bytes) : Orderly (contextNodes dockerfile (t.below r)) := by
  refine (orderly_others (orderly_below wellFormed r) ?_).concat (ready_description _) _
  intro q x hq
  simpa using nothingBelow_iff.1 nothing _ hq rfl

/-- A context with nothing below its build description is unpacked, with the given description. -/
theorem run_context_of_nothingBelow (wellFormed : t.WellFormed) (target : EmptyDirectory t₀ dest d)
    (nothing : NothingBelow t r) {es : List Tar.Entry}
    (shows : List.Forall₂ Shows es (contextNodes dockerfile (t.below r))) :
    ∃ t₁, (unpackEntries dest es).run t₀ = (.ok (), t₁) ∧ Replaced t r dockerfile t₀ d t₁ := by
  have start : Placed t₀ dest d [] t₀ := ⟨target.leads, nofun, fun _ _ => rfl⟩
  have orderly := orderly_contextNodes wellFormed nothing dockerfile
  obtain ⟨t₁, run, placed⟩ := start.unpackEntries target.directory target.empty orderly shows
  refine ⟨t₁, run, ?_, ?_⟩
  · intro q hq
    exact placed.alike (fun _ _ => mem_contextNodes_iff) target.empty hq
  · intro p hp
    exact placed.outside orderly hp

/-! ### Unpacking a context with something below its build description -/

theorem run_unpackEntries_append {a b : List Tar.Entry} {t' : FileTree}
    (h : (unpackEntries dest a).run t = (.ok (), t')) :
    (unpackEntries dest (a ++ b)).run t = (unpackEntries dest b).run t' := by
  induction a generalizing t with
  | nil =>
    obtain ⟨-, rfl⟩ := Prod.mk.inj h
    rfl
  | cons e a ih =>
    rw [unpackEntries, run_bind] at h
    rw [List.cons_append, unpackEntries, run_bind]
    rcases hr : (unpackEntry dest e).run t with ⟨_ | _, t₁⟩
    · rw [hr] at h
      cases h
    · rw [hr] at h
      exact ih h

theorem others_of_split {before rest : List (Place × FileNode)} {x : FileNode}
    (orderly : Orderly (before ++ ([description], x) :: rest)) :
    others (before ++ ([description], x) :: rest) = before ++ rest := by
  have first : others before = before := by
    refine List.filter_eq_self.2 ?_
    rintro ⟨p, y⟩ hp
    have fresh := (orderly before [description] x rest rfl).fresh y
    have other : p ≠ [description] := by
      rintro rfl
      exact fresh hp
    simpa using other
  have last : others rest = rest := by
    refine List.filter_eq_self.2 ?_
    rintro ⟨p, y⟩ hp
    obtain ⟨a, b, rfl⟩ := List.append_of_mem hp
    have fresh := (orderly (before ++ ([description], x) :: a) p y b (by simp)).fresh x
    have other : p ≠ [description] := by
      rintro rfl
      simp at fresh
    simpa using other
  rw [others, List.filter_append, List.filter_cons_of_neg (by simp)]
  exact congrArg₂ (· ++ ·) first last

/-- The members of a context besides its build description are unpacked, and where something lies below
that, a directory is made for it. -/
theorem run_others_of_below (wellFormed : t.WellFormed) (target : EmptyDirectory t₀ dest d)
    (below : ¬NothingBelow t r) {es : List Tar.Entry}
    (shows : List.Forall₂ Shows es (others (t.below r))) :
    ∃ t₂ mode, (unpackEntries dest es).run t₀ = (.ok (), t₂) ∧ t₂.canonical dest = .ok d ∧
      t₂.isDirectoryAt d = true ∧ t₂.node? (d ++ [description]) = some (.directory mode) := by
  obtain ⟨hd, directory, empty⟩ := target
  obtain ⟨q, hq, there⟩ : ∃ q, q ≠ [] ∧ t.node? (r ++ ([description] ++ q)) ≠ none := by
    simpa [NothingBelow] using below
  obtain ⟨before, mode, n, x, after, split⟩ :=
    exists_child_after wellFormed (List.cons_ne_nil description []) hq there
  have orderly := orderly_below wellFormed r
  rw [split] at orderly
  rw [split, others_of_split orderly] at shows
  obtain ⟨first, rest, rfl, showsFirst, showsRest⟩ : ∃ first rest, es = first ++ rest ∧
      List.Forall₂ Shows first before ∧
        List.Forall₂ Shows rest (([description] ++ [n], x) :: after) :=
    ⟨_, _, (List.take_append_drop before.length es).symm, List.forall₂_take_append _ _ _ shows,
      List.forall₂_drop_append _ _ _ shows⟩
  -- What comes before the build description is put as it is.
  have start : Placed t₀ dest d [] t₀ := ⟨hd, nofun, fun _ _ => rfl⟩
  obtain ⟨t', run, placed⟩ := start.unpackEntries directory empty orderly.of_append showsFirst
  rw [List.nil_append] at placed
  -- The first member below it makes the directory that was left out.
  have ready := orderly before [description] _ _ rfl
  have v : Vacant t' (dest ++ []) (d ++ []) description :=
    placed.vacant directory empty orderly.of_append ready
  rw [List.append_nil, List.append_nil] at v
  have made := placed.concat v.nothing ready.fresh (.directory newDirectoryMode) v.node?_set
  have orderly' := orderly.withMode newDirectoryMode
  rw [List.append_cons] at orderly'
  obtain ⟨t₂, run', placed'⟩ := made.unpackEntries directory empty orderly' showsRest
  have around := canonical_child (x := .directory newDirectoryMode) made.leads
    ((within_set v.nothing _).isDirectoryAt v.directory) v.name (by rw [v.node?_set, if_pos rfl])
    fun _ => nofun
  have same : (unpackEntries dest rest).run t' = (unpackEntries dest rest).run
      (t'.set (d ++ [description]) (.directory newDirectoryMode)) := by
    cases showsRest with
    | cons shows _ =>
      have names : ∀ m ∈ [description] ++ [n], IsName m := fun m hm =>
        ((orderly (before ++ [([description], .directory mode)]) _ x after (by simp)).names m hm).1
      have inside := List.prefix_append d [description]
      rw [unpackEntries, run_bind, run_bind,
        run_unpackEntry v.run_ensureAround made.leads around inside names shows.name,
        run_unpackEntry (run_ensureAround around) made.leads around inside names shows.name]
  have root : t₂.node? d = t₀.node? d := placed'.others d fun q x hx => by
    simpa using orderly'.ne_nil hx
  obtain ⟨y, hy, alike⟩ := placed'.nodes [description] (.directory newDirectoryMode) (by simp)
  cases alike
  refine ⟨t₂, newDirectoryMode, ?_, placed'.leads, ?_, hy⟩
  · rw [run_unpackEntries_append run, same, run']
  · rwa [isDirectoryAt, root]

theorem run_place_of_directory {e : Tar.Entry} {m : Tar.Member} {around : List Name} {a : Place}
    {n : Name} {mode : Nat} (ha : t.canonical around = .ok a) (directory : t.isDirectoryAt a = true)
    (hn : IsEntryName n) (there : t.node? (a ++ [n]) = some (.directory mode))
    (read : e.ReadAs m) (file : m.kind = Tar.Kind.regular) (plain : isOldDirectory e = false) :
    (place e dest (around ++ [n])).run t = (.error (.archive SystemFault.isADirectory.text), t) := by
  have follow : t.follow false (around ++ [n]) = .ok (a ++ [n]) := by
    rw [follow_child ha hn.ne_dot hn.ne_dotDot, if_pos directory, if_neg hn.no_zero,
      if_neg (Nat.not_lt.2 hn.short)]
  have unlink : t.unlink (around ++ [n]) = .error .isADirectory := by
    rw [FileTree.unlink, follow]
    simp only [bind, Except.bind, there]
    rfl
  have replace (x : FileNode) : (replaceWith (around ++ [n]) x).run t =
      (.error (.archive SystemFault.isADirectory.text), t) := by
    rw [replaceWith, run_get_bind]
    simp only [create_of_some follow there, if_true]
    rw [run_bind, run_apply, unlink]
  rw [place_file (read.kind.trans file) plain, unpackFile]
  simp only
  rw [run_bind, replace]

/-- Where something lies below the build description of a context, unpacking fails at the description
that is given. -/
theorem run_context_of_below (wellFormed : t.WellFormed) (target : EmptyDirectory t₀ dest d)
    (below : ¬NothingBelow t r) {es : List Tar.Entry}
    (read : List.Forall₂ Tar.Entry.ReadAs es (contextMembers dockerfile (t.below r))) :
    ((unpackEntries dest es).run t₀).1 = .error (.archive SystemFault.isADirectory.text) := by
  obtain ⟨es, last, rfl, reads, readLast⟩ : ∃ first last, es = first ++ last ∧
      List.Forall₂ Tar.Entry.ReadAs first ((others (t.below r)).map fun (p, x) => memberOf p x) ∧
        List.Forall₂ Tar.Entry.ReadAs last [descriptionMember dockerfile] :=
    ⟨_, _, (List.take_append_drop _ es).symm, List.forall₂_take_append _ _ _ read,
      List.forall₂_drop_append _ _ _ read⟩
  have possible (p : Place) (x : FileNode) (hp : (p, x) ∈ others (t.below r)) : x.Possible :=
    possible_of_mem_below wellFormed (List.mem_filter.1 hp).1
  have shows := shows_of_read (describes_map possible) reads
  obtain ⟨t₂, mode, run, leads, directory', there⟩ :=
    run_others_of_below wellFormed target below shows
  rw [run_unpackEntries_append run]
  cases readLast with
  | @cons e _ _ _ head tail =>
    cases tail
    have plain : isOldDirectory e = false := by
      have last : (description.getLast? == some slash) = false := by decide
      rw [isOldDirectory, head.name, show (descriptionMember dockerfile).name = description from rfl,
        last, Bool.and_false]
    have entry : IsEntryName description :=
      ⟨by decide, by decide, isName_description.2.1, isName_description.2.2⟩
    have names : ∀ m ∈ [] ++ [description], IsName m := fun m hm => by
      obtain rfl := List.mem_singleton.1 hm
      exact isName_description.1
    have around : t₂.canonical (dest ++ []) = .ok d := by rwa [List.append_nil]
    have name : e.name = memberName ([] ++ [description]) :=
      head.name.trans List.intercalate_singleton.symm
    rw [unpackEntries, run_bind,
      run_unpackEntry (run_ensureAround around) leads around List.prefix_rfl names name,
      run_place_of_directory around directory' entry there head rfl plain]

/-! ### The archive -/

theorem extract_of_directory (hd : t₀.canonical dest = .ok d) (directory : t₀.isDirectoryAt d = true)
    {archive : Bytes} {es : List Tar.Entry} (plain : Gzip.hasSignature archive = false)
    (entries : Tar.entries (.ofBytes archive) = (es, true)) :
    extract t₀ dest archive = (unpackEntries dest es).run t₀ := by
  rw [run_extract, makeDirectories_of_directory hd directory]
  simp only [Tar.source_of_plain plain, entries]
  rw [run_bind]
  rcases (unpackEntries dest es).run t₀ with ⟨_ | _, t₁⟩ <;> rfl

theorem legible_contextMembers (writable : ∀ m ∈ contextMembers dockerfile (t.below r), m.Writable)
    (text : ∀ p x, (p, x) ∈ t.below r → ∀ n ∈ p, ∃ s, n = Utf8.encode s) :
    ∀ m ∈ contextMembers dockerfile (t.below r), m.Legible := by
  intro m hm
  refine (writable m hm).legible ?_
  rcases List.mem_append.1 hm with hm | hm
  · obtain ⟨⟨p, x⟩, kept, rfl⟩ := List.mem_map.1 hm
    rw [memberOf_name]
    exact exists_text_intercalate (text p x (List.mem_filter.1 kept).1)
  · obtain rfl := List.mem_singleton.1 hm
    exact ⟨dockerfileName, rfl⟩

theorem writable_of_text (wellFormed : t.WellFormed)
    (text : ∀ p x, (p, x) ∈ t.below r → ∀ n ∈ p, ∃ s, n = Utf8.encode s) :
    ∀ m ∈ (t.below r).map (fun (p, x) => memberOf p x), m.Writable := by
  intro m hm
  obtain ⟨⟨p, x⟩, mem, rfl⟩ := List.mem_map.1 hm
  obtain ⟨hp, hx⟩ := mem_below_iff.1 mem
  exact (legible_memberOf wellFormed hx hp (text p x mem)).writable

/-- A directory whose members can be written can be packed, and they are read back. -/
theorem exists_ofDirectory (hr : t.canonical root = .ok r)
    (writable : ∀ m ∈ (t.below r).map (fun (p, x) => memberOf p x), m.Writable) :
    ∃ packed es, ofDirectory t root = .ok packed ∧ Tar.entries (.ofBytes packed) = (es, true) ∧
      List.Forall₂ Tar.Entry.ReadAs es ((t.below r).map fun (p, x) => memberOf p x) := by
  obtain ⟨packed, es, written, entries, read⟩ := Tar.exists_entries writable
  refine ⟨packed, es, ?_, entries, read⟩
  rw [ofDirectory_eq hr, ofMembers_eq_ok_iff, written]

/-- The archive of a context can be made if that of its directory can. It has the same members as that,
but for the build description, which is the given one: no other member has its name or lies below it if,
and only if, nothing in the directory lies below one. Then the archive is unpacked into an empty directory
and gives the directory with the given description; if not, unpacking fails. -/
theorem buildContext_of_directory (wellFormed : t.WellFormed) (hr : t.canonical root = .ok r)
    (size : dockerfile.length ≤ Text.maxSigned64) :
    (∀ e, ofDirectory t root = .error e → buildContext dockerfile (some (t, root)) = .error e) ∧
      ∀ packed, ofDirectory t root = .ok packed →
        (∃ es, Tar.entries (.ofBytes packed) = (es, true) ∧
          List.Forall₂ Tar.Entry.ReadAs es ((t.below r).map fun (p, x) => memberOf p x)) ∧
        ∃ archive es, buildContext dockerfile (some (t, root)) = .ok archive ∧
          Tar.entries (.ofBytes archive) = (es, true) ∧
          List.Forall₂ Tar.Entry.ReadAs es (contextMembers dockerfile (t.below r)) ∧
          (es.countP isAtDescription = 1 ↔ NothingBelow t r) ∧
          ((∀ p x, (p, x) ∈ t.below r → ∀ n ∈ p, ∃ s, n = Utf8.encode s) →
            Gzip.hasSignature archive = false) ∧
          (Gzip.hasSignature archive = false → ∀ t₀ dest d, EmptyDirectory t₀ dest d →
            (NothingBelow t r →
              ∃ t₁, extract t₀ dest archive = (.ok (), t₁) ∧ Replaced t r dockerfile t₀ d t₁) ∧
            (¬NothingBelow t r →
              (extract t₀ dest archive).1 = .error (.archive SystemFault.isADirectory.text))) := by
  constructor
  · intro e he
    exact buildContext_of_error wellFormed hr he
  · intro packed hpacked
    have members := writable_of_packed wellFormed hr hpacked
    have writable := writable_contextMembers members size
    obtain ⟨archive, es, written, entries, read⟩ := Tar.exists_entries writable
    have shows := shows_of_read (describes_contextMembers wellFormed r dockerfile) read
    constructor
    · obtain ⟨packed', es', hpacked', entries', read'⟩ := exists_ofDirectory hr members
      obtain rfl : packed' = packed := Except.ok.inj (hpacked'.symm.trans hpacked)
      exact ⟨es', entries', read'⟩
    refine ⟨archive, es, ?_, entries, read, countP_isAtDescription wellFormed shows, ?_, ?_⟩
    · rw [buildContext_eq wellFormed hr, ofMembers_eq_ok_iff, written]
    · intro text
      exact Tar.hasSignature_write (legible_contextMembers writable text) written
    · intro plain t₀ dest d target
      rw [extract_of_directory target.leads target.directory plain entries]
      constructor
      · intro nothing
        exact run_context_of_nothingBelow wellFormed target nothing shows
      · intro below
        exact run_context_of_below wellFormed target below read

def contextEntries : List (List String × FileNode) :=
  [(["src"], .directory 0o755), (["src", "Dockerfile"], .file 0o600 [0x6F]),
    (["src", "latest"], .link (Utf8.encode "sub")), (["src", "sub"], .directory 0o755),
    (["src", "sub", "Dockerfile"], .file 0o644 [0x6E])]

def nestedEntries : List (List String × FileNode) :=
  [(["src"], .directory 0o755), (["src", "Dockerfile"], .directory 0o755),
    (["src", "Dockerfile", "x"], .file 0o644 [0x79])]

def contextSample : FileTree :=
  ⟨⟨contextEntries.map fun e => (e.1.map Utf8.encode, e.2), by decide⟩⟩

def nestedSample : FileTree :=
  ⟨⟨nestedEntries.map fun e => (e.1.map Utf8.encode, e.2), by decide⟩⟩

theorem emptyDirectory_emptyTarget :
    EmptyDirectory emptyTarget [Utf8.encode "out"] [Utf8.encode "out"] :=
  ⟨by decide, by decide, fun _ => emptyTarget_empty⟩

theorem buildContext_contextSample :
    (contextSample.WellFormed ∧
      contextSample.canonical [Utf8.encode "src"] = .ok [Utf8.encode "src"] ∧
      (Utf8.encode "FROM scratch\n").length ≤ Text.maxSigned64) ∧
    ∃ archive t₁, buildContext (Utf8.encode "FROM scratch\n")
        (some (contextSample, [Utf8.encode "src"])) = .ok archive ∧
      extract emptyTarget [Utf8.encode "out"] archive = (.ok (), t₁) ∧
      Replaced contextSample [Utf8.encode "src"] (Utf8.encode "FROM scratch\n") emptyTarget
        [Utf8.encode "out"] t₁ := by
  have wellFormed : contextSample.WellFormed := wellFormed_of_entries (by decide)
  have root : contextSample.canonical [Utf8.encode "src"] = .ok [Utf8.encode "src"] := by decide
  have size : (Utf8.encode "FROM scratch\n").length ≤ Text.maxSigned64 := by decide
  have text : ∀ p x, (p, x) ∈ contextSample.below [Utf8.encode "src"] →
      ∀ n ∈ p, ∃ s, n = Utf8.encode s :=
    fun p x hp => text_of_entries rfl (mem_below_iff.1 hp).2
  obtain ⟨packed, -, hpacked, -, -⟩ := exists_ofDirectory root (writable_of_text wellFormed text)
  obtain ⟨-, archive, es, made, -, -, -, plain, unpacked⟩ :=
    (buildContext_of_directory wellFormed root size).2 packed hpacked
  have nothing : NothingBelow contextSample [Utf8.encode "src"] := by decide
  obtain ⟨t₁, run, replaced⟩ :=
    (unpacked (plain text) _ _ _ emptyDirectory_emptyTarget).1 nothing
  exact ⟨⟨wellFormed, root, size⟩, archive, t₁, made, run, replaced⟩

/-- What lies below a directory in the place of the build description stays in the context. -/
theorem nested_description_stays :
    ∃ archive es, buildContext (Utf8.encode "FROM scratch\n")
        (some (nestedSample, [Utf8.encode "src"])) = .ok archive ∧
      Tar.entries (.ofBytes archive) = (es, true) ∧ es.countP isAtDescription ≠ 1 ∧
      (extract emptyTarget [Utf8.encode "out"] archive).1 =
        .error (.archive SystemFault.isADirectory.text) := by
  have wellFormed : nestedSample.WellFormed := wellFormed_of_entries (by decide)
  have root : nestedSample.canonical [Utf8.encode "src"] = .ok [Utf8.encode "src"] := by decide
  have text : ∀ p x, (p, x) ∈ nestedSample.below [Utf8.encode "src"] →
      ∀ n ∈ p, ∃ s, n = Utf8.encode s :=
    fun p x hp => text_of_entries rfl (mem_below_iff.1 hp).2
  have below : ¬NothingBelow nestedSample [Utf8.encode "src"] := by decide
  have size : (Utf8.encode "FROM scratch\n").length ≤ Text.maxSigned64 := by decide
  have writable := writable_contextMembers (writable_of_text wellFormed text) size
  obtain ⟨archive, es, written, entries, read⟩ := Tar.exists_entries writable
  have plain := Tar.hasSignature_write (legible_contextMembers writable text) written
  have shows := shows_of_read (describes_contextMembers wellFormed _ _) read
  refine ⟨archive, es, ?_, entries, ?_, ?_⟩
  · rw [buildContext_eq wellFormed root, ofMembers_eq_ok_iff, written]
  · rwa [Ne, countP_isAtDescription wellFormed shows]
  · rw [extract_of_directory emptyDirectory_emptyTarget.leads emptyDirectory_emptyTarget.directory plain
      entries]
    exact run_context_of_below wellFormed emptyDirectory_emptyTarget below read

end Archive
end ContainerBuild
