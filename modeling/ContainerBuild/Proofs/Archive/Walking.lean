import ContainerBuild.Proofs.Archive.BuildContext
import ContainerBuild.Proofs.FilePath.Texts
import ContainerBuild.Proofs.FileTree.DepthFirst

/-!
# The members of a packed directory

A walk comes to what lies below a directory by the path of the directory with the names of the way after it.
Without the steps of the directory these names are what is left of the path, whatever the path of the
directory is. So the archive has a member for every node below the directory, in depth-first order, and
depends only on the place that the path leads to.
-/

namespace ContainerBuild

namespace FilePath

variable {a : Bytes} {n : Name} {p : List Name}

theorem join_of_slash (h : a = [] ∨ a.getLast? = some slash) (n : Name) : join a n = a ++ n := by
  rw [join, if_pos (by simpa using h)]

theorem join_of_no_slash (ha : a ≠ []) (h : a.getLast? ≠ some slash) (n : Name) :
    join a n = a ++ slash :: n := by
  rw [join, if_neg (by simp [ha, h])]

theorem join_ne_nil (hn : n ≠ []) (a : Bytes) : join a n ≠ [] := by
  unfold join
  split <;> simp [hn]

theorem components_join (ha : a ≠ []) (hn : IsName n) :
    components (join a n) = components a ++ [.name n] := by
  by_cases h : a.getLast? = some slash
  · obtain ⟨before, rfl⟩ := List.getLast?_eq_some_iff.1 h
    rw [join_of_slash (.inr h), List.append_assoc, List.singleton_append]
    exact components_append_name before hn
  · rw [join_of_no_slash ha h, components_append_name a hn, components_append_slash ha]

theorem components_foldl_join (ha : a ≠ []) (hp : ∀ n ∈ p, IsName n) :
    components (p.foldl join a) = components a ++ p.map .name := by
  induction p generalizing a with
  | nil => simp
  | cons n p ih =>
    obtain ⟨hn, hp⟩ := List.forall_mem_cons.1 hp
    rw [List.foldl_cons, ih (join_ne_nil hn.nonempty a) hp, components_join ha hn, List.append_assoc]
    rfl

theorem foldl_join_of_no_slash (ha : a ≠ []) (h : a.getLast? ≠ some slash) (hp : ∀ n ∈ p, IsPiece n) :
    p.foldl join a = a ++ written (p.map .name) := by
  induction p generalizing a with
  | nil => simp [written]
  | cons n p ih =>
    obtain ⟨hn, hp⟩ := List.forall_mem_cons.1 hp
    have last : (a ++ slash :: n).getLast? ≠ some slash := by
      rw [List.getLast?_append_of_ne_nil _ (List.cons_ne_nil _ _), List.getLast?_cons_of_ne_nil hn.nonempty]
      exact fun he => hn.no_slash (List.mem_of_getLast? he)
    rw [List.foldl_cons, join_of_no_slash ha h, ih (by simp) last hp]
    simp [written, Component.bytes]

theorem foldl_join_nil (hp : ∀ n ∈ p, IsPiece n) : p.foldl join [] = [slash].intercalate p := by
  cases p with
  | nil => rfl
  | cons n p =>
    obtain ⟨hn, hp⟩ := List.forall_mem_cons.1 hp
    have last : n.getLast? ≠ some slash := fun he => hn.no_slash (List.mem_of_getLast? he)
    rw [List.foldl_cons, join_of_slash (.inl rfl), List.nil_append, intercalate_cons,
      foldl_join_of_no_slash hn.nonempty last hp]

end FilePath

namespace FileTree

open FilePath

variable {t : FileTree}

theorem below_of_not_directory (wellFormed : t.WellFormed) {p : Place} (h : t.isDirectoryAt p ≠ true) :
    t.below p = [] := by
  refine List.eq_nil_iff_forall_not_mem.2 fun ⟨q, x⟩ hq => h ?_
  obtain ⟨hne, hx⟩ := mem_below_iff.1 hq
  exact wellFormed.isDirectoryAt (by simp [hx]) hne

/-- A walk comes to everything below its start, in depth-first order, by the names that lead there. -/
theorem walk_eq (wellFormed : t.WellFormed) (p : Place) (path : Bytes) :
    t.walk p path = (t.below p).map fun (q, x) => (q.foldl join path, x) := by
  induction p, path using FileTree.walk.induct t with
  | case1 p path ih =>
    rw [walk, below_eq_flatMap wellFormed, List.map_flatMap]
    conv_rhs => rw [← List.attach_map_subtype_val (t.children p), List.flatMap_map]
    refine List.flatMap_congr fun ⟨(n, x), hc⟩ _ => ?_
    have there := mem_children_iff.1 hc
    rw [branch, List.map_cons, List.map_map]
    refine congrArg ((join path n, x) :: ·) ?_
    cases x with
    | directory mode => exact ih n mode hc
    | file mode data =>
      rw [below_of_not_directory wellFormed (by simp [isDirectoryAt, there])]
      rfl
    | link target =>
      rw [below_of_not_directory wellFormed (by simp [isDirectoryAt, there])]
      rfl

end FileTree

namespace Archive

open FileTree FilePath

variable {t : FileTree} {cwd : List Name} {path root : Bytes} {p r : Place} {x : FileNode}

/-! ### Names -/

theorem namedMember_memberName (p : Place) (x : FileNode) : namedMember (memberName p) x = memberOf p x := by
  cases x <;> rfl

/-- The name of a member is made of the names that lead to it, whatever the walk's start is. -/
theorem entryName_foldl_join (hr : root ≠ []) (hp : ∀ n ∈ p, IsName n) :
    entryName root (p.foldl join root) = .ok (memberName p) := by
  have rest : (components root).isPrefixOf? (components (p.foldl join root)) =
      some (p.map .name) :=
    List.isPrefixOf?_eq_some_iff_append_eq.2 (components_foldl_join hr hp).symm
  have steps : (p.map Component.name).filter (fun c => c != .here) = p.map .name := by
    refine List.filter_eq_self.2 fun c hc => ?_
    obtain ⟨n, -, rfl⟩ := List.mem_map.1 hc
    rfl
  simp only [entryName, rest, steps, List.foldl_map, Component.bytes]
  rw [foldl_join_nil fun n hn => (hp n hn).toIsPiece]
  rfl

theorem walkRoot_ne_nil (path : Bytes) : walkRoot path ≠ [] := by
  unfold walkRoot
  split
  · exact List.cons_ne_nil _ _
  · rename_i other
    rintro rfl
    exact other rfl

/-! ### Members -/

theorem appendTree_cons {name : Bytes} {rest : List (Bytes × FileNode)}
    (named : entryName root path = .ok name) : appendTree root ((path, x) :: rest) =
      ((namedMember name x).render.mapError fun flaw => BuildError.archive flaw.reason) >>= fun first =>
        (appendTree root rest).map fun more => first ++ more := by
  rw [appendTree, named]
  refine congrArg (Except.bind (Except.mapError _ (namedMember name x).render)) (funext fun first => ?_)
  rcases appendTree root rest with e | more <;> rfl

theorem appendTree_map (hr : root ≠ []) {l : List (Place × FileNode)}
    (names : ∀ node ∈ l, ∀ n ∈ node.1, IsName n) :
    appendTree root (l.map fun (q, x) => (q.foldl join root, x)) =
      (Tar.renderAll (l.map fun (q, x) => memberOf q x)).mapError fun flaw => .archive flaw.reason := by
  induction l with
  | nil => rfl
  | cons node l ih =>
    obtain ⟨q, x⟩ := node
    obtain ⟨here, names⟩ := List.forall_mem_cons.1 names
    rw [List.map_cons, List.map_cons, appendTree_cons (entryName_foldl_join hr here), ih names,
      namedMember_memberName, Tar.renderAll]
    rcases (memberOf q x).render with flaw | first
    · rfl
    · rcases Tar.renderAll _ with flaw | rest <;> rfl

/-- A directory is packed by a walk as it is by its listing. -/
theorem ofPath_eq (wellFormed : t.WellFormed) (cwd : List Name) (path : Bytes) :
    ofPath t cwd path = ofDirectory t (namesOf cwd (walkRoot path)) := by
  rw [ofPath, appendPath, ofDirectory, treeMembers]
  rcases t.canonical (namesOf cwd (walkRoot path)) with fault | p
  · rfl
  · change (appendTree (walkRoot path) (t.walk p (walkRoot path)) >>= _) = ofMembers _
    rw [walk_eq wellFormed, appendTree_map (walkRoot_ne_nil path) fun node hn =>
      names_of_mem_below wellFormed hn, ofMembers, Tar.write]
    rcases Tar.renderAll _ with flaw | body <;> rfl

/-! ### Spellings of a directory -/

/-- The ways to name the directory at a place: by an absolute path that leads there, by a path from the
current directory, by any of these with a slash at its end, and the current directory also by nothing, by a
dot, or by a dot and a slash. -/
inductive Spells (t : FileTree) (cwd : List Name) (r : Place) : Bytes → Prop
  | absolute {path : Bytes} (start : isAbsolute path = true)
    (leads : t.canonical (FilePath.walk path) = .ok r) : Spells t cwd r path
  | relative {path : Bytes} (nonempty : path ≠ []) (start : isAbsolute path = false)
    (leads : t.canonical (cwd ++ FilePath.walk path) = .ok r) : Spells t cwd r path
  | slash {path : Bytes} (nonempty : path ≠ []) (without : Spells t cwd r path) :
    Spells t cwd r (path ++ [FilePath.slash])
  | current {path : Bytes} (here : t.canonical cwd = .ok r)
    (short : path = [] ∨ path = dot ∨ path = dot ++ [FilePath.slash]) : Spells t cwd r path

/-- A dot at the end of a path asks for a directory, and changes nothing else. -/
theorem canonical_dot {names : List Name} (directory : t.isDirectoryAt r = true) :
    t.canonical (names ++ [dot]) = .ok r ↔ t.canonical names = .ok r := by
  rw [canonical_eq_ok_iff, canonical_eq_ok_iff]
  have there := isSome_node?_of_isDirectoryAt directory
  constructor
  · rintro ⟨⟨m, hm, h⟩, -⟩
    obtain ⟨p, k, j, hk, hp, -, last⟩ := h.split (List.cons_ne_nil _ _)
    obtain rfl : p = r := by
      cases last with
      | here inside go =>
        cases go
        rfl
      | missing inside hn => exact absurd rfl hn.ne_dot
      | halt inside hn => exact absurd rfl hn.ne_dot
      | link inside hn => exact absurd rfl hn.ne_dot
      | enter inside hn => exact absurd rfl hn.ne_dot
    exact ⟨⟨k, Nat.le_trans hk hm, hp⟩, there⟩
  · rintro ⟨⟨k, hk, h⟩, -⟩
    have last : t.followFrom true (maxLinks - k) r [dot] = .ok r := by
      rw [followFrom_congr (advance_dot directory)]
      exact followFrom_of_arrived rfl
    have whole : t.followFrom true (maxLinks - k + k) [] (names ++ [dot]) = .ok r :=
      (followFrom_append h there (List.cons_ne_nil dot []) (maxLinks - k)).trans last
    rw [Nat.sub_add_cancel hk] at whole
    exact ⟨followFrom_eq_ok_iff.1 whole, there⟩

theorem canonical_walk {names : List Name} (directory : t.isDirectoryAt r = true) (path : Bytes) :
    t.canonical (names ++ FilePath.walk path) = .ok r ↔ t.canonical (names ++ pieces path) = .ok r := by
  rw [FilePath.walk]
  split
  · rw [← List.append_assoc, canonical_dot directory]
  · rw [List.append_nil]

theorem canonical_namesOf_slash (directory : t.isDirectoryAt r = true) (hp : path ≠ []) :
    t.canonical (namesOf cwd (path ++ [slash])) = .ok r ↔ t.canonical (namesOf cwd path) = .ok r := by
  have same : pieces (path ++ [slash]) = pieces path := by
    rw [pieces_append path []]
    exact List.append_nil _
  rw [namesOf, namesOf, canonical_walk directory, canonical_walk directory, same, isAbsolute_append hp]

theorem canonical_walkRoot (directory : t.isDirectoryAt r = true) (hp : path ≠ []) :
    t.canonical (namesOf cwd (walkRoot path)) = .ok r ↔ t.canonical (namesOf cwd path) = .ok r := by
  unfold walkRoot
  split
  · rename_i short
    have cases : path = dot ∨ path = dot ++ [slash] := by simpa [hp] using short
    rcases cases with rfl | rfl
    · exact Iff.rfl
    · exact (canonical_namesOf_slash directory (List.cons_ne_nil _ _)).symm
  · exact Iff.rfl

/-- Every spelling of a directory leads to it. -/
theorem Spells.leads (directory : t.isDirectoryAt r = true) (h : Spells t cwd r path) :
    t.canonical (namesOf cwd (walkRoot path)) = .ok r := by
  induction h with
  | @absolute path start leads =>
    have nonempty : path ≠ [] := by
      rintro rfl
      cases start
    rwa [canonical_walkRoot directory nonempty, namesOf, if_pos start]
  | relative nonempty start leads =>
    rw [canonical_walkRoot directory nonempty, namesOf, if_neg (by simp [start])]
    exact leads
  | slash nonempty without ih =>
    rw [canonical_walkRoot directory nonempty] at ih
    rwa [canonical_walkRoot directory (by simp), canonical_namesOf_slash directory nonempty]
  | @current path here short =>
    have root : walkRoot path = dot := by rcases short with rfl | rfl | rfl <;> rfl
    rw [root]
    exact (canonical_dot directory).2 here

/-! ### The archive -/

/-- A name can be written if it fits its field or begins with text. -/
def HasField (p : Place) : Prop :=
  Tar.nameWidth < (memberName p).length → Tar.cutName (memberName p) ≠ []

/-- The archive of a directory, however the path names it: its members are the nodes below the directory, each
once and with its kind, permissions and content, in depth-first order. The steps of their names are the names
that lead there from the directory. There is an archive just when every name can be written, which is so for
names that are text; and it is the same whatever the path is that names the directory. -/
theorem packed_by_any_path (wellFormed : t.WellFormed) (directory : t.isDirectoryAt r = true)
    (spells : Spells t cwd r path) : ∃ l : List (Place × FileNode),
      (∀ q x, (q, x) ∈ l ↔ q ≠ [] ∧ t.node? (r ++ q) = some x) ∧ DepthFirst (l.map Prod.fst) ∧
      ((∃ archive, ofPath t cwd path = .ok archive) ↔ ∀ q x, (q, x) ∈ l → HasField q) ∧
      ((∀ q x, (q, x) ∈ l → ∀ n ∈ q, ∃ s, n = Utf8.encode s) → ∀ q x, (q, x) ∈ l → HasField q) ∧
      (∀ archive, ofPath t cwd path = .ok archive →
        ∃ es, Tar.entries (.ofBytes archive) = (es, true) ∧
          List.Forall₂ (fun e node => e.ReadAs (memberOf node.1 node.2) ∧
            components e.name = node.1.map .name) es l) ∧
      ∀ cwd' path', Spells t cwd' r path' → ofPath t cwd' path' = ofPath t cwd path := by
  have packed {cwd : List Name} {path : Bytes} (spells : Spells t cwd r path) :
      ofPath t cwd path = ofMembers ((t.below r).map fun (q, x) => memberOf q x) := by
    rw [ofPath_eq wellFormed, ofDirectory_eq (spells.leads directory)]
  have hr := spells.leads directory
  have listed := ofPath_eq wellFormed cwd path
  refine ⟨t.below r, fun _ _ => mem_below_iff, depthFirst_below t r, ⟨?_, ?_⟩, ?_, ?_, ?_⟩
  · rintro ⟨archive, made⟩ q x hq
    rw [listed] at made
    have writable := writable_of_packed wellFormed hr made (memberOf q x) (List.mem_map_of_mem hq)
    have start := writable.start
    rwa [memberOf_name] at start
  · intro fields
    have writable : ∀ m ∈ (t.below r).map (fun (q, x) => memberOf q x), m.Writable := by
      intro m hm
      obtain ⟨⟨q, x⟩, hq, rfl⟩ := List.mem_map.1 hm
      obtain ⟨hne, hx⟩ := mem_below_iff.1 hq
      exact writable_memberOf wellFormed hx hne (fields q x hq)
    obtain ⟨archive, -, made, -⟩ := exists_ofDirectory hr writable
    exact ⟨archive, by rw [listed, made]⟩
  · intro text q x hq
    have writable := writable_of_text wellFormed text (memberOf q x) (List.mem_map_of_mem hq)
    have start := writable.start
    rwa [memberOf_name] at start
  · intro archive made
    rw [listed] at made
    obtain ⟨archive', es, made', entries, read⟩ :=
      exists_ofDirectory hr (writable_of_packed wellFormed hr made)
    obtain rfl : archive' = archive := Except.ok.inj (made'.symm.trans made)
    have named : ∀ node ∈ t.below r, components (memberName node.1) = node.1.map .name := fun node hn =>
      components_intercalate (names_of_mem_below wellFormed hn)
    have both := ((List.forall₂_and_left _ _).2 ⟨named, (List.forall₂_map_right_iff.1 read).flip⟩).flip
    refine ⟨es, entries, both.imp fun e node ⟨named, read⟩ => ⟨read, ?_⟩⟩
    rw [read.name, memberOf_name, named]
  · intro cwd' path' spells'
    rw [packed spells', packed spells]

theorem sample_packed_alike :
    (sample.WellFormed ∧ sample.isDirectoryAt [Utf8.encode "src"] = true ∧
      Spells sample [Utf8.encode "src"] [Utf8.encode "src"] []) ∧
    ∃ archive es, ofPath sample [Utf8.encode "src"] [] = .ok archive ∧
      ofPath sample [Utf8.encode "src"] (Utf8.encode "./") = .ok archive ∧
      ofPath sample [] (Utf8.encode "/src/") = .ok archive ∧
      Tar.entries (.ofBytes archive) = (es, true) ∧ es ≠ [] := by
  have wellFormed : sample.WellFormed := wellFormed_of_entries (by decide)
  have directory : sample.isDirectoryAt [Utf8.encode "src"] = true := by decide
  have here : sample.canonical [Utf8.encode "src"] = .ok [Utf8.encode "src"] := by decide
  have nothing : Spells sample [Utf8.encode "src"] [Utf8.encode "src"] [] := .current here (.inl rfl)
  have dotted : Spells sample [Utf8.encode "src"] [Utf8.encode "src"] (Utf8.encode "./") :=
    .current here (.inr (.inr rfl))
  have absolute : Spells sample [] [Utf8.encode "src"] (Utf8.encode "/src") :=
    .absolute (by decide) (by decide)
  have ended : Spells sample [] [Utf8.encode "src"] (Utf8.encode "/src/") :=
    .slash (by decide) absolute
  obtain ⟨l, mem, -, made, text, read, alike⟩ := packed_by_any_path wellFormed directory nothing
  obtain ⟨archive, packed⟩ := made.2 (text fun q x hq => sample_text ((mem q x).1 hq).2)
  obtain ⟨es, entries, members⟩ := read archive packed
  refine ⟨⟨wellFormed, directory, nothing⟩, archive, es, packed, ?_, ?_, entries, ?_⟩
  · rw [alike _ _ dotted, packed]
  · rw [alike _ _ ended, packed]
  · rintro rfl
    cases members
    have inside : ([Utf8.encode "bin"], FileNode.directory 0o755) ∈ ([] : List (Place × FileNode)) :=
      (mem _ _).2 ⟨by decide, by decide⟩
    cases inside

end Archive
end ContainerBuild
