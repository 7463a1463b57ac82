import ContainerBuild.Archive.Pack
import ContainerBuild.Proofs.Archive.Running
import ContainerBuild.Proofs.FileTree.Changing
import ContainerBuild.Proofs.Tar.Reading

/-!
# Unpacking a member where nothing is

A member whose directory is there, and whose own place is free, is unpacked without a failure: its node
is put there with its permissions and its data, and nothing else changes. Only the target of a link may
be written in another way, and has the same steps.
-/

namespace ContainerBuild

open FilePath

/-- The same node, but for how the target of a link is written. -/
inductive FileNode.Alike : FileNode → FileNode → Prop
  | file (mode : Nat) (data : Bytes) : Alike (.file mode data) (.file mode data)
  | directory (mode : Nat) : Alike (.directory mode) (.directory mode)
  | link {a b : Bytes} (h : components a = components b) : Alike (.link a) (.link b)

/-- What a node can be: permissions have twelve bits, files a length of 63 bits, and links a target that
a path can be. -/
def FileNode.Possible : FileNode → Prop
  | .file mode data => mode < 0o10000 ∧ data.length ≤ Text.maxSigned64
  | .directory mode => mode < 0o10000
  | .link target => target ≠ [] ∧ 0 ∉ target ∧ target.length ≤ Archive.maxTarget

instance : DecidablePred FileNode.Possible
  | .file mode data => inferInstanceAs (Decidable (mode < 0o10000 ∧ data.length ≤ Text.maxSigned64))
  | .directory mode => inferInstanceAs (Decidable (mode < 0o10000))
  | .link target => inferInstanceAs (Decidable
      (target ≠ [] ∧ 0 ∉ target ∧ target.length ≤ Archive.maxTarget))

namespace Archive

open FileTree

variable {t : FileTree} {dest around p : List Name} {a : Place} {n : Name} {x : FileNode}

/-- A free place in a directory that some names lead to. -/
structure Vacant (t : FileTree) (around : List Name) (a : Place) (n : Name) : Prop where
  around : t.canonical around = .ok a
  directory : t.isDirectoryAt a = true
  name : IsEntryName n
  nothing : t.node? (a ++ [n]) = none

namespace Vacant

theorem node?_set (v : Vacant t around a n) (q : Place) :
    (t.set (a ++ [n]) x).node? q = if a ++ [n] = q then some x else t.node? q :=
  node?_set_of_ne_nil (ne_nil_of_node?_eq_none v.nothing)

theorem create (v : Vacant t around a n) (x : FileNode) :
    t.create (around ++ [n]) x = .ok (t.set (a ++ [n]) x) := by
  refine create_eq_ok_iff.2 ⟨a ++ [n], ?_, v.nothing, rfl⟩
  rw [follow_child v.around v.name.ne_dot v.name.ne_dotDot, if_pos v.directory,
    if_neg v.name.no_zero, if_neg (Nat.not_lt.2 v.name.short)]

theorem run_replaceWith (v : Vacant t around a n) (x : FileNode) :
    (replaceWith (around ++ [n]) x).run t = (.ok (), t.set (a ++ [n]) x) := by
  rw [replaceWith, run_get_bind]
  simp only [v.create x]
  rfl

end Vacant

/-- What a part of the work does: it puts a node at a place, and nothing else. -/
def Puts (m : Change Unit) (t : FileTree) (p : Place) (x : FileNode) : Prop :=
  ∃ t', m.run t = (.ok (), t') ∧ ∀ q, t'.node? q = if p = q then some x else t.node? q

namespace Vacant

theorem puts {m : Change Unit} (v : Vacant t around a n)
    (hm : m.run t = (.ok (), t.set (a ++ [n]) x)) : Puts m t (a ++ [n]) x :=
  ⟨_, hm, v.node?_set⟩

theorem puts_withMode {m : Change Unit} {e : Tar.Entry} {mode : Nat} (v : Vacant t around a n)
    (hm : m.run t = (.ok (), t.set (a ++ [n]) x)) (stays : ∀ target, x ≠ .link target)
    (he : e.block.mode? = some mode) :
    Puts (m >>= fun _ => applyMode e (around ++ [n])) t (a ++ [n])
      (FileNode.withMode (mode % 0o10000) x) := by
  have within := within_set v.nothing x
  have there : (t.set (a ++ [n]) x).node? (a ++ [n]) = some x := by rw [v.node?_set, if_pos rfl]
  have place := canonical_child (within.canonical v.around) (within.isDirectoryAt v.directory) v.name
    there stays
  have set : (t.set (a ++ [n]) x).setMode (around ++ [n]) mode = .ok _ :=
    setMode_eq_ok_iff.2 ⟨_, _, place, there, rfl⟩
  refine ⟨(t.set (a ++ [n]) x).set (a ++ [n]) (FileNode.withMode (mode % 0o10000) x), ?_,
    fun q => ?_⟩
  · rw [run_bind, hm, applyMode, he]
    simp only [run_apply, set]
  · rw [node?_set_of_ne_nil (ne_nil_of_node?_eq_none v.nothing), v.node?_set]
    split <;> rfl

theorem puts_unpackFile {e : Tar.Entry} {mode : Nat} {data : Bytes} (v : Vacant t around a n)
    (he : e.block.mode? = some mode) (hd : e.data = (data, true)) :
    Puts (unpackFile e (around ++ [n])) t (a ++ [n]) (.file (mode % 0o10000) data) := by
  have := v.puts_withMode (v.run_replaceWith (.file newFileMode data)) (fun _ => nofun) he
  unfold unpackFile
  simp only [hd, Bool.not_true, Bool.false_eq_true, if_false]
  exact this

theorem puts_unpackDirectory {e : Tar.Entry} {mode : Nat} (v : Vacant t around a n)
    (he : e.block.mode? = some mode) :
    Puts (unpackDirectory e (around ++ [n])) t (a ++ [n]) (.directory (mode % 0o10000)) := by
  refine v.puts_withMode (x := .directory newDirectoryMode) ?_ (fun _ => nofun) he
  rw [run_apply, provideDirectory, makeDirectory, v.create]

theorem puts_unpackLink {target : Bytes} (v : Vacant t around a n) (zero : 0 ∉ target)
    (short : target.length ≤ maxTarget) :
    Puts (unpackLink (around ++ [n]) target) t (a ++ [n]) (.link target) := by
  have hz : target.contains 0 = false := by simpa using zero
  rw [unpackLink, hz, if_neg Bool.false_ne_true, if_neg (Nat.not_lt.2 short)]
  exact v.puts (v.run_replaceWith _)

end Vacant

/-! ### Kinds of members -/

variable {e : Tar.Entry} {names : List Name}

theorem place_file (kind : e.block.kind = Tar.Kind.regular) (plain : isOldDirectory e = false) :
    place e dest names = unpackFile e names := by
  have other : (Tar.Kind.regular == Tar.Kind.directory) = false ∧
      (Tar.Kind.regular == Tar.Kind.hardLink || Tar.Kind.regular == Tar.Kind.symbolicLink) = false ∧
      isRemark Tar.Kind.regular = false := by decide
  simp only [place, kind, other.1, other.2.1, other.2.2, plain, Bool.false_eq_true, if_false]

theorem not_isOldDirectory (pieces : ∀ n ∈ p, IsPiece n) (name : e.name = memberName p) :
    isOldDirectory e = false := by
  have last : (e.name.getLast? == some slash) = false := by
    rw [name]
    simpa [memberName] using getLast?_intercalate pieces
  rw [isOldDirectory, last, Bool.and_false]

theorem place_directory (kind : e.block.kind = Tar.Kind.directory) :
    place e dest names = unpackDirectory e names := by
  simp only [place, kind, beq_self_eq_true, if_true]

theorem place_link (kind : e.block.kind = Tar.Kind.symbolicLink) {target : Bytes}
    (link : e.link? = some target) (nonempty : target ≠ []) :
    place e dest names = unpackLink names target := by
  have other : (Tar.Kind.symbolicLink == Tar.Kind.directory) = false ∧
      (Tar.Kind.symbolicLink == Tar.Kind.hardLink) = false := by decide
  have he : target.isEmpty = false := by simpa using nonempty
  simp only [place, kind, other.1, other.2, beq_self_eq_true, Bool.or_true, link, he,
    Bool.false_eq_true, if_false, if_true]

/-- A member for a node at a place. Of its mode only the permissions count. -/
inductive Describes (p : Place) : FileNode → Tar.Member → Prop
  | file {mode bits : Nat} (data : Bytes) (same : bits % 0o10000 = mode) :
    Describes p (.file mode data) ⟨memberName p, bits, .file data⟩
  | directory {mode bits : Nat} (same : bits % 0o10000 = mode) :
    Describes p (.directory mode) ⟨memberName p, bits, .directory⟩
  | link {target : Bytes} (bits : Nat) (short : target.length ≤ maxTarget) :
    Describes p (.link target) ⟨memberName p, bits, .link target⟩

theorem describes_memberOf (p : Place) (possible : x.Possible) : Describes p x (memberOf p x) := by
  cases x with
  | file mode data =>
    have bound : mode < 0o10000 := possible.1
    have same : (fileKind + mode) % 0o10000 = mode := by
      unfold fileKind
      omega
    exact .file data same
  | directory mode =>
    have bound : mode < 0o10000 := possible
    have same : (directoryKind + mode) % 0o10000 = mode := by
      unfold directoryKind
      omega
    exact .directory same
  | link target =>
    obtain ⟨-, -, short⟩ := possible
    exact .link linkMode short

/-- A member that is read puts a node at a place. -/
def Shows (e : Tar.Entry) (node : Place × FileNode) : Prop :=
  ∃ m, Describes node.1 node.2 m ∧ e.ReadAs m

theorem Describes.name {m : Tar.Member} (h : Describes p x m) : m.name = memberName p := by
  cases h <;> rfl

theorem Shows.name (h : Shows e (p, x)) : e.name = memberName p := by
  obtain ⟨m, describes, read⟩ := h
  rw [read.name, describes.name]

/-- A member for a node puts a node like it into a free place. -/
theorem puts_place (dest : List Name) (v : Vacant t around a n) (pieces : ∀ n ∈ p, IsPiece n)
    (shows : Shows e (p, x)) :
    ∃ x', FileNode.Alike x x' ∧ Puts (place e dest (around ++ [n])) t (a ++ [n]) x' := by
  obtain ⟨m, describes, read⟩ := shows
  have mode := read.mode
  cases describes with
  | @file mode' bits data same =>
    have plain := not_isOldDirectory pieces read.name
    have puts : Puts _ t _ (.file (bits % 0o10000) data) := v.puts_unpackFile mode read.data
    rw [same] at puts
    exact ⟨.file mode' data, .file mode' data, by rwa [place_file read.kind plain]⟩
  | @directory mode' bits same =>
    have puts : Puts _ t _ (.directory (bits % 0o10000)) := v.puts_unpackDirectory mode
    rw [same] at puts
    exact ⟨.directory mode', .directory mode', by rwa [place_directory read.kind]⟩
  | @link target bits short =>
    obtain ⟨target', link, steps, nonempty, zero, length⟩ := read.link target rfl
    have short' : target'.length ≤ maxTarget :=
      Nat.le_trans length (Nat.max_le.2 ⟨by decide, short⟩)
    refine ⟨.link target', .link steps.symm, ?_⟩
    rw [place_link read.kind link nonempty]
    exact v.puts_unpackLink zero short'

/-! ### The way to a member -/

theorem takeWhile_beginnings {missing : List Name → Bool} (there : missing names = false) :
    (beginnings names).takeWhile missing = [] := by
  rw [beginnings, List.range_succ, List.reverse_concat, List.map_cons, List.take_length,
    List.takeWhile_cons, there, if_neg Bool.false_ne_true]

theorem run_ensureAround (h : t.canonical names = .ok a) :
    (ensureAround dest names).run t = (.ok (), t) := by
  obtain ⟨y, hy⟩ := linkStat_of_canonical h
  rw [ensureAround, run_get_bind]
  simp only
  rw [takeWhile_beginnings (by simp only [hy])]
  rfl

theorem beginnings_concat (names : List Name) (n : Name) :
    beginnings (names ++ [n]) = (names ++ [n]) :: beginnings names := by
  have shorter : (List.range (names.length + 1)).reverse.map (fun k => (names ++ [n]).take k) =
      beginnings names := by
    refine List.map_congr_left fun k hk => ?_
    have : k ≤ names.length := by simpa [Nat.lt_succ_iff] using hk
    rw [List.take_append_of_le_length this]
  rw [← shorter, beginnings, List.length_append, List.length_singleton, List.range_succ,
    List.reverse_concat, List.map_cons, ← List.length_singleton (a := n), ← List.length_append,
    List.take_length]

theorem run_requireInside_of_inside {d : Place} (hd : t.canonical dest = .ok d)
    (h : t.canonical names = .ok a) (inside : d <+: a) :
    (requireInside dest names).run t = (.ok (), t) := by
  have lies : liesIn t dest names = .ok true := by
    rw [liesIn, h, hd]
    exact congrArg _ (List.isPrefixOf_iff_prefix.2 inside)
  rw [run_requireInside, lies]

theorem Vacant.run_makeMissing {d : Place} (v : Vacant t around a n) (hd : t.canonical dest = .ok d)
    (inside : d <+: a) : (makeMissing dest [around ++ [n]]).run t =
      (.ok (), t.set (a ++ [n]) (.directory newDirectoryMode)) := by
  have made : t.makeDirectories (around ++ [n]) =
      (.ok (), t.set (a ++ [n]) (.directory newDirectoryMode)) := by
    rw [makeDirectories, List.reverse_concat, makeDirectoriesFrom, List.reverse_cons,
      List.reverse_reverse, makeDirectory, v.create]
  unfold makeMissing
  rw [run_bind, List.dropLast_concat, run_requireInside_of_inside hd v.around inside]
  simp only
  rw [run_bind, run_makeAll, made]
  rfl

theorem Vacant.run_ensureAround (v : Vacant t dest a n) :
    (ensureAround dest (dest ++ [n])).run t =
      (.ok (), t.set (a ++ [n]) (.directory newDirectoryMode)) := by
  have missing : t.linkStat (dest ++ [n]) = .error .notFound := by
    rw [linkStat, follow_child v.around v.name.ne_dot v.name.ne_dotDot, if_pos v.directory,
      if_neg v.name.no_zero, if_neg (Nat.not_lt.2 v.name.short)]
    simp only [bind, Except.bind, v.nothing]
    rfl
  obtain ⟨y, hy⟩ := linkStat_of_canonical v.around
  rw [ensureAround, run_get_bind]
  simp only
  rw [beginnings_concat, List.takeWhile_cons]
  simp only [missing, if_true]
  rw [takeWhile_beginnings (by simp only [hy]), List.reverse_singleton]
  exact v.run_makeMissing v.around List.prefix_rfl

theorem wayTo_memberName (h : ∀ n ∈ p, IsName n) : wayTo (memberName p) = p := by
  rw [wayTo, memberName, components_intercalate h, List.filterMap_map]
  simp

theorem escapes_memberName (h : ∀ n ∈ p, IsName n) : escapes (memberName p) = false := by
  rw [escapes, memberName, components_intercalate h, List.any_map]
  simp

/-- A member is unpacked in three parts: its directory is provided, asked about, and given the member. -/
theorem unpackEntry_eq {init : List Name} (hp : ∀ m ∈ init ++ [n], IsName m)
    (name : e.name = memberName (init ++ [n])) : unpackEntry dest e = (do
      ensureAround dest (dest ++ init)
      requireInside dest (dest ++ init)
      place e dest (dest ++ init ++ [n])) := by
  have nonempty : (init ++ [n]).isEmpty = false := by simp
  rw [unpackEntry, name, escapes_memberName hp, wayTo_memberName hp]
  simp only [Bool.false_eq_true, if_false, nonempty, List.dropLast_concat, List.append_assoc]

/-- A member is put into its directory, once that is there and if it lies inside. -/
theorem run_unpackEntry {t₁ : FileTree} {d : Place} {init : List Name}
    (ensured : (ensureAround dest (dest ++ init)).run t = (.ok (), t₁))
    (hd : t₁.canonical dest = .ok d) (ha : t₁.canonical (dest ++ init) = .ok a) (inside : d <+: a)
    (hp : ∀ m ∈ init ++ [n], IsName m) (name : e.name = memberName (init ++ [n])) :
    (unpackEntry dest e).run t = (place e dest (dest ++ init ++ [n])).run t₁ := by
  rw [unpackEntry_eq hp name, run_bind, ensured]
  simp only
  rw [run_bind, run_requireInside_of_inside hd ha inside]

/-- A member is unpacked into its directory, if the path to that leads to a place inside. -/
theorem puts_unpackEntry {d : Place} {init : List Name} (hd : t.canonical dest = .ok d)
    (inside : d <+: a) (v : Vacant t (dest ++ init) a n) (hp : ∀ m ∈ init ++ [n], IsName m)
    (shows : Shows e (init ++ [n], x)) :
    ∃ x', FileNode.Alike x x' ∧ Puts (unpackEntry dest e) t (a ++ [n]) x' := by
  obtain ⟨x', alike, t', run, nodes⟩ := puts_place dest v (fun m hm => (hp m hm).toIsPiece) shows
  refine ⟨x', alike, t', ?_, nodes⟩
  rw [run_unpackEntry (run_ensureAround v.around) hd v.around inside hp shows.name]
  exact run

end Archive
end ContainerBuild
