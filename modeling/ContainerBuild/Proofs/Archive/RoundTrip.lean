import ContainerBuild.Proofs.Archive.Unpacking
import ContainerBuild.Proofs.Tar.Plain

/-!
# Packing and unpacking a directory

The archive of a directory, unpacked into an empty one, gives what was packed: a node at the same places,
each like the one that was there.
-/

namespace ContainerBuild

open FilePath

theorem exists_text_intercalate {p : List Name} (h : ∀ n ∈ p, ∃ s, n = Utf8.encode s) :
    ∃ s, [slash].intercalate p = Utf8.encode s := by
  induction p with
  | nil => exact ⟨"", rfl⟩
  | cons n p ih =>
    obtain ⟨⟨s, rfl⟩, hp⟩ := List.forall_mem_cons.1 h
    cases p with
    | nil => exact ⟨s, List.intercalate_singleton⟩
    | cons m p =>
      obtain ⟨s', hs⟩ := ih hp
      refine ⟨s ++ "/" ++ s', ?_⟩
      rw [List.intercalate_cons_cons, hs, Utf8.encode_append, Utf8.encode_append]
      rfl

namespace Archive

open FileTree

variable {t t₀ : FileTree} {root dest : List Name} {r d : Place}

theorem writable_memberOf {p : Place} {x : FileNode} (wellFormed : t.WellFormed)
    (hx : t.node? (r ++ p) = some x) (hp : p ≠ [])
    (start : Tar.nameWidth < (memberName p).length → Tar.cutName (memberName p) ≠ []) :
    (memberOf p x).Writable := by
  have there : t.node? (r ++ p) ≠ none := by simp [hx]
  have names := wellFormed.names there
  have possible := wellFormed.possible (r ++ p) x (by simp [hp]) hx
  have short : (memberName p).length ≤ Text.maxSigned64 := by
    have reach := wellFormed.reach (r ++ p) there
    have length := length_intercalate_le p
    rw [breadth_append] at reach
    rw [memberName]
    omega
  have room := Tar.add_blockSize_le short
  have name : ∃ q, q ≠ [] ∧ (∀ n ∈ q, IsName n ∧ 0 ∉ n) ∧ memberName p = [slash].intercalate q :=
    ⟨p, hp, fun n hn => ⟨(names n hn).1, (names n hn).2.1⟩, rfl⟩
  cases x with
  | file mode data =>
    obtain ⟨hm, hd⟩ := possible
    have fits : fileKind + mode < Tar.octalLimit 8 := by
      rw [fileKind, Tar.octalLimit_eight]
      omega
    exact ⟨name, start, fits, room, Tar.add_blockSize_le hd, fun _ h => Tar.Content.noConfusion h⟩
  | directory mode =>
    have hm : mode < 0o10000 := possible
    have fits : directoryKind + mode < Tar.octalLimit 8 := by
      rw [directoryKind, Tar.octalLimit_eight]
      omega
    exact ⟨name, start, fits, room, Tar.add_blockSize_le (Nat.zero_le _), fun _ h => Tar.Content.noConfusion h⟩
  | link target =>
    obtain ⟨nonempty, zero, targetSize⟩ := possible
    have fits : linkMode < Tar.octalLimit 8 := by decide
    refine ⟨name, start, fits, room, Tar.add_blockSize_le (Nat.zero_le _), fun target' h => ?_⟩
    obtain rfl := Tar.Content.link.inj h
    exact ⟨nonempty, zero, Tar.add_blockSize_le (Nat.le_trans targetSize (by decide))⟩

theorem legible_memberOf {p : Place} {x : FileNode} (wellFormed : t.WellFormed)
    (hx : t.node? (r ++ p) = some x) (hp : p ≠ []) (text : ∀ n ∈ p, ∃ s, n = Utf8.encode s) :
    (memberOf p x).Legible := by
  have names := wellFormed.names (p := r) (q := p) (by simp [hx])
  obtain ⟨s, hs⟩ : ∃ s, memberName p = Utf8.encode s := exists_text_intercalate text
  have start : Tar.cutName (memberName p) ≠ [] := by
    rw [hs]
    apply Tar.cutName_ne_nil
    rw [← hs]
    exact intercalate_ne_nil (fun n hn => (names n hn).1.toIsPiece) hp
  have writable := writable_memberOf wellFormed hx hp fun _ => start
  exact writable.legible ⟨s, by rw [memberOf_name, hs]⟩

/-- The archive of a directory of a well-formed tree, where the names are text, unpacked into an empty
directory: it gives nodes alike at the same places below, and no other. Outside nothing changes. -/
theorem extract_ofDirectory (wellFormed : t.WellFormed) (hr : t.canonical root = .ok r)
    (text : ∀ q x, t.node? (r ++ q) = some x → ∀ n ∈ q, ∃ s, n = Utf8.encode s)
    (hd : t₀.canonical dest = .ok d) (directory : t₀.isDirectoryAt d = true)
    (empty : ∀ p, Below d p → t₀.node? p = none) :
    ∃ archive t₁, ofDirectory t root = .ok archive ∧ extract t₀ dest archive = (.ok (), t₁) ∧
      (∀ q, q ≠ [] → Option.Rel FileNode.Alike (t.node? (r ++ q)) (t₁.node? (d ++ q))) ∧
      ∀ p, ¬Below d p → t₁.node? p = t₀.node? p := by
  have legible : ∀ m ∈ (t.below r).map (fun p => memberOf p.1 p.2), m.Legible := by
    intro m hm
    obtain ⟨⟨q, x⟩, hq, rfl⟩ := List.mem_map.1 hm
    obtain ⟨hne, hx⟩ := mem_below_iff.1 hq
    exact legible_memberOf wellFormed hx hne (text q x hx)
  obtain ⟨archive, es, written, entries, read⟩ :=
    Tar.exists_entries fun m hm => (legible m hm).writable
  have start : Placed t₀ dest d [] t₀ := ⟨hd, nofun, fun _ _ => rfl⟩
  have orderly := orderly_below wellFormed r
  obtain ⟨t₁, run, placed⟩ := start.unpackEntries directory empty orderly
    (shows_of_read (describes_map fun _ _ => possible_of_mem_below wellFormed) read)
  refine ⟨archive, t₁, ?_, ?_, fun q hq => placed.alike (fun _ _ => mem_below_iff) empty hq,
    fun p hp => placed.outside orderly hp⟩
  · rw [ofDirectory, treeMembers, hr]
    change (Tar.write ((t.below r).map fun p => memberOf p.1 p.2)).mapError _ = .ok archive
    rw [written]
    rfl
  · rw [run_extract, makeDirectories_of_directory hd directory]
    simp only [Tar.source_write legible written, entries]
    rw [run_bind, run]
    rfl

def sampleEntries : List (List String × FileNode) :=
  [(["src"], .directory 0o755), (["src", "bin"], .directory 0o755),
    (["src", "bin", "run"], .file 0o755 [0x68, 0x69]), (["src", "empty"], .directory 0o700),
    (["src", "latest"], .link (Utf8.encode "bin//run")),
    (["src", String.ofList (List.replicate 101 'n')], .file 0o4600 [])]

def sample : FileTree :=
  ⟨⟨sampleEntries.map fun e => (e.1.map Utf8.encode, e.2), by decide⟩⟩

def emptyTarget : FileTree := FileTree.empty.set [Utf8.encode "out"] (.directory 0o755)

theorem text_of_entries {entries : List (List String × FileNode)}
    (h : t.nodes.entries = entries.map fun e => (e.1.map Utf8.encode, e.2)) {p q : Place}
    {x : FileNode} (hx : t.node? (p ++ q) = some x) : ∀ n ∈ q, ∃ s, n = Utf8.encode s := by
  intro n hn
  have ne : p ++ q ≠ [] := by
    intro he
    rw [(List.append_eq_nil_iff.1 he).2] at hn
    cases hn
  rw [FileTree.node?, if_neg (by simpa using ne), Dictionary.get?_eq_some_iff, h] at hx
  obtain ⟨e, -, he⟩ := List.mem_map.1 hx
  have mem : n ∈ e.1.map Utf8.encode := by
    rw [(Prod.mk.inj he).1]
    exact List.mem_append_right p hn
  obtain ⟨s, -, rfl⟩ := List.mem_map.1 mem
  exact ⟨s, rfl⟩

theorem sample_text {p q : Place} {x : FileNode} (h : sample.node? (p ++ q) = some x) :
    ∀ n ∈ q, ∃ s, n = Utf8.encode s :=
  text_of_entries rfl h

theorem emptyTarget_empty {p : Place} (h : Below [Utf8.encode "out"] p) :
    emptyTarget.node? p = none := by
  rw [emptyTarget, node?_set_of_ne_nil (by simp), if_neg h.2, node?_empty (ne_nil_of_below h)]

/-- The sample is packed and unpacked: all that the theorem asks for is so, and so is what it says. -/
theorem extract_sample :
    (sample.WellFormed ∧ sample.canonical [Utf8.encode "src"] = .ok [Utf8.encode "src"] ∧
      (∀ q x, sample.node? ([Utf8.encode "src"] ++ q) = some x → ∀ n ∈ q, ∃ s, n = Utf8.encode s) ∧
      emptyTarget.canonical [Utf8.encode "out"] = .ok [Utf8.encode "out"] ∧
      emptyTarget.isDirectoryAt [Utf8.encode "out"] = true ∧
      ∀ p, Below [Utf8.encode "out"] p → emptyTarget.node? p = none) ∧
    ∃ archive t₁, ofDirectory sample [Utf8.encode "src"] = .ok archive ∧
      extract emptyTarget [Utf8.encode "out"] archive = (.ok (), t₁) ∧
      (∀ q, q ≠ [] → Option.Rel FileNode.Alike (sample.node? ([Utf8.encode "src"] ++ q))
        (t₁.node? ([Utf8.encode "out"] ++ q))) ∧
      ∀ p, ¬Below [Utf8.encode "out"] p → t₁.node? p = emptyTarget.node? p := by
  have wellFormed : sample.WellFormed := wellFormed_of_entries (by decide)
  have root : sample.canonical [Utf8.encode "src"] = .ok [Utf8.encode "src"] := by decide
  have target : emptyTarget.canonical [Utf8.encode "out"] = .ok [Utf8.encode "out"] := by decide
  have directory : emptyTarget.isDirectoryAt [Utf8.encode "out"] = true := by decide
  exact ⟨⟨wellFormed, root, fun _ _ => sample_text, target, directory, fun _ => emptyTarget_empty⟩,
    extract_ofDirectory wellFormed root (fun _ _ => sample_text) target directory
      fun _ => emptyTarget_empty⟩

end Archive
end ContainerBuild
