import ContainerBuild.Proofs.Archive.Confinement
import ContainerBuild.Proofs.Archive.SingleFile

/-!
# One file, unpacked into a directory that is there

A file whose name is a single step is put into the directory itself. Whatever was in its place before, where
the unpacking succeeds there is the file and nothing else has changed; and it succeeds where nothing or a file
is in its place.
-/

namespace ContainerBuild
namespace Archive

open FileTree FilePath

variable {t t' t₁ t₂ : FileTree} {dest names : List Name} {d : Place} {n : Name} {x : FileNode}
variable {data archive : Bytes} {name : String} {e : Tar.Entry} {mode : Nat}

/-- What was removed for a node does not count for how the node is put. -/
theorem run_unpackFile_congr (whole : e.data = (data, true))
    (before : (replaceWith names (.file newFileMode data)).run t = (.ok (), t₂))
    (after : (replaceWith names (.file newFileMode data)).run t₁ = (.ok (), t₂)) :
    (unpackFile e names).run t = (unpackFile e names).run t₁ := by
  unfold unpackFile
  simp only [whole]
  rw [run_bind, run_bind, before, after]

theorem Put.vacant (put : Put t d n x t') (hd : t.canonical dest = .ok d) : Vacant t dest d n :=
  ⟨hd, put.directory, put.name, put.nothing⟩

theorem follow_of_isEntryName (hd : t.canonical dest = .ok d) (directory : t.isDirectoryAt d = true)
    (hn : IsEntryName n) : t.follow false (dest ++ [n]) = .ok (d ++ [n]) := by
  rw [follow_child hd hn.ne_dot hn.ne_dotDot, if_pos directory, if_neg hn.no_zero,
    if_neg (Nat.not_lt.2 hn.short)]

theorem node?_of_unpackFile (hd : t.canonical dest = .ok d) (directory : t.isDirectoryAt d = true)
    (step : IsName n) (bits : e.block.mode? = some mode) (whole : e.data = (data, true))
    (run : (unpackFile e (dest ++ [n])).run t = (.ok (), t')) :
    t.follow false (dest ++ [n]) = .ok (d ++ [n]) ∧
      ∀ q, t'.node? q = if d ++ [n] = q then some (.file (mode % 0o10000) data) else t.node? q := by
  have inside : Inside dest d [] d t := ⟨hd, by rwa [List.append_nil], List.prefix_rfl⟩
  obtain ⟨t₁, kept, outcome⟩ := run_replaceWith_cases inside step.ne_dot step.ne_dotDot
    (.file newFileMode data)
  rw [List.append_nil] at outcome
  rcases outcome with ⟨fault, failed⟩ | ⟨t₂, replaced, inside₁, put⟩
  · unfold unpackFile at run
    simp only [whole] at run
    rw [run_bind, failed] at run
    cases run
  · have v := put.vacant inside₁.base
    have again : (replaceWith (dest ++ [n]) (.file newFileMode data)).run t₁ = (.ok (), t₂) := by
      rw [v.run_replaceWith, put.eq]
    obtain ⟨t₃, run₁, nodes⟩ := v.puts_unpackFile bits whole
    rw [run_unpackFile_congr whole replaced again, run₁] at run
    obtain rfl : t₃ = t' := (Prod.mk.inj run).2
    refine ⟨follow_of_isEntryName hd directory put.name, fun q => ?_⟩
    rw [nodes q]
    split
    · rfl
    · rename_i elsewhere
      rcases kept with rfl | rfl
      · rfl
      · rw [node?_remove (by simp), if_neg elsewhere]

theorem exists_run_unpackFile (hd : t.canonical dest = .ok d) (directory : t.isDirectoryAt d = true)
    (hn : IsEntryName n) (bits : e.block.mode? = some mode) (whole : e.data = (data, true))
    (free : ∀ x, t.node? (d ++ [n]) = some x → ∃ mode data, x = .file mode data) :
    ∃ t', (unpackFile e (dest ++ [n])).run t = (.ok (), t') := by
  cases hx : t.node? (d ++ [n]) with
  | none =>
    have v : Vacant t dest d n := ⟨hd, directory, hn, hx⟩
    obtain ⟨t', run, -⟩ := v.puts_unpackFile bits whole
    exact ⟨t', run⟩
  | some x =>
    obtain ⟨mode', data', rfl⟩ := free x hx
    have keeps := keepsWays_remove hx
    have follow := follow_of_isEntryName hd directory hn
    have nothing : (t.remove (d ++ [n])).node? (d ++ [n]) = none := by
      rw [node?_remove (by simp), if_pos rfl]
    have v : Vacant (t.remove (d ++ [n])) dest d n :=
      ⟨keeps.canonical hd directory, keeps.isDirectoryAt directory, hn, nothing⟩
    have removed : t.unlink (dest ++ [n]) = .ok (t.remove (d ++ [n])) :=
      unlink_eq_ok_iff.2 ⟨_, _, follow, hx, fun _ => nofun, rfl⟩
    -- The file that is there is in the way first, and is removed.
    have replaced : (replaceWith (dest ++ [n]) (.file newFileMode data)).run t =
        (.ok (), (t.remove (d ++ [n])).set (d ++ [n]) (.file newFileMode data)) := by
      rw [replaceWith, run_get_bind]
      simp only [create_of_some follow hx, if_true]
      rw [run_bind, run_apply, removed]
      simp only
      rw [run_apply, v.create]
    obtain ⟨t', run, -⟩ := v.puts_unpackFile bits whole
    exact ⟨t', by rw [run_unpackFile_congr whole replaced (v.run_replaceWith _), run]⟩

/-- An archive of one file with a name of one step, unpacked into a directory that is there: if that succeeds,
the name leads to the file there and nothing else has changed; and it succeeds if the name leads to nothing
yet, or to another file. -/
theorem extract_into (hd : t.canonical dest = .ok d) (directory : t.isDirectoryAt d = true)
    (step : IsName (Utf8.encode name)) (plain : Gzip.hasSignature archive = false)
    (entries : Tar.entries (.ofBytes archive) = ([e], true))
    (read : e.ReadAs (fileMember name fileMode data)) :
    (∀ t', extract t dest archive = (.ok (), t') →
      ∃ place, t.follow false (dest ++ [Utf8.encode name]) = .ok place ∧
        ∀ q, t'.node? q = if place = q then some (.file fileMode data) else t.node? q) ∧
    ∀ place, t.follow false (dest ++ [Utf8.encode name]) = .ok place →
      (∀ x, t.node? place = some x → ∃ mode data, x = .file mode data) →
      ∃ t', extract t dest archive = (.ok (), t') := by
  have whole : e.data = (data, true) := read.data
  have bits : e.block.mode? = some fileMode := read.mode
  have around : t.canonical (dest ++ []) = .ok d := by rwa [List.append_nil]
  have named : e.name = memberName ([] ++ [Utf8.encode name]) := by
    rw [read.name, memberName, List.nil_append, List.intercalate_singleton]
    rfl
  have steps : ∀ m ∈ [] ++ [Utf8.encode name], IsName m := by simpa using step
  have file : extract t dest archive = (unpackFile e (dest ++ [Utf8.encode name])).run t := by
    rw [extract_alone hd directory plain entries,
      run_unpackEntry (run_ensureAround around) hd around List.prefix_rfl steps named, List.append_nil,
      place_file read.kind (not_isOldDirectory (fun m hm => (steps m hm).toIsPiece) named)]
  rw [file]
  constructor
  · intro t' run
    obtain ⟨follow, nodes⟩ := node?_of_unpackFile hd directory step bits whole run
    exact ⟨_, follow, nodes⟩
  · intro place follow free
    obtain ⟨rfl, -, hn⟩ := of_follow_child hd step.ne_dot step.ne_dotDot follow
    exact exists_run_unpackFile hd directory hn bits whole free

end Archive
end ContainerBuild
