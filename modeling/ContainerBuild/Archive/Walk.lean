import ContainerBuild.Archive.Pack

/-!
# Packing by a walk

The directory to pack is named by a path, from the root or from the current directory. Everything below it
is visited with the path by which the walk came to it, and its member gets the steps of that path after
those of the directory as its name. So a directory that is named in another way is packed alike.
-/

namespace ContainerBuild

namespace FilePath

def join (directory : Bytes) (n : Name) : Bytes :=
  if directory.isEmpty || directory.getLast? == some slash then directory ++ n
  else directory ++ slash :: n

end FilePath

namespace FileTree

open FilePath (join)

def children (t : FileTree) (p : Place) : List (Name × FileNode) :=
  (t.below p).filterMap fun (q, x) =>
    match q with
    | [n] => some (n, x)
    | _ => none

/-- How many names lead to the innermost node. -/
def depth (t : FileTree) : Nat :=
  t.nodes.entries.foldr (fun e n => max e.1.length n) 0

theorem length_le_depth {t : FileTree} {e : Place × FileNode} (h : e ∈ t.nodes.entries) :
    e.1.length ≤ t.depth := by
  rw [depth]
  generalize t.nodes.entries = l at h
  induction l with
  | nil => cases h
  | cons first l ih =>
    rw [List.foldr_cons]
    rcases List.mem_cons.1 h with rfl | h
    · exact Nat.le_max_left _ _
    · exact Nat.le_trans (ih h) (Nat.le_max_right _ _)

theorem length_lt_depth {t : FileTree} {p : Place} {c : Name × FileNode} (h : c ∈ t.children p) :
    p.length < t.depth := by
  obtain ⟨⟨q, x⟩, hq, -⟩ := List.mem_filterMap.1 h
  obtain ⟨⟨place, y⟩, he, found⟩ := List.mem_filterMap.1 hq
  simp only at found
  split at found
  · rename_i inside
    rw [Bool.and_eq_true, decide_eq_true_eq] at inside
    exact Nat.lt_of_lt_of_le inside.2 (length_le_depth he)
  · cases found

/-- All that lies below a directory, with the path by which a walk from the directory comes to it. A
directory is followed by what lies in it; links are not followed. -/
def walk (t : FileTree) (p : Place) (path : Bytes) : List (Bytes × FileNode) :=
  (t.children p).attach.flatMap fun ⟨(n, x), _⟩ =>
    (join path n, x) :: match x with
      | .directory _ => t.walk (p ++ [n]) (join path n)
      | _ => []
termination_by t.depth - p.length
decreasing_by
  rename_i h
  have := length_lt_depth h
  rw [List.length_append, List.length_singleton]
  omega

end FileTree

namespace Archive

open FilePath

/-- The path that a walk starts with. What names the current directory does so by a dot. -/
def walkRoot (path : Bytes) : Bytes :=
  if path.isEmpty || path == dot || path == dot ++ [slash] then dot else path

/-- The names along which a path is followed. Names lead to the current directory, where a path starts that
is not absolute. -/
def namesOf (cwd : List Name) (path : Bytes) : List Name :=
  (if isAbsolute path then [] else cwd) ++ FilePath.walk path

/-- The name of a member: the steps of its path after those of the walk's start. -/
def entryName (root path : Bytes) : Outcome Bytes :=
  match (components root).isPrefixOf? (components path) with
  | none =>
    .error (.archive (Utf8.decodeLossy path ++ " escapes " ++ Utf8.decodeLossy root))
  | some steps =>
    .ok ((steps.filter fun c => c != .here).foldl (fun name c => join name c.bytes) [])

def namedMember (name : Bytes) (x : FileNode) : Tar.Member :=
  { memberOf [] x with name }

def appendTree (root : Bytes) : List (Bytes × FileNode) → Outcome Bytes
  | [] => return []
  | (path, x) :: rest => do
    let name ← entryName root path
    let first ← (namedMember name x).render.mapError fun flaw => .archive flaw.reason
    return first ++ (← appendTree root rest)

/-- The members for what lies below the directory that a path names. -/
def appendPath (t : FileTree) (cwd : List Name) (path : Bytes) : Outcome Bytes :=
  let root := walkRoot path
  match t.canonical (namesOf cwd root) with
  | .error fault => throw (.archive fault.text)
  | .ok p => appendTree root (t.walk p root)

/-- The archive of all that lies below the directory that a path names. -/
def ofPath (t : FileTree) (cwd : List Name) (path : Bytes) : Outcome Bytes := do
  return (← appendPath t cwd path) ++ Tar.ending

end Archive
end ContainerBuild
