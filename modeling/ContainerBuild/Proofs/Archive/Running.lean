import ContainerBuild.Archive.Unpack

/-!
# Running changes of a tree

What the parts of unpacking make of a tree, each as one equation: the outcome, and the tree with all
that was changed before a failure.
-/

namespace ContainerBuild
namespace Archive

variable {α : Type} (t : FileTree)

theorem run_bind (m : Change α) {β : Type} (f : α → Change β) :
    (m >>= f).run t = match m.run t with
      | (.ok a, t') => (f a).run t'
      | (.error e, t') => (.error e, t') := by
  change (match m.run t with
    | (a, t') => (ExceptT.bindCont f a) t') = _
  rcases m.run t with ⟨_ | a, t'⟩ <;> rfl

theorem run_get_bind {β : Type} (f : FileTree → Change β) : (get >>= f).run t = (f t).run t := rfl

theorem run_apply (f : FileTree → Except SystemFault FileTree) :
    (apply f).run t = match f t with
      | .ok t' => (.ok (), t')
      | .error fault => (.error (.archive fault.text), t) := by
  unfold apply
  rw [run_get_bind]
  cases f t <;> rfl

theorem run_makeAll (report : SystemFault → BuildError) (names : List Name) :
    (makeAll report names).run t = match t.makeDirectories names with
      | (.ok _, t') => (.ok (), t')
      | (.error fault, t') => (.error (report fault), t') := by
  unfold makeAll
  rw [run_get_bind]
  rcases t.makeDirectories names with ⟨_ | _, t'⟩ <;> rfl

theorem run_requireInside (dest names : List Name) :
    (requireInside dest names).run t = match liesIn t dest names with
      | .error fault => (.error (.archive fault.text), t)
      | .ok true => (.ok (), t)
      | .ok false => (.error (.archive "trying to unpack outside of destination path"), t) := by
  unfold requireInside
  rw [run_get_bind]
  rcases liesIn t dest names with _ | _ | _ <;> rfl

theorem run_extract (dest : List Name) (archive : Bytes) :
    extract t dest archive = match t.makeDirectories dest with
      | (.ok _, t₁) => ((unpackEntries dest (Tar.entries (Gzip.source archive)).1 >>= fun _ =>
          if !(Tar.entries (Gzip.source archive)).2 then throw (.archive "unreadable member")
          else Pure.pure () : Change Unit).run t₁)
      | (.error fault, t₁) => (.error (.io (.system fault)), t₁) := by
  unfold extract unpack
  rw [run_bind, run_makeAll]
  rcases t.makeDirectories dest with ⟨_ | _, t₁⟩ <;> rfl

end Archive
end ContainerBuild
