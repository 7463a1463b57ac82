import ContainerBuild.MultiArch.Request

/-!
# The context of a request

Before a request makes a call, its bundle is read and unpacked into a place of its own, in a tree that has
nothing else. It is refused with the fault of reading it or with the error of unpacking it. Otherwise the
builds carry what was unpacked, and nothing if there is no bundle.
-/

namespace ContainerBuild
namespace BuildContext

/-- What becomes of the bundle of a request, by what reading it gives: the error that it is refused with, or
the context of the builds. -/
inductive Prepares : Option FileContent → Outcome (Option BuildContext) → Prop
  | absent : Prepares none (.ok none)
  | unreadable (fault : SystemFault) :
      Prepares (some (.error fault)) (.error (.io (.system fault)))
  | refused {archive : Bytes} {e : BuildError} {t : FileTree}
      (fails : Archive.extract FileTree.empty place archive = (.error e, t)) :
      Prepares (some (.ok archive)) (.error e)
  | unpacked {archive : Bytes} {t : FileTree}
      (succeeds : Archive.extract FileTree.empty place archive = (.ok (), t)) :
      Prepares (some (.ok archive)) (.ok (some ⟨t, place⟩))

theorem Prepares.prepare_eq {bundle : Option FileContent} {r : Outcome (Option BuildContext)}
    (h : Prepares bundle r) : prepare bundle = r := by
  cases h with
  | absent => rfl
  | unreadable fault => rfl
  | refused fails => simp only [prepare, unpack, fails, Except.map]
  | unpacked succeeds => simp only [prepare, unpack, succeeds, Except.map]

theorem prepares_prepare (bundle : Option FileContent) : Prepares bundle (prepare bundle) := by
  cases bundle with
  | none => exact .absent
  | some content =>
    cases content with
    | error fault => exact .unreadable fault
    | ok archive =>
      rcases h : Archive.extract FileTree.empty place archive with ⟨e | _, t⟩
      · rw [(Prepares.refused h).prepare_eq]
        exact .refused h
      · rw [(Prepares.unpacked h).prepare_eq]
        exact .unpacked h

end BuildContext
end ContainerBuild
