import ContainerBuild.Container.Config
import ContainerBuild.Container.Report
import ContainerBuild.Container.Signal
import ContainerBuild.MultiArch.Request

/-!
# Container managers

What every backend can do, whatever daemon it speaks to. The operations run in a monad `M` that can
fail with a `BuildError`; what else it can do is up to the backend.
-/

namespace ContainerBuild

/-- What a command wrote, in pieces as they came, and why there is no more of it. -/
structure ExecOutput where
  chunks : List Bytes
  failure : Option BuildError
  deriving DecidableEq, Repr

/-- The output of a command that nobody reads. -/
def ExecOutput.empty : ExecOutput := ⟨[], none⟩

structure ContainerManager (M : Type → Type) where
  name : String
  ping : M Unit
  create : ContainerConfig → (registryAuth : String) → M String
  start : (id : String) → M Unit
  stop : (id : String) → Signal → M Unit
  remove : (id : String) → M Unit
  /-- Runs a command in a container, and reads what it writes if asked to. -/
  exec : (id : String) → (command : List String) → (attach : Bool) → M ExecOutput
  inspect : (id : String) → M ContainerDetails
  wait : (id : String) → WaitCondition → M Int
  commit : (id : String) → CommitOptions → M String
  upload : (id directory : String) → (archive : Bytes) → M Unit
  /-- A path of a container as an archive, if it is there. -/
  download : (id path : String) → M (Option Bytes)
  listImages : M (List ImageSummary)
  pull : (reference : String) → Option PlatformSpec → (registryAuth : String) → M String
  tag : (source target : String) → M Unit
  push : (reference registryAuth : String) → M String
  removeImage : (reference : String) → (force : Bool) → M Unit
  inspectImage : (reference : String) → M ImageDetails
  build : (dockerfile : Bytes) → (imageName : String) → Option PlatformSpec → M BuildOutput
  buildMultiArch : MultiArchRequest → M MultiArchOutput

namespace ContainerManager

/-- A manager that refuses everything, to start from where only some operations can be offered. -/
def refusing {M : Type → Type} [MonadExceptOf BuildError M] (name : String) : ContainerManager M where
  name := name
  ping := throw (.notSupported "ping")
  create := fun _ _ => throw (.notSupported "create")
  start := fun _ => throw (.notSupported "start")
  stop := fun _ _ => throw (.notSupported "stop")
  remove := fun _ => throw (.notSupported "remove")
  exec := fun _ _ _ => throw (.notSupported "exec")
  inspect := fun _ => throw (.notSupported "inspect")
  wait := fun _ _ => throw (.notSupported "wait")
  commit := fun _ _ => throw (.notSupported "commit")
  upload := fun _ _ _ => throw (.notSupported "upload")
  download := fun _ _ => throw (.notSupported "download")
  listImages := throw (.notSupported "list_images")
  pull := fun _ _ _ => throw (.notSupported "pull")
  tag := fun _ _ => throw (.notSupported "tag")
  push := fun _ _ => throw (.notSupported "push")
  removeImage := fun _ _ => throw (.notSupported "remove_image")
  inspectImage := fun _ => throw (.notSupported "inspect_image")
  build := fun _ _ _ => throw (.notSupported "build")
  buildMultiArch := fun _ => throw (.notSupported "build_multi_arch")

end ContainerManager

end ContainerBuild
