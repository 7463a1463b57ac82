import ContainerBuild.Archive.Pack
import ContainerBuild.Archive.Single
import ContainerBuild.Container.Destination
import ContainerBuild.Manager
import ContainerBuild.Probe

/-!
# Copying into and out of containers

Every backend can upload and download archives. The copies of files and directories are made of these,
so they name what they carry in the same way on every backend.
-/

namespace ContainerBuild
namespace ContainerManager

variable {M : Type → Type} [Monad M] [MonadExceptOf BuildError M]

def ofOutcome {α : Type} (r : Outcome α) : M α :=
  match r with
  | .ok a => pure a
  | .error e => throw e

def copyContent (m : ContainerManager M) (id content dest : String) : M Unit := do
  let d ← ofOutcome (Destination.parse dest)
  let archive ← ofOutcome (Archive.ofText content d.name)
  m.upload id d.directory archive

def copyFile (m : ContainerManager M) (host : FileTree) (id : String) (path : List Name)
    (dest : String) : M Unit := do
  let d ← ofOutcome (Destination.parse dest)
  let archive ← ofOutcome (Archive.ofFile host path d.name)
  m.upload id d.directory archive

def copyDirectory (m : ContainerManager M) (host : FileTree) (id : String) (root : List Name)
    (dest : String) : M Unit := do
  let archive ← ofOutcome (Archive.ofDirectory host root)
  m.upload id dest archive

/-- Reads a regular file out of a container, if it is there. -/
def copyOut (m : ContainerManager M) (id path : String) : M (Option Bytes) := do
  match ← m.download id path with
  | some archive => do
    let content ← ofOutcome (Archive.firstFile archive)
    return some content
  | none => return none

/-- Starts a container and waits until its probe, if it has one, finds it ready. -/
def startReady (m : ContainerManager M) (waitReady : ReadinessProbe → M Readiness) (id : String)
    (probe : Option ReadinessProbe) : M Readiness := do
  m.start id
  match probe with
  | some p => waitReady p
  | none => pure .ready

end ContainerManager
end ContainerBuild
