import ContainerBuild.Docker.Manager
import ContainerBuild.Podman.Manager
import ContainerBuild.Registry

/-!
# The backends that come with the library
-/

namespace ContainerBuild
namespace BackendRegistry

def hostVariable : String := "DOCKER_HOST"

def standard (lookup : String → Option String) : BackendRegistry :=
  (empty.register Docker.name fun config => do
    let d ← Docker.connect config (lookup hostVariable)
    return d.manager).register Podman.name fun config => do
      let c ← Podman.connect config
      return c.manager

end BackendRegistry
end ContainerBuild
