import ContainerBuild.EngineConfig
import ContainerBuild.Manager
import ContainerBuild.Surroundings

/-!
# Backends by name

A registry knows how to connect each backend. A configuration chooses one by its name.
-/

namespace ContainerBuild

abbrev BackendFactory := EngineConfig → Session (ContainerManager Session)

structure BackendRegistry where
  factories : Dictionary String BackendFactory

namespace BackendRegistry

def empty : BackendRegistry := ⟨Dictionary.empty⟩

/-- Adds a backend, in place of one that has the name already. -/
def register (r : BackendRegistry) (name : String) (factory : BackendFactory) : BackendRegistry :=
  ⟨r.factories.insert name factory⟩

def names (r : BackendRegistry) : List String :=
  r.factories.keys

def contains (r : BackendRegistry) (name : String) : Bool :=
  r.factories.contains name

def connect (r : BackendRegistry) (name : String) (config : EngineConfig) :
    Session (ContainerManager Session) :=
  match r.factories.get? name with
  | some factory => factory config
  | none => throw (.unknownBackend name (Text.join ", " r.names))

def connectConfigured (r : BackendRegistry) (config : EngineConfig) :
    Session (ContainerManager Session) :=
  r.connect config.runtime config

def text (r : BackendRegistry) : String :=
  "BackendRegistry \x7b backends: [" ++ Text.join ", " (r.names.map Text.shown) ++ "] \x7d"

end BackendRegistry
end ContainerBuild
