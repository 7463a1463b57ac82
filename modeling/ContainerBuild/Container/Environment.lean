import ContainerBuild.Container.Config

/-!
# The environment of a container

Environment entries are texts with an equals sign after a key that is not empty; the value is all
that follows the first one. One daemon takes the environment as a list of entries, the other as a
dictionary. In both the secrets come last and win.
-/

namespace ContainerBuild
namespace Environment

def parseEntry (entry : String) : Outcome (String × String) :=
  match Text.splitFirst '=' entry with
  | some (key, value) => if key.isEmpty then .error (.invalidEnv entry) else .ok (key, value)
  | none => .error (.invalidEnv entry)

/-- The entries in order, or the first of them that is none. -/
def parseAll : List String → Outcome (List (String × String))
  | [] => .ok []
  | entry :: entries => do
    let first ← parseEntry entry
    let rest ← parseAll entries
    return first :: rest

def entryText (entry : String × String) : String :=
  entry.1 ++ "=" ++ entry.2

def toList (c : ContainerConfig) : Outcome (List String) := do
  let entries ← parseAll c.env
  return entries.map entryText ++ c.secrets.entries.map entryText

def toDictionary (c : ContainerConfig) : Outcome (Dictionary String String) := do
  let entries ← parseAll c.env
  return (Dictionary.ofList entries).insertAll c.secrets.entries

end Environment
end ContainerBuild
