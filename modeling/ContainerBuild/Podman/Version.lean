import ContainerBuild.BuildError
import ContainerBuild.Json.Record
import ContainerBuild.Text
import ContainerBuild.Text.Number

/-!
# Versions of Podman

The major version decides which paths a daemon serves. The daemon and the command line tool each tell
their version as a text of numbers between full stops, which may begin with the letter v. The two write
it into different places, and each reader takes it apart in its own order.
-/

namespace ContainerBuild
namespace Podman

def name : String := "podman"

/-- The form of the paths that a daemon serves. -/
inductive ApiVersion
  | legacy
  | current
  deriving DecidableEq, Repr

namespace ApiVersion

def text : ApiVersion → String
  | legacy => "v3.0.0"
  | current => "v4.0.0"

/-- The first major version with the current paths. -/
def firstCurrent : Nat := 4

def ofMajor (major : Nat) : ApiVersion :=
  if firstCurrent ≤ major then current else legacy

theorem ofMajor_eq_legacy_iff {major : Nat} : ofMajor major = legacy ↔ major < 4 := by
  unfold ofMajor firstCurrent
  split <;> simp <;> omega

end ApiVersion

/-- A number of 64 bits, with a plus sign before it or none. -/
def majorNumber? (cs : List Char) : Option Nat :=
  Text.unsigned? 10 Text.maxUnsigned64 cs

def beforeStop (cs : List Char) : List Char :=
  cs.takeWhile (· != '.')

/-- The characters after the letters v at the start. -/
def afterLetters (cs : List Char) : List Char :=
  cs.dropWhile (· == 'v')

def serverMajor? (version : String) : Option Nat :=
  majorNumber? (beforeStop (afterLetters version.toList))

def clientMajor? (version : String) : Option Nat :=
  majorNumber? (afterLetters (beforeStop version.toList))

def backendError (message : String) : BuildError := .backend name message

def discoveryError (reason : String) : BuildError := .discovery name reason

def versionField : Json.Fields String := Json.Fields.required "Version" Json.Decode.text

def readServerMajor (body : Bytes) : Outcome Nat :=
  match Json.read versionField.decode body with
  | .error fault => .error (.serialization fault.text)
  | .ok version =>
    match serverMajor? version with
    | some major => .ok major
    | none => .error (backendError ("unparseable server version '" ++ version ++ "'"))

def readClientMajor (output : Bytes) : Outcome Nat :=
  match Json.read (Json.Fields.required "Client" versionField.decode).decode output with
  | .error fault => .error (discoveryError ("unreadable version output: " ++ fault.text))
  | .ok version =>
    match clientMajor? version with
    | some major => .ok major
    | none => .error (discoveryError ("unparseable version '" ++ version ++ "'"))

end Podman
end ContainerBuild
