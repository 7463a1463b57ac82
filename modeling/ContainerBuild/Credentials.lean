import ContainerBuild.Base64
import ContainerBuild.BuildError
import ContainerBuild.Json.Record
import ContainerBuild.Text
import ContainerBuild.Text.Visible

/-!
# Registry credentials

Credentials travel as the base64 text of a JSON object. Either alphabet is read, since clients do not
agree on one; the URL-safe one is written. A blank text stands for anonymous access.
-/

namespace ContainerBuild

structure Credentials where
  username : String
  password : String
  serverAddress : Option String
  deriving DecidableEq, Repr

namespace Credentials

def anonymous : Credentials := ⟨"", "", none⟩

def isEmpty (c : Credentials) : Bool :=
  c.username.isEmpty && c.password.isEmpty

def toJson (c : Credentials) : Json :=
  .object ([("username", .text c.username), ("password", .text c.password)] ++
    match c.serverAddress with
    | some address => [("serveraddress", .text address)]
    | none => [])

def fields : Json.Fields Credentials :=
  ((Json.Fields.required "username" Json.Decode.text).and
    ((Json.Fields.required "password" Json.Decode.text).and
      (Json.Fields.optionalTail ["serveraddress", "serverAddress"] Json.Decode.text))).map
    fun (username, password, address) => ⟨username, password, address⟩

/-- The bytes of a base64 text in either alphabet. -/
def decodeBase64? (text : String) : Option Bytes :=
  match Base64.decode? .standard text with
  | some raw => some raw
  | none => Base64.decode? .urlSafe text

def decode (blob : String) : Outcome Credentials :=
  let text := Text.trim blob
  if text.isEmpty then .ok anonymous
  else
    match decodeBase64? text with
    | none => .error (.invalidCredentials "not base64: malformed text")
    | some raw =>
      (Json.read fields.decode raw).mapError fun fault =>
        .invalidCredentials ("not a credential object: " ++ fault.text)

def encode (c : Credentials) : String :=
  Base64.encode .urlSafe c.toJson.render

def redactedText (c : Credentials) : String :=
  "RegistryCredentials \x7b username: " ++ Text.shown c.username ++
    ", password: \"<redacted>\", serveraddress: " ++
    (match c.serverAddress with
    | some address => "Some(" ++ Text.shown address ++ ")"
    | none => "None") ++ " \x7d"

end Credentials
end ContainerBuild
