import ContainerBuild.Docker.Manager
import ContainerBuild.Podman.Manager
import ContainerBuild.Proofs.Credentials.Blobs

/-!
# Credentials for either backend

Both backends read the same blob. One hands the credentials on as they are, and its client writes them
into a header with null for all that is not known; the other writes a header of its own, without what
is not known. The blob may be in either alphabet, with its fields in any order and under either name:
what the daemons find in the two headers is the same.
-/

namespace ContainerBuild
namespace Credentials

variable {auth value : String} {c : Credentials} {j : Json} {members : List (String × Json)}

def Nobody (c : Credentials) : Prop :=
  c.username = "" ∧ c.password = ""

theorem isEmpty_iff : c.isEmpty = true ↔ Nobody c := by
  rw [isEmpty, Bool.and_eq_true, String.isEmpty_iff, String.isEmpty_iff, Nobody]

/-- The members of an object that a daemon looks at. What it does not find counts as null. -/
structure Shows (members : List (String × Json)) (c : Credentials) : Prop where
  username : members.lookup "username" = some (.text c.username)
  password : members.lookup "password" = some (.text c.password)
  address : (members.lookup "serveraddress").getD .null = .textOrNull c.serverAddress

/-- The value of a header with some credentials: the base64 text of an object that shows them, which is
also a blob of the same credentials. -/
structure Carries (value : String) (c : Credentials) : Prop where
  shown : ∃ members, Base64.decode? .urlSafe value = some (Json.object members).render ∧ Shows members c
  read : decode value = .ok c

theorem decode_ok_or_invalid (auth : String) :
    (∃ c, decode auth = .ok c) ∨ ∃ reason, decode auth = .error (.invalidCredentials reason) := by
  unfold decode
  simp only
  split
  · exact .inl ⟨_, rfl⟩
  · split
    · exact .inr ⟨_, rfl⟩
    · rename_i raw _
      cases Json.read fields.decode raw with
      | ok c => exact .inl ⟨c, rfl⟩
      | error fault => exact .inr ⟨_, rfl⟩

theorem decode_of_object (h : fields.decode (.ofJson j) = .ok c) :
    decode (Base64.encode .urlSafe j.render) = .ok c := by
  obtain ⟨_, _, first, -⟩ := Json.exists_render j
  have nonempty : ¬j.render.isEmpty = true := by
    rw [first]
    exact Bool.false_ne_true
  rw [(holds_encode .urlSafe j.render).decode, ofBytes, if_neg nonempty, Json.read_render, h]
  rfl

theorem carries_of_object (shows : Shows members c)
    (h : fields.decode (.ofJson (.object members)) = .ok c) :
    Carries (Base64.encode .urlSafe (Json.object members).render) c :=
  ⟨⟨members, Base64.decode?_encode _ _, shows⟩, decode_of_object h⟩

/-- What is not known is left out. -/
theorem carries_encode (c : Credentials) : Carries c.encode c := by
  refine carries_of_object ?_ (decode_toJson c)
  obtain ⟨username, password, _ | address⟩ := c <;> exact ⟨rfl, rfl, rfl⟩

/-- What is not known is null. -/
theorem carries_authHeader (c : Credentials) : Carries (Docker.authHeader (some c)).2 c := by
  obtain ⟨username, password, _ | address⟩ := c <;> exact carries_of_object ⟨rfl, rfl, rfl⟩ rfl

/-- What the backends make of a blob. -/
inductive Agree : Outcome Credentials → Outcome (Option Credentials) →
    Outcome (List (String × String)) → Prop
  | invalid (reason : String) :
      Agree (.error (.invalidCredentials reason)) (.error (.invalidCredentials reason))
        (.error (.invalidCredentials reason))
  | anonymous {c : Credentials} (nobody : Nobody c) : Agree (.ok c) (.ok none) (.ok [])
  | known {c : Credentials} {value : String} (somebody : ¬Nobody c) (header : Carries value c)
      (sent : Carries (Docker.authHeader (some c)).2 c) :
      Agree (.ok c) (.ok (some c)) (.ok [("X-Registry-Auth", value)])

/-- Both backends refuse a blob with the same error, or both take it for anonymous access, which it is
just if it has neither user nor password; or one has its credentials and the other a single header that
carries the same, as does the header that is made of the former. -/
theorem backends_agree (auth : String) :
    Agree (decode auth) (Docker.credentials auth) (Podman.authHeaders auth) := by
  unfold Docker.credentials Podman.authHeaders
  rcases decode_ok_or_invalid auth with ⟨c, h⟩ | ⟨reason, h⟩
  · rw [h]
    by_cases nobody : Nobody c
    · have empty := isEmpty_iff.2 nobody
      simp only [bind, Except.bind, empty, if_true]
      exact .anonymous nobody
    · have known : c.isEmpty = false := Bool.eq_false_iff.2 fun empty => nobody (isEmpty_iff.1 empty)
      simp only [bind, Except.bind, known, Bool.false_eq_true, if_false]
      exact .known nobody (carries_encode c) (carries_authHeader c)
  · rw [h]
    exact .invalid reason

end Credentials
end ContainerBuild
