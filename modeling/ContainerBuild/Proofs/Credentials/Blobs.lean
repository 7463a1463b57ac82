import ContainerBuild.Credentials
import ContainerBuild.Proofs.Base64.Reading
import ContainerBuild.Proofs.Json.ReadingBack
import ContainerBuild.Proofs.Text.Splitting

/-!
# Credentials in their blobs

Credentials are read back from the blob they are written to, whatever characters they are made of. A
blob is read for the bytes it holds alone: neither the alphabet it is written in nor the blanks
around it make a difference.
-/

namespace ContainerBuild
namespace Credentials

variable {a : Base64.Alphabet} {b : Bytes} {blob : String}

/-- The base64 text of some bytes with any blanks around it. -/
def Holds (a : Base64.Alphabet) (b : Bytes) (blob : String) : Prop :=
  ∃ before after : String, (∀ c ∈ before.toList, Text.isBlank c = true) ∧
    (∀ c ∈ after.toList, Text.isBlank c = true) ∧ blob = before ++ Base64.encode a b ++ after

theorem holds_encode (a : Base64.Alphabet) (b : Bytes) : Holds a b (Base64.encode a b) := by
  refine ⟨"", "", nofun, nofun, ?_⟩
  simp

theorem Holds.trim (h : Holds a b blob) : Text.trim blob = Base64.encode a b := by
  obtain ⟨before, after, hb, ha, rfl⟩ := h
  have hc : ∀ c ∈ Base64.encodeChars a b, Text.isBlank c = false := fun _ =>
    Base64.isBlank_of_mem_encodeChars
  rw [Text.trim, String.toList_append, String.toList_append, Base64.encode, String.toList_ofList,
    Text.trimChars_surrounded hb hc ha]

theorem decodeBase64?_encode (a : Base64.Alphabet) (b : Bytes) :
    decodeBase64? (Base64.encode a b) = some b := by
  cases a with
  | standard => rw [decodeBase64?, Base64.decode?_encode]
  | urlSafe =>
    obtain h | ⟨-, h⟩ := Base64.finds_decode? .urlSafe .standard b
    · rw [decodeBase64?, h]
    · rw [decodeBase64?, h, Base64.decode?_encode]

/-- The credentials that some bytes stand for. -/
def ofBytes (b : Bytes) : Outcome Credentials :=
  if b.isEmpty then .ok anonymous
  else (Json.read fields.decode b).mapError fun fault =>
    .invalidCredentials ("not a credential object: " ++ fault.text)

theorem Holds.decode (h : Holds a b blob) : decode blob = ofBytes b := by
  have he : (Base64.encode a b).isEmpty = b.isEmpty := by
    rw [Bool.eq_iff_iff, String.isEmpty_iff, List.isEmpty_iff, ← String.toList_eq_nil_iff,
      Base64.encode, String.toList_ofList, Base64.encodeChars_eq_nil_iff]
  rw [Credentials.decode, h.trim, ofBytes]
  simp only [he, decodeBase64?_encode]

theorem ofBytes_ok_or_invalid (b : Bytes) :
    (∃ c, ofBytes b = .ok c) ∨ ∃ reason, ofBytes b = .error (.invalidCredentials reason) := by
  unfold ofBytes
  split
  · exact Or.inl ⟨_, rfl⟩
  · cases Json.read fields.decode b with
    | ok c => exact Or.inl ⟨c, rfl⟩
    | error fault => exact Or.inr ⟨_, rfl⟩

theorem decode_toJson (c : Credentials) : fields.decode (.ofJson c.toJson) = .ok c := by
  obtain ⟨username, password, _ | address⟩ := c <;> rfl

theorem ofBytes_render (c : Credentials) : ofBytes c.toJson.render = .ok c := by
  rw [ofBytes, if_neg, Json.read_render, decode_toJson]
  · rfl
  · obtain ⟨_, _, h, -⟩ := Json.exists_render c.toJson
    rw [h]
    exact Bool.false_ne_true

/-- Credentials are read back from their blob, and a blob in one alphabet is read like the blob of
the same bytes in the other. -/
theorem blobs_agree :
    (∀ c : Credentials, decode (encode c) = .ok c) ∧
      ∀ (b : Bytes) (standard urlSafe : String),
        Holds .standard b standard → Holds .urlSafe b urlSafe →
          decode standard = decode urlSafe ∧
            ((∃ c, decode standard = .ok c) ∨
              ∃ reason, decode standard = .error (.invalidCredentials reason)) := by
  constructor
  · intro c
    rw [encode, (holds_encode .urlSafe c.toJson.render).decode, ofBytes_render]
  · intro b standard urlSafe hs hu
    rw [hs.decode, hu.decode]
    exact ⟨rfl, ofBytes_ok_or_invalid b⟩

theorem blob_of_password_with_tildes :
    decode " eyJ1c2VybmFtZSI6ImMiLCJwYXNzd29yZCI6In5+fiJ9\n" =
        decode "eyJ1c2VybmFtZSI6ImMiLCJwYXNzd29yZCI6In5-fiJ9" ∧
      ((∃ c, decode " eyJ1c2VybmFtZSI6ImMiLCJwYXNzd29yZCI6In5+fiJ9\n" = .ok c) ∨
        ∃ reason, decode " eyJ1c2VybmFtZSI6ImMiLCJwYXNzd29yZCI6In5+fiJ9\n" =
          .error (.invalidCredentials reason)) := by
  have hs : Holds .standard (toJson ⟨"c", "~~~", none⟩).render
      " eyJ1c2VybmFtZSI6ImMiLCJwYXNzd29yZCI6In5+fiJ9\n" :=
    ⟨" ", "\n", by simp [Text.isBlank], by simp [Text.isBlank], by decide +kernel⟩
  have hu : Holds .urlSafe (toJson ⟨"c", "~~~", none⟩).render
      "eyJ1c2VybmFtZSI6ImMiLCJwYXNzd29yZCI6In5-fiJ9" :=
    ⟨"", "", nofun, nofun, by decide +kernel⟩
  exact blobs_agree.2 _ _ _ hs hu

end Credentials
end ContainerBuild
