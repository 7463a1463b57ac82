import ContainerBuild.Http.Percent
import ContainerBuild.Proofs.Bytes.Characters
import ContainerBuild.Proofs.Text.Splitting

/-!
# Encoded text read back

An encoded text is made of unreserved characters and of percent signs with two digits, so no separator
of a target stands in it, and each byte is read back on its own with the rest of the text free. A query
is cut at its ampersands and every piece of it at the first equals sign. As encoded values have neither,
this gives the parameters back, in order.
-/

namespace ContainerBuild
namespace Percent

def IsUnreserved (c : Char) : Prop :=
  c.isAlphanum = true ∨ c ∈ ['-', '.', '_', '~']

instance (c : Char) : Decidable (IsUnreserved c) :=
  inferInstanceAs (Decidable (_ ∨ _))

def Unreserved (s : String) : Prop :=
  ∀ c ∈ s.toList, IsUnreserved c

instance (s : String) : Decidable (Unreserved s) :=
  List.decidableBAll IsUnreserved s.toList

def IsHexDigit (c : Char) : Prop :=
  c ∈ "0123456789ABCDEF".toList

/-- Unreserved characters, and percent signs with two hexadecimal digits. -/
inductive Escaped : List Char → Prop
  | nil : Escaped []
  | plain {c : Char} {cs : List Char} (hc : IsUnreserved c) (h : Escaped cs) : Escaped (c :: cs)
  | escape {high low : Char} {cs : List Char} (hh : IsHexDigit high) (hl : IsHexDigit low)
      (h : Escaped cs) : Escaped ('%' :: high :: low :: cs)

variable {cs : List Char} {b : UInt8}

theorem IsHexDigit.isUnreserved {c : Char} (h : IsHexDigit c) : IsUnreserved c := by
  have table : Unreserved "0123456789ABCDEF" := by decide
  exact table c h

theorem Escaped.mem {c : Char} (h : Escaped cs) (hc : c ∈ cs) : IsUnreserved c ∨ c = '%' := by
  induction h with
  | nil => cases hc
  | plain hu _ ih =>
    rcases List.mem_cons.1 hc with rfl | hc
    · exact .inl hu
    · exact ih hc
  | escape hh hl _ ih =>
    rcases List.mem_cons.1 hc with rfl | hc
    · exact .inr rfl
    rcases List.mem_cons.1 hc with rfl | hc
    · exact .inl hh.isUnreserved
    rcases List.mem_cons.1 hc with rfl | hc
    · exact .inl hl.isUnreserved
    · exact ih hc

/-! ### Bytes -/

theorem lt_of_isUnreserved (h : isUnreserved b = true) : b.toNat < 128 := by
  have table : ∀ n < 256, isUnreserved (UInt8.ofNat n) = true → n < 128 := by decide +kernel
  exact table b.toNat b.toNat_lt (by rwa [UInt8.ofNat_toNat])

theorem isUnreserved_char (h : isUnreserved b = true) : IsUnreserved (Char.ofNat b.toNat) := by
  have table : ∀ n < 128, isUnreserved (UInt8.ofNat n) = true → IsUnreserved (Char.ofNat n) := by
    decide +kernel
  exact table b.toNat (lt_of_isUnreserved h) (by rwa [UInt8.ofNat_toNat])

theorem isHexDigit_hexDigit {n : Nat} (h : n < 16) : IsHexDigit (Bytes.hexDigit true n) := by
  have table : ∀ n < 16, Bytes.hexDigit true n ∈ "0123456789ABCDEF".toList := by decide
  exact table n h

theorem hexValue?_hexDigit {n : Nat} (h : n < 16) :
    hexValue? (Bytes.hexDigit true n) = some n := by
  have table : ∀ n < 16, hexValue? (Bytes.hexDigit true n) = some n := by decide
  exact table n h

theorem high_lt (b : UInt8) : b.toNat / 16 < 16 := by
  have := b.toNat_lt
  omega

theorem low_lt (b : UInt8) : b.toNat % 16 < 16 :=
  Nat.mod_lt _ (by decide)

theorem escaped_encodeByte (b : UInt8) (h : Escaped cs) : Escaped (encodeByte b ++ cs) := by
  unfold encodeByte
  split
  · rename_i hb
    exact .plain (isUnreserved_char hb) h
  · exact .escape (isHexDigit_hexDigit (high_lt b)) (isHexDigit_hexDigit (low_lt b)) h

theorem escaped_encodeBytes (bytes : Bytes) : Escaped (encodeBytes bytes) := by
  induction bytes with
  | nil => exact .nil
  | cons b bytes ih => exact escaped_encodeByte b ih

theorem decodeChars_plain {c : Char} (hc : c ≠ '%') (cs : List Char) :
    decodeChars (c :: cs) = Utf8.encode (String.singleton c) ++ decodeChars cs := by
  rw [decodeChars]
  rintro a b cs' rfl
  exact absurd rfl hc

theorem decodeChars_hexPair (b : UInt8) (cs : List Char) :
    decodeChars ('%' :: Bytes.hexPair true b ++ cs) = b :: decodeChars cs := by
  have hb : UInt8.ofNat (b.toNat / 16 * 16 + b.toNat % 16) = b := by
    rw [Nat.div_add_mod', UInt8.ofNat_toNat]
  change decodeChars ('%' :: Bytes.hexDigit true (b.toNat / 16) ::
    Bytes.hexDigit true (b.toNat % 16) :: cs) = _
  rw [decodeChars, hexValue?_hexDigit (high_lt b), hexValue?_hexDigit (low_lt b)]
  simp only [hb]

theorem decodeChars_encodeByte (b : UInt8) (cs : List Char) :
    decodeChars (encodeByte b ++ cs) = b :: decodeChars cs := by
  unfold encodeByte
  split
  · rename_i hb
    have hc : Char.ofNat b.toNat ≠ '%' := by
      intro h
      have hu := isUnreserved_char hb
      rw [h] at hu
      revert hu
      decide
    rw [List.singleton_append, decodeChars_plain hc,
      Utf8.encode_singleton_ascii (lt_of_isUnreserved hb)]
    rfl
  · exact decodeChars_hexPair b cs

theorem decodeChars_encodeBytes (bytes : Bytes) : decodeChars (encodeBytes bytes) = bytes := by
  induction bytes with
  | nil => rfl
  | cons b bytes ih => rw [encodeBytes_cons, decodeChars_encodeByte, ih]

theorem IsUnreserved.toNat_lt {c : Char} (h : IsUnreserved c) : c.toNat < 128 := by
  rcases h with h | h
  · have h : (c.isUpper || c.isLower || c.isDigit) = true := h
    have hbound : c.val ≤ 122 := by
      rcases Bool.or_eq_true_iff.1 h with h | h
      · rcases Bool.or_eq_true_iff.1 h with h | h
        · have hz : c.val ≤ 90 := (of_decide_eq_true h).2
          exact UInt32.le_trans hz (by decide)
        · exact of_decide_eq_true (Bool.and_eq_true_iff.1 h).2
      · have hz : c.val ≤ 57 := of_decide_eq_true (Bool.and_eq_true_iff.1 h).2
        exact UInt32.le_trans hz (by decide)
    exact Nat.lt_of_le_of_lt (UInt32.le_iff_toNat_le.1 hbound) (by decide)
  · simp only [List.mem_cons, List.not_mem_nil, or_false] at h
    rcases h with rfl | rfl | rfl | rfl <;> decide

theorem encodeByte_of_unreserved {c : Char} (h : IsUnreserved c) :
    encodeByte (UInt8.ofNat c.toNat) = [c] := by
  have table : ∀ n < 128, IsUnreserved (Char.ofNat n) →
      encodeByte (UInt8.ofNat n) = [Char.ofNat n] := by
    decide +kernel
  have hc := table c.toNat h.toNat_lt
  rw [Char.ofNat_toNat] at hc
  exact hc h

/-! ### Texts -/

theorem escaped_encode (s : String) : Escaped (encode s).toList := by
  rw [encode, String.toList_ofList]
  exact escaped_encodeBytes _

theorem decode?_encode (s : String) : decode? (encode s) = some s := by
  rw [decode?, encode, String.toList_ofList, decodeChars_encodeBytes, Utf8.decode?_encode]

theorem encode_of_unreserved {s : String} (h : Unreserved s) : encode s = s := by
  have hs : Utf8.encode s = s.toList.map fun c => UInt8.ofNat c.toNat := by
    rw [← Utf8.encode_ofList_ascii fun c hc => (h c hc).toNat_lt, String.ofList_toList]
  have hcs : (s.toList.map fun c => UInt8.ofNat c.toNat).flatMap encodeByte = s.toList := by
    unfold Unreserved at h
    generalize s.toList = cs at h
    induction cs with
    | nil => rfl
    | cons c cs ih =>
      obtain ⟨hc, hcs⟩ := List.forall_mem_cons.1 h
      rw [List.map_cons, List.flatMap_cons, encodeByte_of_unreserved hc, ih hcs]
      rfl
  rw [encode, encodeBytes, hs, hcs, String.ofList_toList]

/-- No separator of a target stands in an encoded text. -/
theorem notMem_encode {c : Char} (hc : c ∈ ['/', '?', '#', '&', '=']) (s : String) :
    c ∉ (encode s).toList := by
  intro h
  have hmem := (escaped_encode s).mem h
  simp only [List.mem_cons, List.not_mem_nil, or_false] at hc
  rcases hc with rfl | rfl | rfl | rfl | rfl <;> exact absurd hmem (by decide)

/-! ### Queries -/

/-- A parameter, cut at its first equals sign. -/
def readParam (piece : String) : Option (String × String) :=
  (Text.splitFirst '=' piece).bind fun (key, value) => (decode? value).map fun v => (key, v)

def readParams (text : String) : Option (List (String × String)) :=
  (Text.split '&' text).mapM readParam

/-- The path and the parameters of a target, which is cut at its first question mark. -/
def splitTarget (target : String) : Option (String × List (String × String)) :=
  match Text.splitFirst '?' target with
  | none => some (target, [])
  | some (path, text) => (readParams text).map fun params => (path, params)

/-- A key that can stand in a query as it is. -/
def PlainKey (key : String) : Prop :=
  '&' ∉ key.toList ∧ '=' ∉ key.toList

theorem readParam_eq {key : String} (hk : PlainKey key) (value : String) :
    readParam (key ++ "=" ++ encode value) = some (key, value) := by
  have hcut : Text.splitFirst '=' (key ++ "=" ++ encode value) = some (key, encode value) := by
    rw [Text.splitFirst_eq_some_iff]
    exact ⟨by simp, hk.2⟩
  simp [readParam, hcut, decode?_encode]

theorem mapM_map_eq_some {α β : Type} {f : α → β} {g : β → Option α} {l : List α}
    (h : ∀ a ∈ l, g (f a) = some a) : (l.map f).mapM g = some l := by
  induction l with
  | nil => rfl
  | cons a l ih =>
    obtain ⟨ha, hl⟩ := List.forall_mem_cons.1 h
    rw [List.map_cons, List.mapM_cons, ha, ih hl]
    rfl

theorem readParams_eq {params : List (String × String)} (hk : ∀ p ∈ params, PlainKey p.1)
    (hne : params ≠ []) :
    readParams ("&".intercalate (params.map fun (k, v) => k ++ "=" ++ encode v)) = some params := by
  have hcut : Text.split '&' (Text.join "&" (params.map fun (k, v) => k ++ "=" ++ encode v)) =
      params.map fun (k, v) => k ++ "=" ++ encode v := by
    apply Text.split_join (by decide)
    · intro piece hp
      obtain ⟨⟨k, v⟩, hmem, rfl⟩ := List.mem_map.1 hp
      have hv := notMem_encode (c := '&') (by decide) v
      simpa [hv] using (hk _ hmem).1
    · simpa using hne
  rw [readParams, ← Text.join, hcut]
  apply mapM_map_eq_some
  rintro ⟨k, v⟩ hmem
  exact readParam_eq (hk _ hmem) v

/-- The parameters of a query are read back after any path without a question mark. -/
theorem splitTarget_query {path : String} {params : List (String × String)}
    (hpath : '?' ∉ path.toList) (hk : ∀ p ∈ params, PlainKey p.1) :
    splitTarget (path ++ query params) = some (path, params) := by
  by_cases hne : params = []
  · have hcut : Text.splitFirst '?' path = none := Text.splitFirst_eq_none_iff.2 hpath
    simp [splitTarget, hne, hcut]
  · have hcut : Text.splitFirst '?' (path ++ query params) =
        some (path, "&".intercalate (params.map fun (k, v) => k ++ "=" ++ encode v)) := by
      rw [Text.splitFirst_eq_some_iff]
      exact ⟨by simp [query, hne], hpath⟩
    rw [splitTarget, hcut]
    simp only [readParams_eq hk hne, Option.map_some]

end Percent
end ContainerBuild
