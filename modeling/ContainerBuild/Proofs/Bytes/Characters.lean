import ContainerBuild.Bytes

/-!
# Characters in bytes

Scanning finds a character exactly where its bytes stand. So the characters before the first ill-formed
piece, written out again, are a beginning of the bytes that were scanned.
-/

namespace ContainerBuild
namespace Utf8

theorem encode_ofList (cs : List Char) :
    encode (String.ofList cs) = cs.flatMap String.utf8EncodeChar := by
  simp [encode, List.utf8Encode]

theorem encode_ofList_ascii {cs : List Char} (h : ∀ c ∈ cs, c.toNat < 128) :
    encode (String.ofList cs) = cs.map fun c => UInt8.ofNat c.toNat := by
  rw [encode_ofList]
  induction cs with
  | nil => rfl
  | cons c cs ih =>
    obtain ⟨hc, hcs⟩ := List.forall_mem_cons.1 h
    have hv : c.val.toNat ≤ 127 := Nat.le_of_lt_succ hc
    rw [List.flatMap_cons, ih hcs, String.utf8EncodeChar, if_pos hv]
    rfl

/-! ### Bytes that follow -/

variable {lead x y z low high : UInt8} {b rest taken : Bytes} {c : Char} {count : Nat}

theorem takeFollowers_cons (count : Nat) (b : Bytes) (h : low ≤ x ∧ x ≤ high) :
    takeFollowers (count + 1) low high (x :: b) =
      (x :: (takeFollowers count 0x80 0xBF b).1, (takeFollowers count 0x80 0xBF b).2) := by
  rw [takeFollowers, if_pos (by simpa using h)]

theorem takeFollowers_append (h : ∀ x ∈ taken, 0x80 ≤ x ∧ x ≤ 0xBF) (rest : Bytes) :
    takeFollowers taken.length 0x80 0xBF (taken ++ rest) = (taken, rest) := by
  induction taken with
  | nil => rfl
  | cons x taken ih =>
    obtain ⟨hx, others⟩ := List.forall_mem_cons.1 h
    rw [List.cons_append, List.length_cons, takeFollowers_cons taken.length _ hx, ih others]

theorem of_takeFollowers (h : takeFollowers (count + 1) low high b = (taken, rest))
    (hl : taken.length = count + 1) : ∃ x b' taken', b = x :: b' ∧ (low ≤ x ∧ x ≤ high) ∧
      taken = x :: taken' ∧ takeFollowers count 0x80 0xBF b' = (taken', rest) ∧
        taken'.length = count := by
  cases b with
  | nil =>
    cases h
    cases hl
  | cons x b =>
    rw [takeFollowers] at h
    split at h
    · rename_i hx
      cases h
      exact ⟨x, b, _, rfl, by simpa using hx, rfl, rfl, Nat.succ.inj hl⟩
    · cases h
      cases hl

/-- The table of first bytes, by their numbers. -/
theorem followers_eq (lead : UInt8) : followers lead =
    if lead.toNat < 0xC2 then none
    else if lead.toNat < 0xE0 then some (1, 0x80, 0xBF)
    else if lead.toNat < 0xF0 then
      some (2, if lead.toNat = 0xE0 then 0xA0 else 0x80, if lead.toNat = 0xED then 0x9F else 0xBF)
    else if lead.toNat < 0xF5 then
      some (3, if lead.toNat = 0xF0 then 0x90 else 0x80, if lead.toNat = 0xF4 then 0x8F else 0xBF)
    else none := by
  have toNat (n : UInt8) : (lead == n) = (lead.toNat == n.toNat) := by
    rw [Bool.eq_iff_iff, beq_iff_eq, beq_iff_eq, UInt8.toNat_inj]
  simp only [followers, UInt8.lt_iff_toNat_lt, toNat, UInt8.reduceToNat, beq_iff_eq]
  grind

theorem nextChar_of_taken (hl : ¬lead < 0x80) (hf : followers lead = some (count, low, high))
    (ht : takeFollowers count low high b = (taken, rest)) (h : taken.length = count) :
    nextChar lead b = (some (assemble lead taken), rest) := by
  rw [nextChar, if_neg hl]
  simp only [hf, ht, if_pos h]

/-- The first byte bounds the one after it, and those after that are bounded by themselves. -/
theorem nextChar_of_followers (hl : ¬lead < 0x80)
    (hf : followers lead = some (count, low, high)) (first : low ≤ x ∧ x ≤ high)
    (others : ∀ y ∈ taken, 0x80 ≤ y ∧ y ≤ 0xBF) (hn : taken.length + 1 = count) (rest : Bytes) :
    nextChar lead (x :: (taken ++ rest)) = (some (assemble lead (x :: taken)), rest) := by
  subst hn
  have ht := takeFollowers_cons taken.length (taken ++ rest) first
  rw [takeFollowers_append others] at ht
  exact nextChar_of_taken hl hf ht rfl

theorem taken_of_nextChar (hl : ¬lead < 0x80) (hf : followers lead = some (count, low, high))
    (h : nextChar lead b = (some c, rest)) : ∃ taken,
      takeFollowers count low high b = (taken, rest) ∧ taken.length = count ∧
        c = assemble lead taken := by
  rw [nextChar, if_neg hl] at h
  simp only [hf] at h
  split at h
  · rename_i hc
    obtain ⟨hc', hr⟩ := Prod.mk.inj h
    exact ⟨_, Prod.ext rfl hr, hc, (Option.some.inj hc').symm⟩
  · cases h

/-! ### Characters -/

theorem toNat_ofNat_of_valid {n : Nat} (h : n.isValidChar) : (Char.ofNat n).toNat = n := by
  rw [Char.ofNat, dif_pos h]
  rfl

theorem eq_ofNat_iff {n : Nat} (h : n < 256) : x = UInt8.ofNat n ↔ x.toNat = n := by
  rw [← UInt8.toNat_inj, UInt8.toNat_ofNat', Nat.mod_eq_of_lt h]

theorem encodeChar_ofNat {n : Nat} (h : n.isValidChar) :
    String.utf8EncodeChar (Char.ofNat n) =
      if n ≤ 127 then [UInt8.ofNat n]
      else if n ≤ 2047 then [UInt8.ofNat (n / 64 % 32 + 192), UInt8.ofNat (n % 64 + 128)]
      else if n ≤ 65535 then [UInt8.ofNat (n / 4096 % 16 + 224), UInt8.ofNat (n / 64 % 64 + 128),
        UInt8.ofNat (n % 64 + 128)]
      else [UInt8.ofNat (n / 262144 % 8 + 240), UInt8.ofNat (n / 4096 % 64 + 128),
        UInt8.ofNat (n / 64 % 64 + 128), UInt8.ofNat (n % 64 + 128)] := by
  have hn : (Char.ofNat n).val.toNat = n := toNat_ofNat_of_valid h
  rw [String.utf8EncodeChar, hn]

theorem encode_singleton_ascii (h : x.toNat < 128) :
    encode (String.singleton (Char.ofNat x.toNat)) = [x] := by
  have hv : (Char.ofNat x.toNat).toNat = x.toNat :=
    toNat_ofNat_of_valid (Or.inl (Nat.lt_trans h (by decide)))
  rw [String.singleton_eq_ofList, encode_ofList_ascii, List.map_singleton, hv, UInt8.ofNat_toNat]
  intro c hc
  rw [List.mem_singleton.1 hc, hv]
  exact h

/-! A first byte and the bytes that may follow it are those of the character they make. -/

theorem encode_assemble_one (h : 0xC2 ≤ lead.toNat) (h' : lead.toNat < 0xE0)
    (hx : 0x80 ≤ x ∧ x ≤ 0xBF) : String.utf8EncodeChar (assemble lead [x]) = [lead, x] := by
  simp only [UInt8.le_iff_toNat_le, UInt8.reduceToNat] at hx
  change String.utf8EncodeChar (Char.ofNat (lead.toNat % 32 * 64 + x.toNat % 64)) = _
  rw [encodeChar_ofNat (.inl (by omega)), if_neg (by omega), if_pos (by omega),
    ← (eq_ofNat_iff (x := lead) (by omega)).2 (by omega),
    ← (eq_ofNat_iff (x := x) (by omega)).2 (by omega)]

theorem encode_assemble_two (h : 0xE0 ≤ lead.toNat) (h' : lead.toNat < 0xF0)
    (hx : (if lead.toNat = 0xE0 then 0xA0 else 0x80) ≤ x ∧
      x ≤ if lead.toNat = 0xED then 0x9F else 0xBF)
    (hy : 0x80 ≤ y ∧ y ≤ 0xBF) : String.utf8EncodeChar (assemble lead [x, y]) = [lead, x, y] := by
  simp only [UInt8.le_iff_toNat_le, UInt8.reduceToNat, apply_ite UInt8.toNat] at hx hy
  change String.utf8EncodeChar
    (Char.ofNat ((lead.toNat % 16 * 64 + x.toNat % 64) * 64 + y.toNat % 64)) = _
  have valid : ((lead.toNat % 16 * 64 + x.toNat % 64) * 64 + y.toNat % 64).isValidChar := by
    unfold Nat.isValidChar
    split at hx <;> split at hx <;> omega
  have least : 2048 ≤ (lead.toNat % 16 * 64 + x.toNat % 64) * 64 + y.toNat % 64 := by
    split at hx <;> split at hx <;> omega
  have bounds : 128 ≤ x.toNat ∧ x.toNat < 192 := by
    split at hx <;> split at hx <;> omega
  rw [encodeChar_ofNat valid, if_neg (by omega), if_neg (by omega), if_pos (by omega),
    ← (eq_ofNat_iff (x := lead) (by omega)).2 (by omega),
    ← (eq_ofNat_iff (x := x) (by omega)).2 (by omega),
    ← (eq_ofNat_iff (x := y) (by omega)).2 (by omega)]

theorem encode_assemble_three (h : 0xF0 ≤ lead.toNat) (h' : lead.toNat < 0xF5)
    (hx : (if lead.toNat = 0xF0 then 0x90 else 0x80) ≤ x ∧
      x ≤ if lead.toNat = 0xF4 then 0x8F else 0xBF)
    (hy : 0x80 ≤ y ∧ y ≤ 0xBF) (hz : 0x80 ≤ z ∧ z ≤ 0xBF) :
    String.utf8EncodeChar (assemble lead [x, y, z]) = [lead, x, y, z] := by
  simp only [UInt8.le_iff_toNat_le, UInt8.reduceToNat, apply_ite UInt8.toNat] at hx hy hz
  change String.utf8EncodeChar (Char.ofNat
    (((lead.toNat % 8 * 64 + x.toNat % 64) * 64 + y.toNat % 64) * 64 + z.toNat % 64)) = _
  have bounds : 128 ≤ x.toNat ∧ x.toNat < 192 := by
    split at hx <;> split at hx <;> omega
  have least : 65536 ≤
      ((lead.toNat % 8 * 64 + x.toNat % 64) * 64 + y.toNat % 64) * 64 + z.toNat % 64 := by
    split at hx <;> split at hx <;> omega
  have most : ((lead.toNat % 8 * 64 + x.toNat % 64) * 64 + y.toNat % 64) * 64 + z.toNat % 64 <
      1114112 := by
    split at hx <;> split at hx <;> omega
  rw [encodeChar_ofNat (.inr ⟨by omega, most⟩), if_neg (by omega), if_neg (by omega),
    if_neg (by omega), ← (eq_ofNat_iff (x := lead) (by omega)).2 (by omega),
    ← (eq_ofNat_iff (x := x) (by omega)).2 (by omega),
    ← (eq_ofNat_iff (x := y) (by omega)).2 (by omega),
    ← (eq_ofNat_iff (x := z) (by omega)).2 (by omega)]

/-- A character that scanning finds stands there in its bytes. -/
theorem eq_of_nextChar (h : nextChar lead b = (some c, rest)) :
    lead :: b = String.utf8EncodeChar c ++ rest := by
  by_cases hl : lead < 0x80
  · rw [nextChar, if_pos hl] at h
    obtain ⟨hc, rfl⟩ := Prod.mk.inj h
    obtain rfl := Option.some.inj hc
    have small : lead.toNat < 128 := UInt8.lt_iff_toNat_lt.1 hl
    rw [encodeChar_ofNat (.inl (by omega)), if_pos (by omega), UInt8.ofNat_toNat]
    rfl
  have table := followers_eq lead
  split at table
  · simp [nextChar, hl, table] at h
  split at table
  · obtain ⟨taken, ht, hn, rfl⟩ := taken_of_nextChar hl table h
    obtain ⟨x, b', taken, rfl, hx, rfl, ht, hn⟩ := of_takeFollowers ht hn
    obtain rfl := List.eq_nil_of_length_eq_zero hn
    obtain ⟨-, rfl⟩ := Prod.mk.inj ht
    rw [encode_assemble_one (by omega) (by omega) hx]
    rfl
  split at table
  · obtain ⟨taken, ht, hn, rfl⟩ := taken_of_nextChar hl table h
    obtain ⟨x, b', taken, rfl, hx, rfl, ht, hn⟩ := of_takeFollowers ht hn
    obtain ⟨y, b', taken, rfl, hy, rfl, ht, hn⟩ := of_takeFollowers ht hn
    obtain rfl := List.eq_nil_of_length_eq_zero hn
    obtain ⟨-, rfl⟩ := Prod.mk.inj ht
    rw [encode_assemble_two (by omega) (by omega) hx hy]
    rfl
  split at table
  · obtain ⟨taken, ht, hn, rfl⟩ := taken_of_nextChar hl table h
    obtain ⟨x, b', taken, rfl, hx, rfl, ht, hn⟩ := of_takeFollowers ht hn
    obtain ⟨y, b', taken, rfl, hy, rfl, ht, hn⟩ := of_takeFollowers ht hn
    obtain ⟨z, b', taken, rfl, hz, rfl, ht, hn⟩ := of_takeFollowers ht hn
    obtain rfl := List.eq_nil_of_length_eq_zero hn
    obtain ⟨-, rfl⟩ := Prod.mk.inj ht
    rw [encode_assemble_three (by omega) (by omega) hx hy hz]
    rfl
  · simp [nextChar, hl, table] at h

theorem exists_follower (n : Nat) : ∃ x, UInt8.ofNat (n % 64 + 128) = x ∧
    x.toNat = n % 64 + 128 ∧ 0x80 ≤ x ∧ x ≤ 0xBF := by
  have hn := (eq_ofNat_iff (n := n % 64 + 128) (by omega)).1 rfl
  refine ⟨_, rfl, hn, ?_⟩
  simp only [UInt8.le_iff_toNat_le, UInt8.reduceToNat, hn]
  omega

theorem ofNat_eq_of_eq {n : Nat} (h : n = c.toNat) : Char.ofNat n = c := by
  rw [h, Char.ofNat_toNat]

theorem not_ascii {n k : Nat} (h : lead.toNat = n + k) (hk : 128 ≤ k) : ¬lead < 0x80 := by
  rw [UInt8.lt_iff_toNat_lt, h]
  exact Nat.not_lt_of_le (Nat.le_trans hk (Nat.le_add_left k n))

theorem nextChar_one (hl : lead.toNat = c.toNat / 64 % 32 + 192) (hx : x.toNat = c.toNat % 64 + 128)
    (hx' : 0x80 ≤ x ∧ x ≤ 0xBF) (least : 128 ≤ c.toNat) (most : c.toNat < 2048) (rest : Bytes) :
    nextChar lead (x :: rest) = (some c, rest) := by
  have table : followers lead = some (1, 0x80, 0xBF) := by
    rw [followers_eq, if_neg (by omega), if_pos (by omega)]
  have number : lead.toNat % 32 * 64 + x.toNat % 64 = c.toNat := by omega
  have char : assemble lead [x] = c := ofNat_eq_of_eq number
  rw [← char]
  exact nextChar_of_followers (not_ascii hl (by decide)) table hx' (List.forall_mem_nil _) rfl
    rest

theorem nextChar_two (hl : lead.toNat = c.toNat / 4096 % 16 + 224)
    (hy : y.toNat = c.toNat / 64 % 64 + 128) (hx : x.toNat = c.toNat % 64 + 128)
    (hx' : 0x80 ≤ x ∧ x ≤ 0xBF) (least : 2048 ≤ c.toNat) (most : c.toNat < 65536) (rest : Bytes) :
    nextChar lead (y :: x :: rest) = (some c, rest) := by
  have valid : c.toNat.isValidChar := c.valid
  unfold Nat.isValidChar at valid
  have table := followers_eq lead
  rw [if_neg (by omega), if_neg (by omega), if_pos (by omega)] at table
  -- The lead bounds the first follower, lest the number could do with less or is a surrogate.
  have first : (if lead.toNat = 0xE0 then 0xA0 else 0x80) ≤ y ∧
      y ≤ if lead.toNat = 0xED then 0x9F else 0xBF := by
    simp only [UInt8.le_iff_toNat_le, UInt8.reduceToNat, apply_ite UInt8.toNat]
    split <;> split <;> omega
  have number : (lead.toNat % 16 * 64 + y.toNat % 64) * 64 + x.toNat % 64 = c.toNat := by omega
  have char : assemble lead [y, x] = c := ofNat_eq_of_eq number
  rw [← char]
  exact nextChar_of_followers (not_ascii hl (by decide)) table first
    (List.forall_mem_singleton.2 hx') rfl rest

theorem nextChar_three (hl : lead.toNat = c.toNat / 262144 % 8 + 240)
    (hz : z.toNat = c.toNat / 4096 % 64 + 128) (hy : y.toNat = c.toNat / 64 % 64 + 128)
    (hx : x.toNat = c.toNat % 64 + 128) (hy' : 0x80 ≤ y ∧ y ≤ 0xBF) (hx' : 0x80 ≤ x ∧ x ≤ 0xBF)
    (least : 65536 ≤ c.toNat) (rest : Bytes) :
    nextChar lead (z :: y :: x :: rest) = (some c, rest) := by
  have valid : c.toNat.isValidChar := c.valid
  unfold Nat.isValidChar at valid
  have table := followers_eq lead
  rw [if_neg (by omega), if_neg (by omega), if_neg (by omega), if_pos (by omega)] at table
  have first : (if lead.toNat = 0xF0 then 0x90 else 0x80) ≤ z ∧
      z ≤ if lead.toNat = 0xF4 then 0x8F else 0xBF := by
    simp only [UInt8.le_iff_toNat_le, UInt8.reduceToNat, apply_ite UInt8.toNat]
    split <;> split <;> omega
  have number : ((lead.toNat % 8 * 64 + z.toNat % 64) * 64 + y.toNat % 64) * 64 + x.toNat % 64 =
      c.toNat := by omega
  have char : assemble lead [z, y, x] = c := ofNat_eq_of_eq number
  rw [← char]
  exact nextChar_of_followers (not_ascii hl (by decide)) table first
    (List.forall_mem_cons.2 ⟨hy', List.forall_mem_singleton.2 hx'⟩) rfl rest

theorem nextChar_of_encode (h : String.utf8EncodeChar c = lead :: b) (rest : Bytes) :
    nextChar lead (b ++ rest) = (some c, rest) := by
  obtain ⟨x, ex, hx, hx'⟩ := exists_follower c.toNat
  obtain ⟨y, ey, hy, hy'⟩ := exists_follower (c.toNat / 64)
  obtain ⟨z, ez, hz, hz'⟩ := exists_follower (c.toNat / 4096)
  rw [← Char.ofNat_toNat c, encodeChar_ofNat (n := c.toNat) c.valid, ex, ey, ez] at h
  split at h
  · obtain ⟨hl, rfl⟩ := List.cons.inj h
    rw [eq_comm, eq_ofNat_iff (by omega)] at hl
    have small : lead < 0x80 := UInt8.lt_iff_toNat_lt.2 (by rw [hl]; exact Nat.lt_succ_of_le ‹_›)
    rw [nextChar, if_pos small, ofNat_eq_of_eq hl]
    rfl
  split at h
  · obtain ⟨hl, rfl⟩ := List.cons.inj h
    rw [eq_comm, eq_ofNat_iff (by omega)] at hl
    exact nextChar_one hl hx hx' (by omega) (by omega) rest
  split at h
  · obtain ⟨hl, rfl⟩ := List.cons.inj h
    rw [eq_comm, eq_ofNat_iff (by omega)] at hl
    exact nextChar_two hl hy hx hx' (by omega) (by omega) rest
  · obtain ⟨hl, rfl⟩ := List.cons.inj h
    rw [eq_comm, eq_ofNat_iff (by omega)] at hl
    exact nextChar_three hl hz hy hx hy' hx' (by omega) rest

/-! ### Well-formed beginnings -/

/-- The text of the bytes before the first ill-formed piece. -/
def wellFormed (b : Bytes) : List Char :=
  ((scan b).takeWhile Option.isSome).filterMap id

/-- What is well formed at the start, written out again, is a beginning of the bytes. -/
theorem encode_wellFormed_isPrefix (b : Bytes) : encode (String.ofList (wellFormed b)) <+: b := by
  rw [encode_ofList]
  induction b using scan.induct with
  | case1 => rw [wellFormed, scan]; exact List.nil_prefix
  | case2 lead b ih =>
    rw [wellFormed, scan, List.takeWhile_cons]
    rcases hn : nextChar lead b with ⟨_ | c, rest⟩
    · exact List.nil_prefix
    · rw [hn] at ih
      rw [eq_of_nextChar hn]
      exact (List.prefix_append_right_inj _).2 ih

theorem wellFormed_ne_nil (c : Char) (rest : Bytes) :
    wellFormed (String.utf8EncodeChar c ++ rest) ≠ [] := by
  cases hb : String.utf8EncodeChar c with
  | nil => exact absurd hb (String.utf8EncodeChar_ne_nil)
  | cons lead b =>
    rw [List.cons_append, wellFormed, scan, nextChar_of_encode hb]
    exact List.cons_ne_nil _ _

/-! ### Texts -/

/-- Scanning finds the characters of a text, whatever bytes stand after it. -/
theorem scan_encode_append (cs : List Char) (b : Bytes) :
    scan (encode (String.ofList cs) ++ b) = cs.map some ++ scan b := by
  rw [encode_ofList]
  induction cs with
  | nil => rfl
  | cons c cs ih =>
    obtain ⟨lead, more, hc⟩ := List.exists_cons_of_ne_nil (String.utf8EncodeChar_ne_nil (c := c))
    rw [List.flatMap_cons, hc, List.cons_append, List.cons_append, List.append_assoc, scan,
      nextChar_of_encode hc, ih, List.map_cons, List.cons_append]

theorem scan_encode (cs : List Char) : scan (encode (String.ofList cs)) = cs.map some := by
  have h := scan_encode_append cs []
  rw [List.append_nil] at h
  rw [h, scan, List.append_nil]

theorem decodeLossy_encode (s : String) : decodeLossy (encode s) = s := by
  rw [decodeLossy, ← String.ofList_toList (s := s), scan_encode, List.map_map]
  exact congrArg String.ofList (List.map_id _)

end Utf8
end ContainerBuild
