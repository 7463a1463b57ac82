import ContainerBuild.Proofs.Bytes.Characters

/-!
# Texts cut at a byte

A text can be cut at a place in its bytes unless that is inside a character. Cut where it can be, it
gives the longest of its beginnings that end no later.
-/

namespace ContainerBuild
namespace Utf8

variable {b : Bytes} {s t : String} {cs ds shown : List Char} {room : Nat}

def width : List Char → Nat
  | [] => 0
  | c :: cs => c.utf8Size + width cs

theorem width_append (cs ds : List Char) : width (cs ++ ds) = width cs + width ds := by
  induction cs with
  | nil => simp [width]
  | cons c cs ih => simp [width, ih, Nat.add_assoc]

theorem length_encode_ofList (cs : List Char) : (encode (String.ofList cs)).length = width cs := by
  rw [encode_ofList]
  induction cs with
  | nil => rfl
  | cons c cs ih => simp [width, ih]

theorem width_le_of_isPrefix (h : cs <+: ds) : width cs ≤ width ds := by
  obtain ⟨rest, rfl⟩ := h
  simp [width_append]

theorem eq_nil_of_width (h : width cs = 0) : cs = [] := by
  cases cs with
  | nil => rfl
  | cons c cs =>
    have positive := c.utf8Size_pos
    rw [width] at h
    omega

theorem decode?_eq_some_iff : decode? b = some s ↔ b = encode s := by
  constructor
  · intro h
    unfold decode? String.fromUTF8? at h
    split at h
    · obtain rfl := Option.some.inj h
      simp [encode, String.fromUTF8]
    · cases h
  · rintro rfl
    exact decode?_encode s

/-- If the bytes of a text begin with those of another, then the text begins with the other. -/
theorem isPrefix_of_encode (h : encode (String.ofList cs) ++ b = encode (String.ofList ds)) :
    cs <+: ds := by
  have hscan := congrArg scan h
  rw [scan_encode_append, scan_encode] at hscan
  obtain ⟨first, rest, rfl, hfirst, -⟩ := List.map_eq_append_iff.1 hscan.symm
  obtain rfl : first = cs := (List.map_inj_right fun _ _ => Option.some.inj).1 hfirst
  exact List.prefix_append first rest

/-! ### Places -/

/-- A place in the bytes of some characters that is inside one of them. -/
def Splits (room : Nat) (cs : List Char) : Prop :=
  ∃ before c after, cs = before ++ c :: after ∧ width before < room ∧
    room < width before + c.utf8Size

/-- The longest beginning of some characters that has at most so many bytes. -/
structure Longest (room : Nat) (cs shown : List Char) : Prop where
  begins : shown <+: cs
  fits : width shown ≤ room
  longest : ∀ ds, ds <+: cs → width ds ≤ room → ds <+: shown

theorem Longest.unique {other : List Char} (h : Longest room cs shown) (h' : Longest room cs other) :
    shown = other :=
  (h'.longest shown h.begins h.fits).eq_of_length_le
    (h.longest other h'.begins h'.fits).length_le

theorem longest_nil (room : Nat) : Longest room [] [] :=
  ⟨List.prefix_rfl, Nat.zero_le room, fun _ h _ => h⟩

theorem longest_nil_of_lt {c : Char} (h : room < c.utf8Size) : Longest room (c :: cs) [] := by
  refine ⟨List.nil_prefix, Nat.zero_le room, fun ds begins fits => ?_⟩
  cases ds with
  | nil => exact List.prefix_rfl
  | cons d ds =>
    obtain rfl := (List.cons_prefix_cons.1 begins).1
    rw [width] at fits
    omega

theorem Longest.cons {c : Char} (h : Longest (room - c.utf8Size) cs shown) (fits : c.utf8Size ≤ room) :
    Longest room (c :: cs) (c :: shown) := by
  refine ⟨List.cons_prefix_cons.2 ⟨rfl, h.begins⟩, ?_, fun ds begins small => ?_⟩
  · have hshown := h.fits
    rw [width]
    omega
  · cases ds with
    | nil => exact List.nil_prefix
    | cons d ds =>
      obtain ⟨rfl, hds⟩ := List.cons_prefix_cons.1 begins
      rw [width] at small
      exact List.cons_prefix_cons.2 ⟨rfl, h.longest ds hds (by omega)⟩

theorem exists_longest (room : Nat) (cs : List Char) : ∃ shown, Longest room cs shown := by
  induction cs generalizing room with
  | nil => exact ⟨[], longest_nil room⟩
  | cons c cs ih =>
    by_cases fits : c.utf8Size ≤ room
    · obtain ⟨shown, h⟩ := ih (room - c.utf8Size)
      exact ⟨c :: shown, h.cons fits⟩
    · exact ⟨[], longest_nil_of_lt (Nat.lt_of_not_le fits)⟩

/-- The longest beginning ends where it should, unless the text is shorter or a character is split. -/
theorem Longest.splits_iff (h : Longest room cs shown) :
    Splits room cs ↔ width shown < room ∧ room < width cs := by
  obtain ⟨⟨rest, rfl⟩, fits, longest⟩ := h
  constructor
  · rintro ⟨before, c, after, hcs, low, high⟩
    have hbefore : before <+: shown :=
      longest before ⟨c :: after, hcs.symm⟩ (Nat.le_of_lt low)
    obtain ⟨more, rfl⟩ := hbefore
    rw [List.append_assoc, List.append_cancel_left_eq] at hcs
    have hmore : more = [] := by
      cases more with
      | nil => rfl
      | cons d more =>
        obtain rfl := (List.cons.inj hcs).1
        simp only [width_append, width] at fits
        omega
    subst hmore
    rw [List.nil_append] at hcs
    simp only [List.append_nil, hcs, width_append, width]
    omega
  · rintro ⟨low, high⟩
    cases rest with
    | nil =>
      rw [List.append_nil] at high
      omega
    | cons c after =>
      refine ⟨shown, c, after, rfl, low, Nat.lt_of_not_le fun small => ?_⟩
      have hmore := longest (shown ++ [c]) ⟨after, by simp⟩ (by simpa [width_append, width] using small)
      have hlen := hmore.length_le
      rw [List.length_append, List.length_singleton] at hlen
      omega

theorem longest_of_take (h : (encode (String.ofList cs)).take room = encode (String.ofList shown)) :
    Longest room cs shown ∧ ¬(width shown < room ∧ room < width cs) := by
  have begins : shown <+: cs :=
    isPrefix_of_encode (b := (encode (String.ofList cs)).drop room) (by rw [← h, List.take_append_drop])
  have hwidth := congrArg List.length h
  rw [List.length_take, length_encode_ofList, length_encode_ofList] at hwidth
  refine ⟨⟨begins, by omega, ?_⟩, by omega⟩
  intro ds hds fits
  rcases List.prefix_or_prefix_of_prefix hds begins with shorter | ⟨more, rfl⟩
  · exact shorter
  · have hle := width_le_of_isPrefix hds
    rw [width_append] at fits hle
    have hmore : width more = 0 := by omega
    simp [eq_nil_of_width hmore]

theorem Longest.take (h : Longest room cs shown) (whole : ¬(width shown < room ∧ room < width cs)) :
    (encode (String.ofList cs)).take room = encode (String.ofList shown) := by
  obtain ⟨⟨rest, rfl⟩, fits, longest⟩ := h
  by_cases full : width shown = room
  · rw [String.ofList_append, encode_append]
    exact List.take_left' (by rw [length_encode_ofList, full])
  · have short : width (shown ++ rest) ≤ room := by omega
    have all := longest _ List.prefix_rfl short
    have same : shown = shown ++ rest := (List.prefix_append shown rest).eq_of_length_le all.length_le
    rw [← same] at short ⊢
    exact List.take_of_length_le (by rwa [length_encode_ofList])

/-- The bytes before a place are a text unless a character is split, and then they are those of the longest
beginning. -/
theorem decode?_take_eq_some_iff :
    decode? ((encode (String.ofList cs)).take room) = some (String.ofList shown) ↔
      Longest room cs shown ∧ ¬Splits room cs := by
  rw [decode?_eq_some_iff]
  constructor
  · intro h
    obtain ⟨longest, whole⟩ := longest_of_take h
    rw [longest.splits_iff]
    exact ⟨longest, whole⟩
  · intro h
    obtain ⟨longest, whole⟩ := h
    rw [longest.splits_iff] at whole
    exact longest.take whole

theorem decode?_take_eq_none_iff :
    decode? ((encode (String.ofList cs)).take room) = none ↔ Splits room cs := by
  obtain ⟨shown, h⟩ := exists_longest room cs
  by_cases hsplit : Splits room cs
  · refine iff_of_true (Option.eq_none_iff_forall_ne_some.2 fun t ht => ?_) hsplit
    rw [← String.ofList_toList (s := t), decode?_take_eq_some_iff] at ht
    exact ht.2 hsplit
  · rw [decode?_take_eq_some_iff.2 ⟨h, hsplit⟩]
    exact iff_of_false nofun hsplit

/-! ### Pieces -/

def cutAt? (place : Nat) (s : String) : Option (String × String) := do
  if (encode s).length < place then none
  else
    let first ← decode? ((encode s).take place)
    let rest ← decode? ((encode s).drop place)
    return (first, rest)

theorem cutAt?_width (cs ds : List Char) :
    cutAt? (width cs) (String.ofList (cs ++ ds)) = some (String.ofList cs, String.ofList ds) := by
  have hlen : (encode (String.ofList cs)).length = width cs := length_encode_ofList cs
  have inside : ¬(encode (String.ofList (cs ++ ds))).length < width cs := by
    rw [length_encode_ofList, width_append]
    omega
  unfold cutAt?
  rw [if_neg inside, String.ofList_append, encode_append, List.take_left' hlen,
    List.drop_left' hlen, decode?_encode, decode?_encode]
  rfl

end Utf8
end ContainerBuild
