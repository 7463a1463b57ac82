import ContainerBuild.Proofs.Bytes.Characters
import ContainerBuild.Proofs.FilePath.Beginnings
import ContainerBuild.Tar.Writer

/-!
# Names and links in their fields

A name that fits into its field stands there as it is. A longer one goes before its member as a whole,
and the field takes the beginning of it: cut anywhere, also in the middle of a step, it is still a name
that can be written. The field of a link has the steps of its target, as many as fit.
-/

namespace ContainerBuild
namespace Tar

open FilePath

variable {w more : Bytes}

theorem append_eq (h : 0 ∉ more) (w : Bytes) : append w more =
    if w.length + more.length ≤ nameWidth then .ok (w ++ more) else .error .tooLong := by
  have hz : more.contains 0 = false := by simpa using h
  rw [append, hz]
  by_cases hl : w.length + more.length ≤ nameWidth
  · rw [if_neg (Nat.not_lt.2 hl), if_pos hl]
    rfl
  · rw [if_pos (Nat.not_le.1 hl), if_neg hl]

theorem append_slash (w : Bytes) : append w [slash] =
    if w.length + 1 ≤ nameWidth then .ok (w ++ [slash]) else .error .tooLong :=
  append_eq (by decide) w

/-! ### Names that fit -/

def joined (w n : Bytes) : Bytes :=
  if w.isEmpty then n else w ++ slash :: n

theorem joined_of_ne_nil (hw : w ≠ []) (n : Bytes) : joined w n = w ++ slash :: n := by
  rw [joined, if_neg (by simpa using hw)]

theorem joined_ne_nil {n : Bytes} (hn : n ≠ []) (w : Bytes) : joined w n ≠ [] := by
  unfold joined
  split
  · exact hn
  · simp

variable {cut alone : Bool} {n : Bytes} {cs : List Component} {p : List Name}

/-- A step is added if there is room for it and for the slash before it. -/
theorem step_eq (h : 0 ∉ n) (w : Bytes) : appendSteps.step cut alone w n cs =
    if (joined w n).length ≤ nameWidth then appendSteps cut alone (joined w n) cs
    else .error .tooLong := by
  rw [appendSteps.step]
  by_cases hw : w = []
  · subst hw
    have hj : joined [] n = n := rfl
    by_cases hn : n.length ≤ nameWidth
    · simp only [List.isEmpty_nil, if_true, bind, Except.bind, append_eq h, List.length_nil,
        Nat.zero_add, List.nil_append, hj, if_pos hn]
    · simp only [List.isEmpty_nil, if_true, bind, Except.bind, append_eq h, List.length_nil,
        Nat.zero_add, hj, if_neg hn]
  · have he : w.isEmpty = false := by simpa using hw
    have hj := joined_of_ne_nil hw n
    have hl : (w ++ slash :: n).length = w.length + 1 + n.length := by
      rw [List.length_append, List.length_cons]
      omega
    have assoc : w ++ [slash] ++ n = w ++ slash :: n := by simp
    rw [hj, hl]
    by_cases hs : w.length + 1 ≤ nameWidth
    · by_cases hn : w.length + 1 + n.length ≤ nameWidth
      · simp only [he, append_slash, append_eq h, bind, Except.bind, Bool.false_eq_true, if_false,
          if_pos hs, List.length_append, List.length_singleton, if_pos hn, assoc]
      · simp only [he, append_slash, append_eq h, bind, Except.bind, Bool.false_eq_true, if_false,
          if_pos hs, List.length_append, List.length_singleton, if_neg hn]
    · have hn : ¬w.length + 1 + n.length ≤ nameWidth := by omega
      simp only [he, append_slash, bind, Except.bind, Bool.false_eq_true, if_false, if_neg hs,
        if_neg hn]

theorem appendSteps_names (hp : ∀ n ∈ p, IsPiece n ∧ 0 ∉ n) (hw : w ≠ [])
    (hl : w.length ≤ nameWidth) : appendSteps cut alone w (p.map .name) =
      if (w ++ written (p.map .name)).length ≤ nameWidth then .ok (w ++ written (p.map .name))
      else .error .tooLong := by
  induction p generalizing w with
  | nil =>
    have all : w ++ written ([].map .name) = w := by simp [written]
    rw [all, if_pos hl, List.map_nil, appendSteps]
  | cons n p ih =>
    obtain ⟨⟨piece, hn⟩, hp⟩ := List.forall_mem_cons.1 hp
    have all : w ++ written ((n :: p).map .name) = joined w n ++ written (p.map .name) := by
      rw [joined_of_ne_nil hw]
      simp [written, Component.bytes]
    rw [List.map_cons, appendSteps, step_eq hn, ← List.map_cons, all]
    split
    · rename_i hj
      exact ih hp (joined_ne_nil piece.nonempty w) hj
    · rename_i hj
      rw [List.length_append, if_neg (by omega)]

theorem nameField_intercalate (hp : ∀ n ∈ p, IsName n ∧ 0 ∉ n) (hne : p ≠ []) :
    nameField cut ([slash].intercalate p) =
      if ([slash].intercalate p).length ≤ nameWidth then .ok ([slash].intercalate p)
      else .error .tooLong := by
  obtain ⟨n, p, rfl⟩ := List.exists_cons_of_ne_nil hne
  have pieces : ∀ m ∈ n :: p, IsPiece m := fun m hm => (hp m hm).1.toIsPiece
  obtain ⟨⟨name, zero⟩, hp'⟩ := List.forall_mem_cons.1 hp
  have last : (([slash].intercalate (n :: p)).getLast? == some slash) = false := by
    simpa using getLast?_intercalate pieces
  have nonempty : ([slash].intercalate (n :: p)).isEmpty = false := by
    simpa using intercalate_ne_nil pieces hne
  have fill (alone : Bool) : appendSteps cut alone [] ((n :: p).map .name) =
      if ([slash].intercalate (n :: p)).length ≤ nameWidth then .ok ([slash].intercalate (n :: p))
      else .error .tooLong := by
    have first : joined [] n = n := rfl
    rw [List.map_cons, appendSteps, step_eq zero, first, intercalate_cons]
    split
    · rename_i hn
      exact appendSteps_names (fun n hn => ⟨(hp' n hn).1.toIsPiece, (hp' n hn).2⟩) name.nonempty hn
    · rename_i hn
      rw [List.length_append, if_neg (by omega)]
  rw [nameField, components_intercalate fun n hn => (hp n hn).1]
  simp only [fill, last, Bool.false_eq_true, if_false]
  split <;> simp [bind, Except.bind, nonempty, pure, Except.pure]

/-! ### Names that are cut -/

/-- The room that a path takes as far as it is written, with a slash after it. -/
def extent (w : Bytes) : Nat := if w.isEmpty then 0 else w.length + 1

theorem extent_joined {n : Bytes} (hn : n ≠ []) (w : Bytes) :
    extent (joined w n) = extent w + (n.length + 1) := by
  have he : extent (joined w n) = (joined w n).length + 1 :=
    if_neg (by simpa using joined_ne_nil hn w)
  rw [he]
  by_cases hw : w = []
  · subst hw
    simp [joined, extent]
  · rw [joined_of_ne_nil hw, extent, if_neg (by simpa using hw), List.length_append,
      List.length_cons]
    omega

/-- Steps that may end with one upwards are written if there is room for all of them. -/
theorem exists_appendSteps (alone : Bool) (hs : ∀ c ∈ cs, c.IsStep ∧ 0 ∉ c.bytes)
    (hu : ∀ c ∈ cs.dropLast, c ≠ .up)
    (room : extent w + breadth (cs.map Component.bytes) ≤ nameWidth + 1) :
    ∃ w', appendSteps true alone w cs = .ok w' ∧
      extent w' = extent w + breadth (cs.map Component.bytes) := by
  induction cs generalizing w with
  | nil => exact ⟨w, by rw [appendSteps], rfl⟩
  | cons c cs ih =>
    obtain ⟨⟨hc, zero⟩, hs⟩ := List.forall_mem_cons.1 hs
    have piece := hc.isPiece.nonempty
    have more : extent (joined w c.bytes) + breadth (cs.map Component.bytes) =
        extent w + breadth ((c :: cs).map Component.bytes) := by
      rw [extent_joined piece]
      simp only [List.map_cons, breadth_cons]
      omega
    have fits : (joined w c.bytes).length ≤ nameWidth := by
      have he : extent (joined w c.bytes) = (joined w c.bytes).length + 1 :=
        if_neg (by simpa using joined_ne_nil piece w)
      omega
    have step : appendSteps true alone w (c :: cs) = appendSteps.step true alone w c.bytes cs := by
      cases c with
      | root => exact hc.elim
      | here => exact hc.elim
      | name n => rw [appendSteps, Component.bytes]
      | up =>
        -- A step upwards is the last one.
        cases cs with
        | nil => rw [appendSteps]; rfl
        | cons c' cs => exact absurd rfl (hu .up (by simp))
    have hu' : ∀ c ∈ cs.dropLast, c ≠ .up := by
      intro c' hc'
      cases cs with
      | nil => cases hc'
      | cons first rest => exact hu c' (List.mem_cons_of_mem _ hc')
    rw [step, step_eq zero, if_pos fits, ← more]
    exact ih hs hu' (by omega)

theorem extent_of_ne_nil (hw : w ≠ []) : extent w = w.length + 1 :=
  if_neg (by simpa using hw)

/-- A field takes the steps that are written, and there is room for a slash at the end too. -/
theorem exists_nameField_of_steps {field : Bytes} (hl : w.length ≤ nameWidth) (hne : field ≠ [])
    (room : extent field ≤ breadth (pieces w))
    (h : appendSteps cut ((components w).length == 1) [] (components w) = .ok field) :
    ∃ field, nameField cut w = .ok field ∧ field.length ≤ nameWidth := by
  have he : field.isEmpty = false := by simpa using hne
  have steps : nameField cut w =
      if w.getLast? == some slash then append field [slash] else .ok field := by
    rw [nameField]
    simp only [h, bind, Except.bind, he, Bool.false_eq_true, if_false]
    rfl
  rw [extent_of_ne_nil hne] at room
  rw [steps]
  split
  · rename_i last
    obtain ⟨b, rfl⟩ := List.getLast?_eq_some_iff.1 (by simpa using last)
    have same : pieces (b ++ [slash]) = pieces b := by
      rw [pieces_append]
      exact List.append_nil _
    rw [same] at room
    have := breadth_pieces_le b
    rw [List.length_append, List.length_singleton] at hl
    have fits : field.length + 1 ≤ nameWidth := by omega
    exact ⟨_, by rw [append_slash, if_pos fits], by simpa using fits⟩
  · have := breadth_pieces_le w
    exact ⟨field, rfl, by omega⟩

theorem exists_nameField_here (hl : w.length ≤ nameWidth) (hp : pieces w = [dot])
    (hc : components w = [.here]) :
    ∃ field, nameField true w = .ok field ∧ field.length ≤ nameWidth := by
  have step : appendSteps true ((components w).length == 1) [] (components w) = .ok dot := by
    rw [hc]
    change appendSteps true true [] [.here] = .ok dot
    rw [appendSteps, if_pos rfl, step_eq (by decide), if_pos (by decide), appendSteps]
    rfl
  refine exists_nameField_of_steps hl (by decide) ?_ step
  rw [hp]
  decide

theorem exists_nameField_names (hl : w.length ≤ nameWidth) (hw : w ≠ []) (zero : 0 ∉ w)
    (inner : ∀ n ∈ (pieces w).dropLast, IsName n) (hc : components w = steps (pieces w)) :
    ∃ field, nameField true w = .ok field ∧ field.length ≤ nameWidth := by
  have steps_ok : ∀ c ∈ steps (pieces w), c.IsStep ∧ 0 ∉ c.bytes := by
    intro c hc
    refine ⟨isStep_of_mem_steps (fun n hn => isPiece_of_mem_pieces hn) hc, ?_⟩
    obtain ⟨n, hn, rfl⟩ := List.mem_map.1 hc
    rw [bytes_ofPiece]
    have mem : n ∈ pieces w := (List.mem_filter.1 hn).1
    exact fun h0 => zero (Bytes.mem_of_mem_split (List.mem_filter.1 mem).1 h0)
  have room := breadth_steps_le (pieces w)
  have := breadth_pieces_le w
  obtain ⟨field, hf, he⟩ := exists_appendSteps ((components w).length == 1) (w := [])
    steps_ok (fun c => ne_up_of_mem_dropLast inner) (by rw [extent]; simp; omega)
  refine exists_nameField_of_steps hl ?_ (by rw [he]; simpa [extent] using room) (by rw [← hf, hc])
  rintro rfl
  obtain ⟨c, cs, hcs⟩ := List.exists_cons_of_ne_nil (hc ▸ components_ne_nil hw)
  simp [hcs, extent] at he
  omega

theorem exists_nameField_cut (hp : ∀ n ∈ p, IsName n) (zero : 0 ∉ w)
    (h : w <+: [slash].intercalate p) (hw : w ≠ []) (hl : w.length ≤ nameWidth) :
    ∃ field, nameField true w = .ok field ∧ field.length ≤ nameWidth := by
  have relative : isAbsolute w = false := by
    obtain ⟨rest, hr⟩ := h
    cases p with
    | nil => exact absurd (List.append_eq_nil_iff.1 hr).1 hw
    | cons n p =>
      obtain ⟨hn, -⟩ := List.forall_mem_cons.1 hp
      rw [intercalate_cons] at hr
      rw [← isAbsolute_append hw rest, hr, isAbsolute_append hn.nonempty,
        isAbsolute_of_isPiece hn.toIsPiece]
  have inner : ∀ n ∈ (pieces w).dropLast, IsName n := fun n hn => isName_of_mem_dropLast hp h hn
  obtain ⟨first, rest, hpieces⟩ := List.exists_cons_of_ne_nil (pieces_ne_nil hw relative)
  have hc := components_eq w
  rw [relative, hpieces] at hc
  simp only [Bool.false_eq_true, if_false] at hc
  split at hc
  · -- A single dot can only be all of the beginning.
    rename_i hd
    obtain rfl : rest = [] := by
      cases rest with
      | nil => rfl
      | cons second others =>
        rw [hpieces] at inner
        exact absurd hd (inner first (by simp)).ne_dot
    exact exists_nameField_here hl (hd ▸ hpieces) hc
  · rw [← hpieces] at hc
    exact exists_nameField_names hl hw zero inner hc

theorem cutName_isPrefix (name : Bytes) : cutName name <+: name.take nameWidth :=
  Utf8.encode_wellFormed_isPrefix _

/-- Text is cut after its first character at the earliest. -/
theorem cutName_ne_nil {s : String} (h : Utf8.encode s ≠ []) : cutName (Utf8.encode s) ≠ [] := by
  obtain ⟨cs, rfl⟩ : ∃ cs, s = String.ofList cs := ⟨s.toList, by simp⟩
  cases cs with
  | nil => exact absurd rfl h
  | cons c cs =>
    have short : (String.utf8EncodeChar c).length ≤ nameWidth := by
      rw [String.length_utf8EncodeChar]
      exact Nat.le_trans c.utf8Size_le_four (by decide)
    have start : (Utf8.encode (String.ofList (c :: cs))).take nameWidth = String.utf8EncodeChar c ++
        (cs.flatMap String.utf8EncodeChar).take (nameWidth - (String.utf8EncodeChar c).length) := by
      rw [Utf8.encode_ofList, List.flatMap_cons, List.take_append, List.take_of_length_le short]
    have whole := Utf8.wellFormed_ne_nil c
      ((cs.flatMap String.utf8EncodeChar).take (nameWidth - (String.utf8EncodeChar c).length))
    rw [← start] at whole
    obtain ⟨c', cs', hw⟩ := List.exists_cons_of_ne_nil whole
    change Utf8.encode (String.ofList (Utf8.wellFormed _)) ≠ []
    rw [hw, Utf8.encode_ofList, List.flatMap_cons]
    exact List.append_ne_nil_of_left_ne_nil String.utf8EncodeChar_ne_nil _

theorem nameParts_of_short (hp : ∀ n ∈ p, IsName n ∧ 0 ∉ n) (hne : p ≠ [])
    (fits : ([slash].intercalate p).length ≤ nameWidth) :
    nameParts ([slash].intercalate p) = .ok ([], [slash].intercalate p) := by
  rw [nameParts, nameField_intercalate hp hne, if_pos fits]

/-- What is written for a name: the name in its field; or the whole name before the member, and in the
field something that fits. The beginning of a long name must be text. -/
theorem nameParts_cases (hp : ∀ n ∈ p, IsName n ∧ 0 ∉ n) (hne : p ≠ [])
    (start : nameWidth < ([slash].intercalate p).length → cutName ([slash].intercalate p) ≠ []) :
    nameParts ([slash].intercalate p) = .ok ([], [slash].intercalate p) ∧
        ([slash].intercalate p).length ≤ nameWidth ∨
      ∃ field, nameParts ([slash].intercalate p) =
          .ok (longText Kind.longName ([slash].intercalate p), field) ∧ field.length ≤ nameWidth := by
  by_cases fits : ([slash].intercalate p).length ≤ nameWidth
  · exact .inl ⟨nameParts_of_short hp hne fits, fits⟩
  · right
    have whole := (cutName_isPrefix ([slash].intercalate p)).trans (List.take_prefix _ _)
    have zero := zero_notMem_intercalate fun n hn => (hp n hn).2
    obtain ⟨field, hf, hl⟩ := exists_nameField_cut (fun n hn => (hp n hn).1)
      (fun h => zero (whole.subset h)) whole (start (Nat.not_le.1 fits))
      (Nat.le_trans (cutName_isPrefix _).length_le (List.length_take_le _ _))
    refine ⟨field, ?_, hl⟩
    rw [nameParts, nameField_intercalate hp hne]
    simp only [if_neg fits, if_neg (fun h => fits (Nat.le_of_lt h)), hf]
    rfl

theorem cutName_ne_nil_of_written (hp : ∀ n ∈ p, IsName n ∧ 0 ∉ n) (hne : p ≠ []) {parts : Bytes × Bytes}
    (h : nameParts ([slash].intercalate p) = .ok parts)
    (long : nameWidth < ([slash].intercalate p).length) : cutName ([slash].intercalate p) ≠ [] := by
  intro cut
  have nothing : nameField true [] = .error .empty := by
    rw [nameField, components_nil]
    simp only [appendSteps]
    rfl
  rw [nameParts, nameField_intercalate hp hne, if_neg (Nat.not_le.2 long)] at h
  simp only [if_neg (Nat.not_lt.2 (Nat.le_of_lt long)), cut, nothing] at h
  cases h

/-! ### Links -/

theorem fillLink_spec (inner : Bool) (hw : w.length ≤ nameWidth) (zw : 0 ∉ w)
    (zero : ∀ c ∈ cs, 0 ∉ c.bytes) :
    (fillLink w inner cs).1.length ≤ nameWidth ∧ 0 ∉ (fillLink w inner cs).1 ∧
      ((fillLink w inner cs).2 = true → (fillLink w inner cs).1 = w ++ path inner cs) := by
  induction cs generalizing w inner with
  | nil => exact ⟨hw, zw, fun _ => (List.append_nil w).symm⟩
  | cons c cs ih =>
    obtain ⟨hc, hcs⟩ := List.forall_mem_cons.1 zero
    rw [fillLink, path]
    cases inner with
    | false =>
      by_cases fits : w.length + c.bytes.length ≤ nameWidth
      · simp only [Bool.false_eq_true, if_false, append_eq hc, if_pos fits, List.nil_append,
          ← List.append_assoc]
        exact ih _ (by rwa [List.length_append]) (by simp [zw, hc]) hcs
      · simp only [Bool.false_eq_true, if_false, append_eq hc, if_neg fits]
        exact ⟨hw, zw, False.elim⟩
    | true =>
      by_cases room : w.length + 1 ≤ nameWidth
      · have hw' : (w ++ [slash]).length ≤ nameWidth := by simpa using room
        have zw' : 0 ∉ w ++ [slash] := by simp [zw, slash]
        by_cases fits : (w ++ [slash]).length + c.bytes.length ≤ nameWidth
        · simp only [if_true, append_slash, if_pos room, append_eq hc, if_pos fits,
            ← List.append_assoc]
          exact ih _ (by rwa [List.length_append])
            (by rw [List.mem_append, not_or]; exact ⟨zw', hc⟩) hcs
        · simp only [if_true, append_slash, if_pos room, append_eq hc, if_neg fits]
          exact ⟨hw', zw', fun h => absurd h Bool.false_ne_true⟩
      · simp only [if_true, append_slash, if_neg room]
        exact ⟨hw, zw, fun h => absurd h Bool.false_ne_true⟩

/-- What the field of a link holds: something that fits; and if it is the whole of the link, something
with the same steps. -/
theorem linkField_spec {target : Bytes} (nonempty : target ≠ []) (zero : 0 ∉ target) :
    (linkField target).1.length ≤ nameWidth ∧ 0 ∉ (linkField target).1 ∧
      ((linkField target).2 = true → (linkField target).1 ≠ [] ∧
        components (linkField target).1 = components target) := by
  obtain ⟨length, notMem, whole⟩ := fillLink_spec false (w := []) (Nat.zero_le _)
    List.not_mem_nil fun c hc => zero_notMem_of_mem_components zero hc
  rw [linkField]
  rcases hf : fillLink [] false (components target) with ⟨field, all⟩
  rw [hf] at length notMem whole
  simp only at length notMem whole ⊢
  cases all with
  | false => exact ⟨length, notMem, fun h => absurd h Bool.false_ne_true⟩
  | true =>
    have same : components field = components target := by
      rw [whole rfl, List.nil_append, components_path]
    have ne : field ≠ [] := by
      rintro rfl
      exact components_ne_nil nonempty same.symm
    simp only [Bool.not_true, Bool.false_eq_true, if_false]
    split
    · by_cases fits : field.length + 1 ≤ nameWidth
      · simp only [append_slash, if_pos fits]
        refine ⟨by simpa using fits, by simp [notMem, slash], fun _ => ⟨by simp, ?_⟩⟩
        rw [← same]
        refine components_congr (isAbsolute_append ne _) ?_
        rw [pieces_append]
        exact List.append_nil _
      · simp only [append_slash, if_neg fits]
        exact ⟨length, notMem, fun h => absurd h Bool.false_ne_true⟩
    · exact ⟨length, notMem, fun _ => ⟨ne, same⟩⟩

end Tar
end ContainerBuild
