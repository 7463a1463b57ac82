import ContainerBuild.FilePath

/-!
# Steps of paths

What a path is cut into. A slash cuts a path into two whose pieces are simply put together, so pieces
that are joined by slashes are found again, and steps that are written out one after another are read as
the same steps.
-/

namespace ContainerBuild

namespace Bytes

variable {sep : UInt8} {b : Bytes}

theorem split_ne_nil (sep : UInt8) (b : Bytes) : split sep b ≠ [] := by
  simp [split]

theorem split_cons_self (sep : UInt8) (b : Bytes) : split sep (sep :: b) = [] :: split sep b := by
  simp [split]

theorem split_cons_of_ne {x : UInt8} (h : x ≠ sep) (b : Bytes) :
    split sep (x :: b) = (x :: (split sep b).headD []) :: (split sep b).tail := by
  simp [split, h]

theorem split_append (sep : UInt8) (a b : Bytes) :
    split sep (a ++ sep :: b) = split sep a ++ split sep b := by
  induction a with
  | nil => exact split_cons_self sep b
  | cons x a ih =>
    by_cases hx : x = sep
    · subst hx
      rw [List.cons_append, split_cons_self, ih, split_cons_self, List.cons_append]
    · rw [List.cons_append, split_cons_of_ne hx, split_cons_of_ne hx, ih]
      obtain ⟨first, rest, hs⟩ := List.exists_cons_of_ne_nil (split_ne_nil sep a)
      simp only [hs, List.cons_append, List.headD_cons, List.tail_cons]

theorem split_of_notMem (h : sep ∉ b) : split sep b = [b] := by
  induction b with
  | nil => rfl
  | cons x b ih =>
    rw [List.mem_cons, not_or] at h
    rw [split_cons_of_ne (Ne.symm h.1), ih h.2]
    rfl

theorem notMem_of_mem_split {piece : Bytes} (h : piece ∈ split sep b) : sep ∉ piece := by
  induction b generalizing piece with
  | nil =>
    obtain rfl := List.mem_singleton.1 h
    exact List.not_mem_nil
  | cons x b ih =>
    by_cases hx : x = sep
    · subst hx
      rw [split_cons_self] at h
      rcases List.mem_cons.1 h with rfl | h
      · exact List.not_mem_nil
      · exact ih h
    · rw [split_cons_of_ne hx] at h
      obtain ⟨first, rest, hs⟩ := List.exists_cons_of_ne_nil (split_ne_nil sep b)
      rw [hs] at h ih
      rcases List.mem_cons.1 h with rfl | h
      · rw [List.mem_cons, not_or]
        exact ⟨Ne.symm hx, ih List.mem_cons_self⟩
      · exact ih (List.mem_cons_of_mem _ h)

theorem intercalate_split (sep : UInt8) (b : Bytes) : [sep].intercalate (split sep b) = b := by
  induction b with
  | nil => rfl
  | cons x b ih =>
    obtain ⟨first, rest, hs⟩ := List.exists_cons_of_ne_nil (split_ne_nil sep b)
    rw [hs] at ih
    by_cases hx : x = sep
    · subst hx
      rw [split_cons_self, hs, List.intercalate_cons_cons, ih]
      rfl
    · rw [split_cons_of_ne hx, hs, List.headD_cons, List.tail_cons]
      cases rest with
      | nil =>
        rw [List.intercalate_singleton] at ih ⊢
        rw [ih]
      | cons second rest =>
        rw [List.intercalate_cons_cons] at ih ⊢
        rw [← ih]
        rfl

theorem mem_of_mem_split {piece : Bytes} {x : UInt8} (h : piece ∈ split sep b) (hx : x ∈ piece) :
    x ∈ b := by
  induction b generalizing piece with
  | nil =>
    obtain rfl := List.mem_singleton.1 h
    exact hx
  | cons y b ih =>
    by_cases hy : y = sep
    · subst hy
      rw [split_cons_self] at h
      rcases List.mem_cons.1 h with rfl | h
      · cases hx
      · exact List.mem_cons_of_mem _ (ih h hx)
    · rw [split_cons_of_ne hy] at h
      obtain ⟨first, rest, hs⟩ := List.exists_cons_of_ne_nil (split_ne_nil sep b)
      rw [hs] at h ih
      rcases List.mem_cons.1 h with rfl | h
      · rcases List.mem_cons.1 hx with rfl | hx
        · exact List.mem_cons_self
        · exact List.mem_cons_of_mem _ (ih List.mem_cons_self hx)
      · exact List.mem_cons_of_mem _ (ih (List.mem_cons_of_mem _ h) hx)

end Bytes

namespace FilePath

/-- What can stand between two slashes. -/
structure IsPiece (n : Name) : Prop where
  nonempty : n ≠ []
  no_slash : slash ∉ n

/-- A piece that is a step by a name. -/
structure IsName (n : Name) : Prop extends IsPiece n where
  ne_dot : n ≠ dot
  ne_dotDot : n ≠ dotDot

theorem isName_iff {n : Name} : IsName n ↔ n ≠ [] ∧ slash ∉ n ∧ n ≠ dot ∧ n ≠ dotDot :=
  ⟨fun h => ⟨h.nonempty, h.no_slash, h.ne_dot, h.ne_dotDot⟩,
    fun ⟨h1, h2, h3, h4⟩ => ⟨⟨h1, h2⟩, h3, h4⟩⟩

instance (n : Name) : Decidable (IsName n) :=
  decidable_of_iff _ isName_iff.symm

theorem pieces_append (a b : Bytes) : pieces (a ++ slash :: b) = pieces a ++ pieces b := by
  rw [pieces, Bytes.split_append, List.filter_append]
  rfl

theorem pieces_of_isPiece {n : Name} (h : IsPiece n) : pieces n = [n] := by
  rw [pieces, Bytes.split_of_notMem h.no_slash, List.filter_cons, if_pos (by simp [h.nonempty])]
  rfl

theorem isPiece_of_mem_pieces {path : Bytes} {n : Name} (h : n ∈ pieces path) : IsPiece n := by
  obtain ⟨hm, hn⟩ := List.mem_filter.1 h
  exact ⟨by simpa using hn, Bytes.notMem_of_mem_split hm⟩

theorem bytes_ofPiece (n : Name) : (Component.ofPiece n).bytes = n := by
  unfold Component.ofPiece
  split
  · rename_i h
    exact h.symm
  · rfl

/-- The steps by pieces of a path after its first. -/
def steps (l : List Name) : List Component :=
  (l.filter (· != dot)).map Component.ofPiece

theorem components_eq (path : Bytes) : components path =
    if isAbsolute path then .root :: steps (pieces path)
    else match pieces path with
      | first :: rest => if first = dot then .here :: steps rest else steps (first :: rest)
      | [] => [] :=
  rfl

theorem components_congr {a b : Bytes} (ha : isAbsolute a = isAbsolute b) (hp : pieces a = pieces b) :
    components a = components b := by
  rw [components_eq, components_eq, ha, hp]

/-- A step that does not stand only at the start of a path. -/
def Component.IsStep : Component → Prop
  | .up => True
  | .name n => IsName n
  | _ => False

theorem Component.IsStep.isPiece {c : Component} (h : c.IsStep) : IsPiece c.bytes := by
  cases c with
  | root => exact h.elim
  | here => exact h.elim
  | up => exact ⟨by decide, by decide⟩
  | name n => exact h.toIsPiece

theorem Component.IsStep.ne_dot {c : Component} (h : c.IsStep) : c.bytes ≠ dot := by
  cases c with
  | root => exact h.elim
  | here => exact h.elim
  | up => decide
  | name n => exact IsName.ne_dot h

theorem isStep_of_mem_steps {l : List Name} (hl : ∀ n ∈ l, IsPiece n) {c : Component}
    (h : c ∈ steps l) : c.IsStep := by
  obtain ⟨n, hn, rfl⟩ := List.mem_map.1 h
  obtain ⟨hm, hd⟩ := List.mem_filter.1 hn
  unfold Component.ofPiece
  split
  · trivial
  · rename_i hu
    exact ⟨hl n hm, by simpa using hd, hu⟩

theorem steps_map_bytes {cs : List Component} (h : ∀ c ∈ cs, c.IsStep) :
    steps (cs.map Component.bytes) = cs := by
  induction cs with
  | nil => rfl
  | cons c cs ih =>
    obtain ⟨hc, hcs⟩ := List.forall_mem_cons.1 h
    have ih := ih hcs
    unfold steps at ih ⊢
    have back : Component.ofPiece c.bytes = c := by
      cases c with
      | root => exact hc.elim
      | here => exact hc.elim
      | up => rfl
      | name n => exact if_neg hc.ne_dotDot
    rw [List.map_cons, List.filter_cons, if_pos (by simpa using hc.ne_dot), List.map_cons, ih, back]

/-! ### Written steps -/

/-- Steps written out after something, each with a slash before it. -/
def written (cs : List Component) : Bytes :=
  cs.flatMap fun c => slash :: c.bytes

theorem pieces_append_written (a : Bytes) {cs : List Component} (h : ∀ c ∈ cs, IsPiece c.bytes) :
    pieces (a ++ written cs) = pieces a ++ cs.map Component.bytes := by
  induction cs generalizing a with
  | nil => simp [written]
  | cons c cs ih =>
    obtain ⟨hc, hcs⟩ := List.forall_mem_cons.1 h
    have cut : a ++ written (c :: cs) = a ++ slash :: (c.bytes ++ written cs) := by
      simp [written]
    rw [cut, pieces_append, ih c.bytes hcs, pieces_of_isPiece hc, List.map_cons,
      List.singleton_append]

theorem isAbsolute_append {a : Bytes} (h : a ≠ []) (b : Bytes) :
    isAbsolute (a ++ b) = isAbsolute a := by
  obtain ⟨x, a, rfl⟩ := List.exists_cons_of_ne_nil h
  rfl

theorem isAbsolute_of_isPiece {n : Name} (h : IsPiece n) : isAbsolute n = false := by
  obtain ⟨x, n, rfl⟩ := List.exists_cons_of_ne_nil h.nonempty
  have hx : x ≠ slash := by
    rintro rfl
    exact h.no_slash List.mem_cons_self
  simpa [isAbsolute] using hx

theorem intercalate_cons (n : Name) (p : List Name) :
    [slash].intercalate (n :: p) = n ++ written (p.map .name) := by
  induction p generalizing n with
  | nil => simp [written]
  | cons m p ih =>
    rw [List.intercalate_cons_cons, ih m]
    simp [written, Component.bytes]

theorem intercalate_ne_nil {p : List Name} (h : ∀ n ∈ p, IsPiece n) (hp : p ≠ []) :
    [slash].intercalate p ≠ [] := by
  obtain ⟨n, p, rfl⟩ := List.exists_cons_of_ne_nil hp
  rw [intercalate_cons]
  exact List.append_ne_nil_of_left_ne_nil (h n List.mem_cons_self).nonempty _

theorem pieces_intercalate {p : List Name} (h : ∀ n ∈ p, IsPiece n) :
    pieces ([slash].intercalate p) = p := by
  cases p with
  | nil => rfl
  | cons n p =>
    obtain ⟨hn, hp⟩ := List.forall_mem_cons.1 h
    rw [intercalate_cons, pieces_append_written, pieces_of_isPiece hn, List.map_map]
    · simp [Function.comp_def, Component.bytes]
    · intro c hc
      obtain ⟨m, hm, rfl⟩ := List.mem_map.1 hc
      exact hp m hm

theorem components_intercalate {p : List Name} (h : ∀ n ∈ p, IsName n) :
    components ([slash].intercalate p) = p.map .name := by
  have hs : steps p = p.map .name := by
    have names : ∀ c ∈ p.map Component.name, c.IsStep := by
      intro c hc
      obtain ⟨n, hn, rfl⟩ := List.mem_map.1 hc
      exact h n hn
    simpa [Function.comp_def, Component.bytes] using steps_map_bytes names
  rw [components_eq, pieces_intercalate fun n hn => (h n hn).toIsPiece]
  cases p with
  | nil => rfl
  | cons n p =>
    have hn := h n List.mem_cons_self
    have relative : isAbsolute ([slash].intercalate (n :: p)) = false := by
      rw [intercalate_cons, isAbsolute_append hn.nonempty, isAbsolute_of_isPiece hn.toIsPiece]
    rw [relative]
    simp only [Bool.false_eq_true, if_false, if_neg hn.ne_dot]
    exact hs

theorem getLast?_intercalate {p : List Name} (h : ∀ n ∈ p, IsPiece n) :
    ([slash].intercalate p).getLast? ≠ some slash := by
  induction p with
  | nil => simp
  | cons n p ih =>
    obtain ⟨hn, hp⟩ := List.forall_mem_cons.1 h
    cases p with
    | nil =>
      rw [List.intercalate_singleton]
      exact fun hs => hn.no_slash (List.mem_of_getLast? hs)
    | cons m p =>
      have nonempty := intercalate_ne_nil hp (List.cons_ne_nil m p)
      rw [List.intercalate_cons_cons, List.getLast?_append,
        List.getLast?_eq_some_getLast nonempty, Option.some_or,
        ← List.getLast?_eq_some_getLast nonempty]
      exact ih hp

theorem zero_notMem_intercalate {p : List Name} (hp : ∀ n ∈ p, 0 ∉ n) : 0 ∉ [slash].intercalate p := by
  induction p with
  | nil => exact List.not_mem_nil
  | cons n p ih =>
    obtain ⟨hn, hp⟩ := List.forall_mem_cons.1 hp
    cases p with
    | nil => rwa [List.intercalate_singleton]
    | cons m p =>
      rw [List.intercalate_cons_cons, List.mem_append, List.mem_append, List.mem_singleton]
      rintro ((h | h) | h)
      · exact hn h
      · exact absurd h (by decide)
      · exact ih hp h

/-! ### Paths from their steps -/

/-- The steps of a path written out, with a slash before each of them but the first and the one after
the root. -/
def path : Bool → List Component → Bytes
  | _, [] => []
  | inner, c :: rest =>
    (if inner then [slash] else []) ++ c.bytes ++ path (c != .root) rest

theorem path_true {cs : List Component} (h : ∀ c ∈ cs, c.IsStep) : path true cs = written cs := by
  induction cs with
  | nil => rfl
  | cons c cs ih =>
    obtain ⟨hc, hcs⟩ := List.forall_mem_cons.1 h
    have inner : (c != .root) = true := by
      cases c with
      | root => exact hc.elim
      | _ => rfl
    rw [path, inner, ih hcs]
    simp [written]

theorem pieces_ne_nil {b : Bytes} (h : b ≠ []) (hr : isAbsolute b = false) : pieces b ≠ [] := by
  obtain ⟨x, b, rfl⟩ := List.exists_cons_of_ne_nil h
  have hx : x ≠ slash := by
    rintro rfl
    simp [isAbsolute] at hr
  rw [pieces, Bytes.split_cons_of_ne hx, List.filter_cons, if_pos (by simp)]
  exact List.cons_ne_nil _ _

/-- The steps of a path: the root and others, or the place itself and others, or others only. -/
theorem components_cases (b : Bytes) : ∃ cs, (∀ c ∈ cs, c.IsStep) ∧
    (components b = .root :: cs ∨ components b = .here :: cs ∨ components b = cs) := by
  have steps_ok {l : List Name} (hl : ∀ n ∈ l, n ∈ pieces b) : ∀ c ∈ steps l, c.IsStep :=
    fun c hc => isStep_of_mem_steps (fun n hn => isPiece_of_mem_pieces (hl n hn)) hc
  rw [components_eq]
  split
  · exact ⟨_, steps_ok fun n hn => hn, .inl rfl⟩
  · cases hp : pieces b with
    | nil => exact ⟨[], by simp, .inr (.inr rfl)⟩
    | cons first rest =>
      rw [hp] at steps_ok
      simp only
      split
      · exact ⟨_, steps_ok fun n hn => List.mem_cons_of_mem _ hn, .inr (.inl rfl)⟩
      · exact ⟨_, steps_ok fun n hn => hn, .inr (.inr rfl)⟩

theorem components_ne_nil {b : Bytes} (h : b ≠ []) : components b ≠ [] := by
  rw [components_eq]
  split
  · exact List.cons_ne_nil _ _
  · rename_i hr
    obtain ⟨first, rest, hp⟩ := List.exists_cons_of_ne_nil (pieces_ne_nil h (by simpa using hr))
    rw [hp]
    simp only
    split
    · exact List.cons_ne_nil _ _
    · rename_i hd
      rw [steps, List.filter_cons, if_pos (by simpa using hd)]
      exact List.cons_ne_nil _ _

theorem path_cons {c : Component} {cs : List Component} (hc : c ≠ .root) (hcs : ∀ c ∈ cs, c.IsStep) :
    path false (c :: cs) = c.bytes ++ written cs := by
  have inner : (c != .root) = true := by simpa using hc
  rw [path, inner, path_true hcs]
  rfl

theorem components_append_written {n : Name} {cs : List Component} (hn : IsPiece n)
    (hcs : ∀ c ∈ cs, c.IsStep) : components (n ++ written cs) =
      if n = dot then .here :: cs else steps (n :: cs.map Component.bytes) := by
  rw [components_eq, isAbsolute_append hn.nonempty, isAbsolute_of_isPiece hn,
    pieces_append_written _ fun c h => (hcs c h).isPiece, pieces_of_isPiece hn,
    List.singleton_append]
  simp only [Bool.false_eq_true, if_false, steps_map_bytes hcs]

theorem mem_pieces_of_mem_components {b : Bytes} {c : Component} (hc : c ∈ components b) :
    c = .root ∨ c.bytes ∈ pieces b := by
  have step {l : List Name} (hl : ∀ n ∈ l, n ∈ pieces b) (hc : c ∈ steps l) : c.bytes ∈ pieces b := by
    obtain ⟨n, hn, rfl⟩ := List.mem_map.1 hc
    rw [bytes_ofPiece]
    exact hl n (List.mem_filter.1 hn).1
  rw [components_eq] at hc
  split at hc
  · rcases List.mem_cons.1 hc with rfl | hc
    · exact .inl rfl
    · exact .inr (step (fun n hn => hn) hc)
  · right
    cases hp : pieces b with
    | nil => simp [hp] at hc
    | cons first rest =>
      rw [hp] at hc step
      simp only at hc
      split at hc
      · rename_i here
        rcases List.mem_cons.1 hc with rfl | hc
        · exact List.mem_cons.2 (.inl here.symm)
        · exact step (fun n hn => List.mem_cons_of_mem _ hn) hc
      · exact step (fun n hn => hn) hc

/-- No step of a path has a byte that the path does not have, other than those of the special steps. -/
theorem zero_notMem_of_mem_components {b : Bytes} (h : 0 ∉ b) {c : Component}
    (hc : c ∈ components b) : 0 ∉ c.bytes := by
  rcases mem_pieces_of_mem_components hc with rfl | hp
  · decide
  · exact fun h0 => h (Bytes.mem_of_mem_split (List.mem_filter.1 hp).1 h0)

/-- A path is read as the steps that it was written from. -/
theorem components_path (b : Bytes) : components (path false (components b)) = components b := by
  obtain ⟨cs, hcs, h | h | h⟩ := components_cases b
  · have rest : pieces (path false cs) = cs.map Component.bytes := by
      cases cs with
      | nil => rfl
      | cons c cs =>
        obtain ⟨hc, hcs⟩ := List.forall_mem_cons.1 hcs
        rw [path_cons (by rintro rfl; exact hc) hcs,
          pieces_append_written _ fun c h => (hcs c h).isPiece, pieces_of_isPiece hc.isPiece]
        rfl
    have root : path false (.root :: cs) = [] ++ slash :: path false cs := rfl
    have absolute : isAbsolute ([] ++ slash :: path false cs) = true := rfl
    rw [h, root, components_eq, if_pos absolute, pieces_append, rest]
    exact congrArg _ (steps_map_bytes hcs)
  · rw [h, path_cons (by simp) hcs, components_append_written ⟨by decide, by decide⟩ hcs]
    rfl
  · rw [h]
    cases cs with
    | nil => rfl
    | cons c cs =>
      have step := List.forall_mem_cons.1 hcs
      rw [path_cons (by rintro rfl; exact step.1) step.2,
        components_append_written step.1.isPiece step.2, if_neg step.1.ne_dot]
      exact steps_map_bytes hcs

end FilePath
end ContainerBuild
