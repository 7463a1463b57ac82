import ContainerBuild.Proofs.FilePath.Steps

/-!
# Beginnings of paths

A path that is cut off anywhere, also in the middle of a step, has at most one piece that is not a step
of the whole path, and that is its last. Written out again, its pieces take no more room than it has.
-/

namespace ContainerBuild
namespace FilePath

variable {w : Bytes} {p : List Name}

/-- The room that some pieces take with a slash after each. -/
def breadth : List Name → Nat
  | [] => 0
  | n :: l => n.length + 1 + breadth l

@[simp] theorem breadth_cons (n : Name) (l : List Name) :
    breadth (n :: l) = n.length + 1 + breadth l :=
  rfl

theorem breadth_split (sep : UInt8) (b : Bytes) : breadth (Bytes.split sep b) = b.length + 1 := by
  induction b with
  | nil => rfl
  | cons x b ih =>
    by_cases hx : x = sep
    · subst hx
      rw [Bytes.split_cons_self, breadth_cons, ih, List.length_cons, List.length_nil]
      omega
    · rw [Bytes.split_cons_of_ne hx]
      obtain ⟨first, rest, hs⟩ := List.exists_cons_of_ne_nil (Bytes.split_ne_nil sep b)
      rw [hs] at ih ⊢
      simp only [breadth_cons, List.headD_cons, List.tail_cons, List.length_cons] at ih ⊢
      omega

theorem breadth_filter_le (f : Name → Bool) (l : List Name) : breadth (l.filter f) ≤ breadth l := by
  induction l with
  | nil => exact Nat.le_refl _
  | cons n l ih =>
    rw [List.filter_cons]
    split
    · simp only [breadth_cons]
      omega
    · simp only [breadth_cons]
      omega

theorem breadth_steps_le (l : List Name) : breadth ((steps l).map Component.bytes) ≤ breadth l := by
  have back : Component.bytes ∘ Component.ofPiece = id := funext bytes_ofPiece
  rw [steps, List.map_map, back, List.map_id]
  exact breadth_filter_le _ l

theorem breadth_pieces_le (b : Bytes) : breadth (pieces b) ≤ b.length + 1 :=
  Nat.le_trans (breadth_filter_le _ _) (Nat.le_of_eq (breadth_split slash b))

theorem length_le_of_mem_components {b : Bytes} {n : Name} (h : .name n ∈ components b) :
    n.length ≤ b.length := by
  have room {l : List Name} (hn : n ∈ l) : n.length + 1 ≤ breadth l := by
    induction l with
    | nil => cases hn
    | cons m l ih =>
      rw [breadth_cons]
      rcases List.mem_cons.1 hn with rfl | hn
      · omega
      · have := ih hn
        omega
  rcases mem_pieces_of_mem_components h with root | piece
  · cases root
  · have := Nat.le_trans (room piece) (breadth_pieces_le b)
    omega

theorem breadth_append (a b : List Name) : breadth (a ++ b) = breadth a + breadth b := by
  induction a with
  | nil => exact (Nat.zero_add _).symm
  | cons n a ih =>
    rw [List.cons_append, breadth_cons, breadth_cons, ih]
    omega

theorem length_intercalate_le (p : List Name) : ([slash].intercalate p).length ≤ breadth p := by
  induction p with
  | nil => exact Nat.le_refl 0
  | cons n p ih =>
    cases p with
    | nil =>
      rw [List.intercalate_singleton, breadth_cons]
      omega
    | cons m p =>
      rw [List.intercalate_cons_cons, List.length_append, List.length_append, List.length_singleton]
      simp only [breadth_cons] at ih ⊢
      omega

/-- Of the beginning of a name only the last piece may be other than a step of the name. -/
theorem isName_of_mem_dropLast (hp : ∀ n ∈ p, IsName n) (h : w <+: [slash].intercalate p) {n : Name}
    (hn : n ∈ (pieces w).dropLast) : IsName n := by
  induction p generalizing w with
  | nil =>
    obtain rfl := List.prefix_nil.1 h
    cases hn
  | cons m p ih =>
    obtain ⟨hm, hp⟩ := List.forall_mem_cons.1 hp
    -- Within the first step there is at most one piece.
    have within (hw : w <+: m) : IsName n := by
      have none : slash ∉ w := fun hs => hm.no_slash (hw.subset hs)
      rw [pieces, Bytes.split_of_notMem none, List.filter_cons] at hn
      split at hn <;> cases hn
    cases p with
    | nil =>
      rw [List.intercalate_singleton] at h
      exact within h
    | cons m' p =>
      obtain ⟨rest, hr⟩ := h
      rw [List.intercalate_cons_cons, List.append_assoc, List.append_eq_append_iff] at hr
      rcases hr with ⟨a, rfl, -⟩ | ⟨a, rfl, hr⟩
      · exact within (List.prefix_append w a)
      · cases a with
        | nil => exact within (by simp)
        | cons x a =>
          obtain ⟨rfl, ha⟩ := List.cons.inj hr
          rw [pieces_append, pieces_of_isPiece hm.toIsPiece, List.singleton_append] at hn
          cases hq : pieces a with
          | nil => simp [hq] at hn
          | cons first others =>
            rw [hq, List.dropLast_cons_cons] at hn
            rcases List.mem_cons.1 hn with rfl | hn
            · exact hm
            · exact ih hp ⟨rest, ha.symm⟩ (by rwa [hq])

theorem ne_up_of_mem_dropLast {l : List Name} (h : ∀ n ∈ l.dropLast, IsName n) {c : Component}
    (hc : c ∈ (steps l).dropLast) : c ≠ .up := by
  rcases List.eq_nil_or_concat l with rfl | ⟨init, last, rfl⟩
  · cases hc
  · rw [List.concat_eq_append] at h hc
    rw [List.dropLast_concat] at h
    -- What the last piece adds, if anything, is dropped.
    have mem : c ∈ steps init := by
      unfold steps at hc ⊢
      rw [List.filter_append, List.map_append, List.filter_cons] at hc
      split at hc
      · rw [List.filter_nil, List.map_singleton, List.dropLast_concat] at hc
        exact hc
      · rw [List.filter_nil, List.map_nil, List.append_nil] at hc
        exact (List.dropLast_sublist _).mem hc
    obtain ⟨n, hn, rfl⟩ := List.mem_map.1 mem
    rw [Component.ofPiece, if_neg (h n (List.mem_filter.1 hn).1).ne_dotDot]
    exact nofun

end FilePath
end ContainerBuild
