import ContainerBuild.Proofs.Tar.Beginnings

/-!
# Archives that are cut

A member stands in its archive with its header right before its data, and what is there of the data is
what can be read of it. An archive that was written can be cut anywhere: before the end of the header
there is no member to read, and after it the member is there with its whole size, however much of the
data is left.
-/

namespace ContainerBuild
namespace Tar

/-! ### Where a member stands -/

variable {s : Source} {p : Pending} {fuel : Nat}

theorem skip?_eq_none {n : Nat} (h : s.bytes.length < n) : s.skip? n = none := by
  rw [Source.skip?, if_neg (by omega), if_pos h]

/-- A member without holes stands at the end of what is read, its header and then its data. What it holds
is one part of its size. -/
theorem exists_before_of_member {e : Entry} {after : Option Source}
    (h : nextEntryFrom fuel s p = .member (e, after)) (dense : e.block.kind ≠ Kind.sparse) :
    e.parts = [.data e.size] ∧ e.block.bytes.length = blockSize ∧
      ∃ before, s.bytes = before ++ (e.block.bytes ++ e.body.bytes) := by
  induction fuel generalizing s p with
  | zero => cases h
  | succ fuel ih =>
    rw [nextEntryFrom] at h
    split at h
    · cases h
    · split at h <;> cases h
    · rename_i r raw
      obtain ⟨rfl, length, -⟩ := of_nextRaw raw
      split at h
      · -- The header belongs to the member that is read after its data.
        split at h
        · rename_i data rest hdata hafter
          obtain ⟨skipped, hs, -⟩ := Source.of_skip? hafter
          split at h
          · obtain ⟨parts, size, before, hb⟩ := ih h
            refine ⟨parts, size, r.block.bytes ++ (skipped ++ before), ?_⟩
            simp only [Source.bytes_prepend, hs, hb, List.append_assoc]
          · cases h
        · cases h
      · rw [complete] at h
        split at h
        · rename_i sparse
          split at h
          · cases h
          · cases h
            exact absurd (by simpa using sparse) dense
        · cases h
          exact ⟨rfl, length, [], rfl⟩

theorem fillParts_single (n : Nat) (b : Bytes) :
    Entry.fillParts [.data n] b = (b.take n, decide (n ≤ b.length)) := by
  rw [Entry.fillParts]
  by_cases h : b.length < n
  · rw [if_pos h, List.take_of_length_le (Nat.le_of_lt h), decide_eq_false (Nat.not_le.2 h)]
  · rw [if_neg h, decide_eq_true (Nat.not_lt.1 h)]
    simp only [Entry.fillParts, List.append_nil]

/-! ### Before the end of a header -/

theorem nextRaw_short {attributes : Option Bytes} (short : s.bytes.length < blockSize) (r : RawEntry) :
    nextRaw s attributes ≠ .member r := by
  intro h
  obtain ⟨rfl, length, -⟩ := of_nextRaw h
  rw [Source.bytes_prepend, List.length_append, length] at short
  omega

theorem nextEntryFrom_short (short : s.bytes.length < blockSize) (x : Entry × Option Source) :
    nextEntryFrom fuel s p ≠ .member x := by
  intro h
  cases fuel with
  | zero => cases h
  | succ fuel =>
    rw [nextEntryFrom] at h
    split at h
    · cases h
    · split at h <;> cases h
    · rename_i r raw
      exact nextRaw_short short r raw

theorem nextEntryFrom_cut_longText {kind : UInt8} {text : Bytes} {k : Nat}
    (size : text.length + blockSize ≤ Text.maxUnsigned64)
    (forNext : kind = Kind.longName ∨ kind = Kind.longLink) (attributes : p.attributes = none)
    (cut : k < (longText kind text).length) (x : Entry × Option Source) :
    nextEntryFrom fuel (.ofBytes ((longText kind text).take k)) p ≠ .member x := by
  have fits := longHeader_fits kind size
  by_cases short : k < blockSize
  · exact nextEntryFrom_short (by simp [Source.ofBytes]; omega) x
  obtain ⟨j, rfl⟩ : ∃ j, k = blockSize + j := ⟨k - blockSize, by omega⟩
  have header := Header.length_render fits
  have split : (longText kind text).take (blockSize + j) =
      (longHeader kind text).render ++ (blocks (text ++ [0])).take j := by
    rw [longText, ← header]
    exact List.take_length_add_append j
  have room : (longHeader kind text).size + (blockSize - 1) ≤ Text.maxUnsigned64 := by
    simp only [longHeader, blockSize] at size ⊢
    omega
  have raw : nextRaw (.ofBytes ((longText kind text).take (blockSize + j))) p.attributes =
      .member ⟨(longHeader kind text).block, (longHeader kind text).size,
        .ofBytes ((blocks (text ++ [0])).take j)⟩ := by
    rw [split, attributes]
    exact nextRaw_render fits room _
  have next : (longHeader kind text).block.isForNext = true := by
    rw [Block.isForNext, Header.isGnu_block fits, Header.kind_block fits]
    rcases forNext with rfl | rfl <;> rfl
  -- The text is not there as a whole, so it cannot be passed over.
  have stuck : RawEntry.after? ⟨(longHeader kind text).block, (longHeader kind text).size,
      .ofBytes ((blocks (text ++ [0])).take j)⟩ = none := by
    have whole : (longText kind text).length = blockSize + (blocks (text ++ [0])).length := by
      rw [longText, List.length_append]
      exact congrArg (· + _) header
    have length : padded (longHeader kind text).size = (blocks (text ++ [0])).length := by
      rw [length_blocks, List.length_append]
      rfl
    refine skip?_eq_none ?_
    change ((blocks (text ++ [0])).take j).length < padded (longHeader kind text).size
    rw [length, List.length_take]
    omega
  intro h
  cases fuel with
  | zero => cases h
  | succ fuel =>
    rw [nextEntryFrom, raw] at h
    simp only [next, if_true, stuck] at h
    cases h

/-! ### The parts of a member with data -/

theorem length_append_le {w more written : Bytes} (h : append w more = .ok written) :
    written.length ≤ nameWidth := by
  rw [append] at h
  split at h
  · cases h
  · rename_i fits
    split at h
    · cases h
    · cases h
      rw [List.length_append]
      omega

theorem length_step_le {cut alone : Bool} {w n written : Bytes} {cs : List FilePath.Component}
    (ih : ∀ {w}, w.length ≤ nameWidth → appendSteps cut alone w cs = .ok written →
      written.length ≤ nameWidth)
    (h : appendSteps.step cut alone w n cs = .ok written) : written.length ≤ nameWidth := by
  rw [appendSteps.step] at h
  split at h
  all_goals
    obtain ⟨w', -, h⟩ := bind_eq_ok_iff.1 h
    obtain ⟨w'', step, h⟩ := bind_eq_ok_iff.1 h
    exact ih (length_append_le step) h

theorem length_appendSteps_le {cut alone : Bool} {w written : Bytes} {cs : List FilePath.Component}
    (room : w.length ≤ nameWidth) (h : appendSteps cut alone w cs = .ok written) :
    written.length ≤ nameWidth := by
  induction cs generalizing w with
  | nil =>
    rw [appendSteps] at h
    cases h
    exact room
  | cons c cs ih =>
    cases c with
    | root =>
      rw [appendSteps] at h
      cases h
    | up =>
      rw [appendSteps] at h
      split at h
      · exact length_step_le ih h
      · cases h
    | here =>
      rw [appendSteps] at h
      split at h
      · exact length_step_le ih h
      · exact ih room h
    | name n =>
      rw [appendSteps] at h
      exact length_step_le ih h

theorem length_nameField_le {cut : Bool} {name written : Bytes} (h : nameField cut name = .ok written) :
    written.length ≤ nameWidth := by
  rw [nameField] at h
  obtain ⟨w, steps, h⟩ := bind_eq_ok_iff.1 h
  have length := length_appendSteps_le (Nat.zero_le _) steps
  simp only at h
  split at h
  · cases h
  · split at h
    · exact length_append_le h
    · cases h
      exact length

/-- What goes before a member for its name is nothing, or the whole name. -/
theorem before_of_nameParts {name before field : Bytes} (h : nameParts name = .ok (before, field)) :
    (before = [] ∨ before = longText Kind.longName name) ∧ field.length ≤ nameWidth := by
  rw [nameParts] at h
  split at h
  · rename_i written
    cases h
    exact ⟨.inl rfl, length_nameField_le written⟩
  · split at h
    · cases h
    · cases written : nameField true (cutName name) with
      | error flaw =>
        rw [written] at h
        cases h
      | ok field =>
        rw [written] at h
        cases h
        exact ⟨.inr rfl, length_nameField_le written⟩

end Tar
end ContainerBuild
