import ContainerBuild.Proofs.Tar.Numbers

/-!
# Blocks of headers

A header whose name and link fit into their fields takes one block, each field has its place there, and
each is read back from it as it was written. The sum of the block is the one that its checksum says.
-/

namespace ContainerBuild
namespace Tar

theorem Block.slice_of_eq {b : Block} {f : Bytes} {start width : Nat} (before after : Bytes)
    (h : b.bytes = before ++ (f ++ after)) (hs : before.length = start) (hw : f.length = width) :
    b.slice start width = f := by
  rw [Block.slice, h, ← hs, List.drop_left, ← hw, List.take_left]

theorem length_field {width : Nat} {b : Bytes} (h : b.length ≤ width) :
    (field width b).length = width := by
  rw [field, List.length_append, List.length_replicate]
  omega

theorem untilNul_field {b : Bytes} (h : 0 ∉ b) (width : Nat) : Bytes.untilNul (field width b) = b := by
  unfold field
  cases width - b.length with
  | zero =>
    rw [List.replicate_zero, List.append_nil]
    exact Bytes.untilNul_of_notMem h
  | succ k => exact Bytes.untilNul_append_nul h _

theorem sum_append (a b : Bytes) : sum (a ++ b) = sum a + sum b := by
  have shift (b : Bytes) (n : Nat) : b.foldl (fun n x => n + x.toNat) n = n + sum b := by
    unfold sum
    induction b generalizing n with
    | nil => rfl
    | cons x b ih => rw [List.foldl_cons, List.foldl_cons, ih, ih (0 + x.toNat)]; omega
  rw [sum, List.foldl_append, shift]
  rfl

theorem sum_le (b : Bytes) : sum b ≤ 255 * b.length := by
  induction b with
  | nil => exact Nat.le_refl 0
  | cons x b ih =>
    have first : sum [x] = x.toNat := Nat.zero_add _
    have := x.toNat_lt
    rw [← List.singleton_append, sum_append, List.length_append, List.length_singleton, first]
    omega

theorem octalLimit_eight : octalLimit 8 = 2097152 := rfl

theorem add_blockSize_le {n : Nat} (h : n ≤ Text.maxSigned64) : n + blockSize ≤ Text.maxUnsigned64 := by
  simp only [Text.maxSigned64, Text.maxUnsigned64, UInt64.size, blockSize] at *
  omega

namespace Header

/-- A header whose parts fit into their fields. -/
structure Fits (h : Header) : Prop where
  name : h.name.length ≤ nameWidth
  mode : h.mode < octalLimit 8
  size : h.size ≤ Text.maxUnsigned64
  link : h.link.length ≤ nameWidth

def block (h : Header) : Block := ⟨h.render⟩

variable {h : Header}

@[simp] theorem length_signature : signature.length = 8 := by decide

theorem length_modeField (fits : h.Fits) : (octalField 8 h.mode).length = 8 :=
  length_octalField (by decide) fits.mode

theorem length_ownerField : (octalField 8 0).length = 8 :=
  length_octalField (by decide) (by decide)

theorem length_sizeField : (numberField 12 h.size).length = 12 :=
  length_numberField (by decide)

theorem length_fieldsBefore (fits : h.Fits) : h.fieldsBefore.length = 148 := by
  have time : (octalField 12 0).length = 12 := length_octalField (by decide) (by decide)
  simp only [fieldsBefore, List.length_append, length_field fits.name, length_modeField fits,
    length_ownerField, length_sizeField, time]
  rfl

theorem length_fieldsAfter (fits : h.Fits) : h.fieldsAfter.length = 356 := by
  simp only [fieldsAfter, List.length_cons, List.length_append, length_field fits.link,
    length_signature, List.length_replicate]
  rfl

theorem checksum_lt (fits : h.Fits) : h.checksum < octalLimit 8 := by
  have before := sum_le h.fieldsBefore
  have after := sum_le h.fieldsAfter
  rw [length_fieldsBefore fits] at before
  rw [length_fieldsAfter fits] at after
  rw [checksum, octalLimit_eight]
  omega

theorem length_checksumField (fits : h.Fits) : (octalField 8 h.checksum).length = 8 :=
  length_octalField (by decide) (checksum_lt fits)

theorem length_toKind (fits : h.Fits) : (h.fieldsBefore ++ octalField 8 h.checksum).length = 156 := by
  rw [List.length_append, length_fieldsBefore fits, length_checksumField fits]

theorem length_render (fits : h.Fits) : h.render.length = blockSize := by
  simp only [render, List.length_append, length_fieldsBefore fits, length_checksumField fits,
    length_fieldsAfter fits]
  rfl

/-! ### Fields before the checksum -/

theorem slice_name (fits : h.Fits) : h.block.slice 0 100 = field nameWidth h.name := by
  refine Block.slice_of_eq [] (octalField 8 h.mode ++ (octalField 8 0 ++
    (octalField 8 0 ++ (numberField 12 h.size ++ (octalField 12 0 ++
      (octalField 8 h.checksum ++ h.fieldsAfter)))))) ?_ rfl (length_field fits.name)
  simp only [block, render, fieldsBefore, List.append_assoc, List.nil_append]

theorem slice_mode (fits : h.Fits) : h.block.slice 100 8 = octalField 8 h.mode := by
  refine Block.slice_of_eq (field nameWidth h.name) (octalField 8 0 ++
    (octalField 8 0 ++ (numberField 12 h.size ++ (octalField 12 0 ++
      (octalField 8 h.checksum ++ h.fieldsAfter))))) ?_ (length_field fits.name) (length_modeField fits)
  simp only [block, render, fieldsBefore, List.append_assoc]

theorem slice_size (fits : h.Fits) : h.block.slice 124 12 = numberField 12 h.size := by
  refine Block.slice_of_eq (field nameWidth h.name ++ (octalField 8 h.mode ++
    (octalField 8 0 ++ octalField 8 0))) (octalField 12 0 ++
      (octalField 8 h.checksum ++ h.fieldsAfter)) ?_ ?_ length_sizeField
  · simp only [block, render, fieldsBefore, List.append_assoc]
  · simp only [List.length_append, length_field fits.name, length_modeField fits, length_ownerField]
    rfl

theorem slice_checksum (fits : h.Fits) : h.block.slice 148 8 = octalField 8 h.checksum :=
  Block.slice_of_eq h.fieldsBefore h.fieldsAfter
    (List.append_assoc _ _ _) (length_fieldsBefore fits) (length_checksumField fits)

theorem name_block (fits : h.Fits) (zero : 0 ∉ h.name) : h.block.name = h.name := by
  rw [Block.name, slice_name fits, untilNul_field zero]

theorem mode?_block (fits : h.Fits) : h.block.mode? = some h.mode := by
  rw [Block.mode?, slice_mode fits,
    octal?_octalField (Nat.le_trans (Nat.le_of_lt fits.mode) (by decide))]

theorem size?_block (fits : h.Fits) : h.block.size? = some h.size := by
  rw [Block.size?, slice_size fits, number?_numberField (by decide) fits.size]

theorem checksum?_block (fits : h.Fits) : h.block.checksum? = some h.block.sum := by
  have sum : h.block.sum = h.checksum := by
    have before : h.render.take 148 = h.fieldsBefore := by
      rw [render, List.append_assoc, ← length_fieldsBefore fits, List.take_left]
    have after : h.render.drop 156 = h.fieldsAfter := by
      rw [render, ← length_toKind fits, List.drop_left]
    simp only [Block.sum, block, before, after, checksum]
  rw [Block.checksum?, slice_checksum fits, sum,
    octal?_octalField (Nat.le_trans (Nat.le_of_lt (checksum_lt fits)) (by decide))]

/-! ### Fields after the checksum -/

theorem kind_block (fits : h.Fits) : h.block.kind = h.kind := by
  have slice : h.block.slice 156 1 = [h.kind] :=
    Block.slice_of_eq _ (field nameWidth h.link ++ signature ++ List.replicate 247 0) rfl
      (length_toKind fits) rfl
  rw [Block.kind, slice]
  rfl

theorem slice_link (fits : h.Fits) : h.block.slice 157 100 = field nameWidth h.link := by
  refine Block.slice_of_eq (h.fieldsBefore ++ octalField 8 h.checksum ++ [h.kind])
    (signature ++ List.replicate 247 0) ?_ ?_ (length_field fits.link)
  · simp only [block, render, fieldsAfter, List.append_assoc, List.singleton_append]
  · rw [List.length_append, length_toKind fits, List.length_singleton]

theorem link?_block (fits : h.Fits) (zero : 0 ∉ h.link) (nonempty : h.link ≠ []) :
    h.block.link? = some h.link := by
  obtain ⟨x, rest, hl⟩ := List.exists_cons_of_ne_nil nonempty
  have hx : x ≠ 0 := by
    rintro rfl
    exact zero (hl ▸ List.mem_cons_self)
  have first : (field nameWidth h.link).headD 0 = x := by rw [field, hl]; rfl
  rw [Block.link?]
  simp only [slice_link fits, first, beq_iff_eq, if_neg hx, untilNul_field zero]

theorem signature_block (fits : h.Fits) : h.block.signature = signature := by
  refine Block.slice_of_eq (h.fieldsBefore ++ octalField 8 h.checksum ++
    (h.kind :: field nameWidth h.link)) (List.replicate 247 0) ?_ ?_ rfl
  · simp only [block, render, fieldsAfter, List.append_assoc, List.cons_append]
  · rw [List.length_append, length_toKind fits, List.length_cons, length_field fits.link]
    rfl

theorem isGnu_block (fits : h.Fits) : h.block.isGnu = true := by
  rw [Block.isGnu, signature_block fits, beq_self_eq_true]

theorem isStandard_block (fits : h.Fits) : h.block.isStandard = false := by
  rw [Block.isStandard, signature_block fits]
  decide

theorem isZero_block (fits : h.Fits) : h.block.isZero = false := by
  refine Bool.eq_false_iff.2 fun hz => ?_
  rw [Block.isZero, List.all_eq_true] at hz
  -- The signature is part of the block and begins with a letter.
  have letter : (0x75 : UInt8) ∈ h.block.bytes := by
    have : (0x75 : UInt8) ∈ h.block.signature := by rw [signature_block fits]; decide
    exact List.mem_of_mem_drop (List.mem_of_mem_take this)
  exact absurd (hz _ letter) (by decide)

theorem fullName_block (fits : h.Fits) (zero : 0 ∉ h.name) : h.block.fullName = h.name := by
  rw [Block.fullName, isStandard_block fits, name_block fits zero]
  rfl

end Header
end Tar
end ContainerBuild
