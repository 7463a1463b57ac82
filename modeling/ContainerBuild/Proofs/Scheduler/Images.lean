import ContainerBuild.Scheduler
import Mathlib.Data.List.Basic

/-!
# The images of a scheduler

The images that steps use for several configurations are gathered one after another, each where it comes
first. `FirstOccurrences` says which list that is, and there is only one such list. Gathering the uses of
more configurations adds the images that are new among them, so what one use keeps is kept by all of
them, configuration by configuration and step by step.
-/

namespace ContainerBuild
namespace Scheduler

/-- The items of a list, each once, in the order in which they come first. -/
structure FirstOccurrences (firsts all : List String) : Prop where
  mem_iff : ∀ x, x ∈ firsts ↔ x ∈ all
  inOrder : firsts.Pairwise fun x y => all.idxOf x < all.idxOf y

namespace FirstOccurrences

variable {firsts firsts' all all' : List String}

theorem nil : FirstOccurrences [] [] :=
  ⟨fun _ => Iff.rfl, List.Pairwise.nil⟩

theorem singleton (x : String) : FirstOccurrences [x] [x] :=
  ⟨fun _ => Iff.rfl, List.pairwise_singleton _ x⟩

theorem nodup (h : FirstOccurrences firsts all) : firsts.Nodup :=
  h.inOrder.imp fun lt eq => absurd (eq ▸ lt) (Nat.lt_irrefl _)

theorem eq (h : FirstOccurrences firsts all) (h' : FirstOccurrences firsts' all) :
    firsts = firsts' := by
  have same : firsts.Perm firsts' :=
    (List.perm_ext_iff_of_nodup h.nodup h'.nodup).2 fun x => (h.mem_iff x).trans (h'.mem_iff x).symm
  exact same.eq_of_pairwise (fun x y _ _ lt lt' => absurd lt' (Nat.lt_asymm lt)) h.inOrder h'.inOrder

/-- The items of two lists are those of the first and then what is new among those of the second. -/
theorem append (h : FirstOccurrences firsts all) (h' : FirstOccurrences firsts' all') :
    FirstOccurrences (firsts ++ firsts'.filter fun x => x ∉ firsts) (all ++ all') := by
  -- An item is found where it was found before, or else behind the whole first list.
  have old : ∀ x ∈ firsts, (all ++ all').idxOf x = all.idxOf x := fun x hx =>
    List.idxOf_append_of_mem ((h.mem_iff x).1 hx)
  have fresh : ∀ x ∈ firsts'.filter (fun x => x ∉ firsts),
      (all ++ all').idxOf x = all.length + all'.idxOf x := by
    intro x hx
    have hn : x ∉ firsts := of_decide_eq_true (List.mem_filter.1 hx).2
    exact List.idxOf_append_of_notMem fun ha => hn ((h.mem_iff x).2 ha)
  refine ⟨fun x => ?_, List.pairwise_append.2 ⟨?_, ?_, ?_⟩⟩
  · by_cases hx : x ∈ all <;> simp [h.mem_iff, h'.mem_iff, hx]
  · refine h.inOrder.imp_of_mem fun {x y} hx hy lt => ?_
    rwa [old x hx, old y hy]
  · refine (h'.inOrder.filter _).imp_of_mem fun {x y} hx hy lt => ?_
    rw [fresh x hx, fresh y hy]
    exact Nat.add_lt_add_left lt _
  · intro x hx y hy
    have found : all.idxOf x < all.length := List.idxOf_lt_length_iff.2 ((h.mem_iff x).1 hx)
    rw [old x hx, fresh y hy]
    omega

end FirstOccurrences

/-! ### Gathering -/

variable {C : Type} {images uses : List String}

theorem addImage_eq (images : List String) (image : String) :
    addImage images image = images ++ [image].filter fun x => x ∉ images := by
  unfold addImage
  by_cases h : image ∈ images <;> simp [h]

theorem FirstOccurrences.addImage (h : FirstOccurrences images uses) (image : String) :
    FirstOccurrences (addImage images image) (uses ++ [image]) := by
  rw [addImage_eq]
  exact h.append (.singleton image)

theorem FirstOccurrences.foldl_addImage (h : FirstOccurrences images uses) (more : List String) :
    FirstOccurrences (more.foldl Scheduler.addImage images) (uses ++ more) := by
  induction more generalizing images uses with
  | nil => rwa [List.append_nil]
  | cons image more ih =>
    rw [List.foldl_cons, ← List.singleton_append, ← List.append_assoc]
    exact ih (h.addImage image)

variable (s : Scheduler C)

theorem FirstOccurrences.foldl_imagesFor (h : FirstOccurrences images uses) (groups : List C) :
    FirstOccurrences
      (groups.foldl (fun images group => (s.imagesFor group).foldl Scheduler.addImage images) images)
      (uses ++ groups.flatMap s.imagesFor) := by
  induction groups generalizing images uses with
  | nil => rwa [List.flatMap_nil, List.append_nil]
  | cons group groups ih =>
    rw [List.foldl_cons, List.flatMap_cons, ← List.append_assoc]
    exact ih (h.foldl_addImage (s.imagesFor group))

/-- All that the steps use, configuration by configuration and step by step. -/
def used (groups : List C) : List String :=
  groups.flatMap fun group =>
    s.steps.flatMap fun r => if r.step.applies group then r.step.images group else []

theorem imagesFor_eq (group : C) : s.imagesFor group =
    s.steps.flatMap fun r => if r.step.applies group then r.step.images group else [] := by
  unfold imagesFor
  induction s.steps with
  | nil => rfl
  | cons r steps ih =>
    by_cases h : r.step.applies group <;> simp [h, ih]

theorem firstOccurrences_images (groups : List C) :
    FirstOccurrences (s.images groups) (s.used groups) := by
  have h := FirstOccurrences.nil.foldl_imagesFor s groups
  have hused : groups.flatMap s.imagesFor = s.used groups :=
    congrArg groups.flatMap (funext s.imagesFor_eq)
  rwa [List.nil_append, hused] at h

theorem mem_used_iff {groups : List C} {image : String} : image ∈ s.used groups ↔
    ∃ group ∈ groups, ∃ r ∈ s.steps, r.step.applies group = true ∧ image ∈ r.step.images group := by
  simp only [used, List.mem_flatMap, List.mem_ite_nil_right]

/-- The images of several configurations are what the steps that apply use, each once, in the order in
which they come first, and no other list is that. The images of more configurations come after them,
without those that were there before. -/
theorem images_of_groups :
    (∀ groups, (s.images groups).Nodup ∧
      (∀ image, image ∈ s.images groups ↔ ∃ group ∈ groups, ∃ r ∈ s.steps,
        r.step.applies group = true ∧ image ∈ r.step.images group) ∧
      FirstOccurrences (s.images groups) (s.used groups) ∧
      ∀ l, FirstOccurrences l (s.used groups) → l = s.images groups) ∧
    ∀ a b, s.images (a ++ b) = s.images a ++ (s.images b).filter fun x => x ∉ s.images a := by
  refine ⟨fun groups => ?_, fun a b => ?_⟩
  · have h := s.firstOccurrences_images groups
    exact ⟨h.nodup, fun image => (h.mem_iff image).trans s.mem_used_iff, h, fun l hl => hl.eq h⟩
  · have both := (s.firstOccurrences_images a).append (s.firstOccurrences_images b)
    have hused : s.used (a ++ b) = s.used a ++ s.used b := List.flatMap_append
    rw [← hused] at both
    exact (s.firstOccurrences_images (a ++ b)).eq both

example : Scheduler.images (C := Nat) ⟨0, [⟨⟨"a", fun _ => true, fun _ => .artifact none,
      fun n => if n = 0 then ["x", "y", "x"] else ["z", "y"]⟩, .sync⟩]⟩ [0, 1] = ["x", "y", "z"] := by
  decide

end Scheduler
end ContainerBuild
