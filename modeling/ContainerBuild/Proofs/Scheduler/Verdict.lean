import ContainerBuild.Proofs.Scheduler.History

/-!
# One result for all runs

When a run is over, all of the plan is dispatched and settled. Tasks are joined in any order, so their
failures are found in any order; sorted by the places of the steps they begin with the failure of the
first task that fails. So the result is the verdict on the plan, whatever moves were chosen.
-/

namespace ContainerBuild
namespace Scheduler

variable {C : Type}

theorem findSome?_mapIdx {α β γ : Type} {f : Nat → α → β} {g : β → Option γ} {g' : α → Option γ}
    (h : ∀ i a, g (f i a) = g' a) (l : List α) : (l.mapIdx f).findSome? g = l.findSome? g' := by
  induction l generalizing f with
  | nil => rfl
  | cons a l ih =>
    rw [List.mapIdx_cons, List.findSome?_cons, List.findSome?_cons, h, ih fun i => h (i + 1)]

def errorOf (failure : String × String) : BuildError :=
  .stepFailed failure.1 failure.2

theorem findSome?_failure? (mode : StepMode) (config : C) (plan : List (Registered C)) :
    plan.findSome? (Registered.failure? mode config) =
      ((tasksOf config plan).findSome? (Task.failureIn mode)).map errorOf := by
  rw [List.map_findSome?, tasksOf]
  refine (findSome?_mapIdx (fun i e => ?_) plan).symm
  by_cases hm : e.mode = mode
  · simp only [Function.comp, Task.failureIn, Task.failure?, Task.error?, Registered.failure?,
      mode_task, name_task, ending_task, hm, if_true, Option.map_map]
    rfl
  · simp [Function.comp, Task.failureIn, Registered.failure?, hm]

theorem map_outcome {config : C} {plan : List (Registered C)}
    (h : ∀ t ∈ tasksOf config plan, t.error? = none) :
    (tasksOf config plan).map Task.outcome = plan.map (Registered.outcome config) := by
  have ht : ∀ t ∈ tasksOf config plan,
      t.outcome = ⟨t.name, t.mode, .completed, t.ending.artifact?, none, none⟩ := by
    intro t ht
    simp [Task.outcome, h t ht]
  rw [List.map_congr_left ht]
  rw [map_tasksOf]
  apply List.ext_getElem?
  intro i
  rw [List.getElem?_mapIdx, List.getElem?_map]
  rfl

/-- The first of the failures of tasks, by the places of their steps. -/
def firstFailure? (failures : List (Nat × String × String)) : Option (String × String) :=
  ((failures.mergeSort fun a b => a.1 ≤ b.1).head?).map Prod.snd

theorem firstFailure?_eq_none {failures : List (Nat × String × String)}
    (h : firstFailure? failures = none) : failures = [] := by
  have hs : failures.mergeSort (fun a b => a.1 ≤ b.1) = [] := by
    simpa [firstFailure?] using h
  exact List.Perm.eq_nil (hs ▸ (List.mergeSort_perm failures _).symm)

theorem firstFailure?_eq_some {failures : List (Nat × String × String)} {x : String × String}
    (h : firstFailure? failures = some x) :
    ∃ i, (i, x) ∈ failures ∧ ∀ y ∈ failures, i ≤ y.1 := by
  have hsorted : (failures.mergeSort fun a b => a.1 ≤ b.1).Pairwise fun a b =>
      decide (a.1 ≤ b.1) = true := by
    apply List.pairwise_mergeSort
    · intro a b c
      simpa using Nat.le_trans
    · intro a b
      simpa using Nat.le_total a.1 b.1
  have hmem := fun y => (List.mergeSort_perm failures fun a b => a.1 ≤ b.1).mem_iff (a := y)
  unfold firstFailure? at h
  cases hs : failures.mergeSort (fun a b => a.1 ≤ b.1) with
  | nil => simp [hs] at h
  | cons z rest =>
    rw [hs] at h hsorted hmem
    obtain rfl : z.2 = x := by simpa using h
    refine ⟨z.1, (hmem z).1 (by simp), fun y hy => ?_⟩
    rcases List.mem_cons.1 ((hmem y).2 hy) with rfl | hr
    · exact Nat.le_refl _
    · simpa using List.rel_of_pairwise_cons hsorted hr

namespace Run

variable {config : C} {plan done : List (Registered C)} {settled : List Task} {r : Run C}

namespace Ledger

/-- The failures that were found begin with that of the first task that fails. -/
theorem findSome?_async (h : Ledger config plan done settled r)
    (hs : settled.Perm (tasksOf config done)) :
    (tasksOf config done).findSome? (Task.failureIn .async) = firstFailure? r.taskFailures := by
  have hmem : ∀ t ∈ tasksOf config done, ∀ x, Task.failureIn .async t = some x →
      (t.index, x) ∈ r.taskFailures := by
    intro t ht x hx
    rw [h.taskFailures_iff t.index x.1 x.2]
    unfold Task.failureIn at hx
    split at hx
    · obtain ⟨reason, he, rfl⟩ := Option.map_eq_some_iff.1 hx
      exact ⟨t, hs.mem_iff.2 ht, ‹_›, rfl, rfl, he⟩
    · simp at hx
  cases hf : firstFailure? r.taskFailures with
  | none =>
    rw [List.findSome?_eq_none_iff]
    intro t ht
    cases hx : Task.failureIn .async t with
    | none => rfl
    | some x =>
      have := hmem t ht x hx
      simp [firstFailure?_eq_none hf] at this
  | some x =>
    obtain ⟨i, hi, hleast⟩ := firstFailure?_eq_some hf
    obtain ⟨t, ht, hm, rfl, hn, he⟩ := (h.taskFailures_iff i x.1 x.2).1 hi
    have hget := getElem?_of_mem (hs.mem_iff.1 ht)
    obtain ⟨hsplit, -⟩ := split_of_getElem? hget
    refine List.findSome?_eq_some_iff.2 ⟨_, t, _, hsplit, ?_, fun u hu => ?_⟩
    · simp [Task.failureIn, Task.failure?, hm, he, hn]
    · cases hx : Task.failureIn .async u with
      | none => rfl
      | some y =>
        have hle := hleast _ (hmem u (List.mem_of_mem_take hu) y hx)
        obtain ⟨j, hj, hju⟩ := List.mem_take_iff_getElem.1 hu
        have := index_of_getElem? (List.getElem?_eq_some_iff.2 ⟨_, hju⟩)
        omega

theorem result_eq (r : Run C) :
    r.result =
      match r.failure with
      | some x => .error (errorOf x)
      | none =>
        match firstFailure? r.taskFailures with
        | some x => .error (errorOf x)
        | none => .ok r.outcomes := by
  unfold result firstFailure?
  cases r.failure with
  | some x => rfl
  | none => cases r.taskFailures.mergeSort fun a b => a.1 ≤ b.1 <;> rfl

/-- A run that is over has the result that the plan has. -/
theorem result_of_over (h : Ledger config plan done settled r) (ho : r.isOver = true) :
    r.result.map (List.map StepOutcome.untimed) = verdictOn config plan := by
  obtain ⟨hi, -, -⟩ := (isOver_iff r).1 ho
  obtain ⟨rfl, hs⟩ := h.complete_of_isOver ho
  have hsync : (tasksOf config done).findSome? (Task.failureIn .sync) = r.failure := by
    rw [h.failing_eq, failing, hi]
    simp
  have hasync := h.findSome?_async hs
  rw [result_eq, verdictOn, findSome?_failure?, findSome?_failure?, hsync, hasync]
  cases hf : r.failure with
  | some x => rfl
  | none =>
    cases ht : firstFailure? r.taskFailures with
    | some x => rfl
    | none =>
      have hnone : ∀ t ∈ tasksOf config done, t.error? = none := by
        intro t htask
        rw [hf, List.findSome?_eq_none_iff] at hsync
        rw [ht, List.findSome?_eq_none_iff] at hasync
        have hsync := hsync t htask
        have hasync := hasync t htask
        unfold Task.failureIn Task.failure? at hsync hasync
        cases hm : t.mode <;> simp_all
      have hall : ∀ t ∈ tasksOf config done, Task.standing settled t = t.outcome := by
        intro t htask
        simp [Task.standing, hs.mem_iff.2 htask]
      simp only [Except.map, Option.map_none]
      rw [h.outcomes_eq, List.map_congr_left hall, map_outcome hnone]

end Ledger
end Run

open Run

/-- Every way in which a run can go ends with the verdict on its plan, apart from the moments in the
outcomes. A run that is not over can go on, and none makes more moves than it has work at its start. -/
theorem result_of_moves (s : Scheduler C) (only : Option String) {choices : List Choice} {r : Run C}
    (h : (s.start only).moves choices = some r) :
    (r.isOver = true → r.result.map (List.map StepOutcome.untimed) = s.verdict only) ∧
      (r.isOver = false → ∃ c next, r.move c = some next) ∧
      choices.length ≤ (s.start only).work ∧
      (s.run only).map (List.map StepOutcome.untimed) = s.verdict only := by
  refine ⟨fun ho => ?_, fun ho => ?_, ?_, ?_⟩
  · obtain ⟨done, settled, hl, -⟩ := exists_account s only h
    exact hl.result_of_over ho
  · exact ⟨r.firstChoice, Option.isSome_iff_exists.1 (isSome_move_firstChoice ho)⟩
  · exact Nat.le_of_add_right_le (length_add_work_le h)
  · obtain ⟨all, hall, ho⟩ := exists_moves_complete (s.start only)
    obtain ⟨done, settled, hl, -⟩ := exists_account s only hall
    exact hl.result_of_over ho

/-- Two tasks fail, the later one is joined first, and the error is that of the earlier one. -/
theorem result_of_two_failures :
    let s : Scheduler Unit := ⟨(), [⟨.always "a" fun _ => .failure "x", .async⟩,
      ⟨.always "b" fun _ => .artifact none, .sync⟩, ⟨.always "c" fun _ => .panic .other, .async⟩]⟩
    let choices : List Choice := [.advance, .advance, .begin 0, .advance, .advance, .begin 0,
      .finish 1, .join 0, .finish 0, .join 0]
    ∃ r, (s.start none).moves choices = some r ∧ r.isOver = true ∧
      r.result.map (List.map StepOutcome.untimed) = .error (.stepFailed "a" "x") := by
  intro s choices
  have hr : ∃ r, (s.start none).moves choices = some r ∧ r.isOver = true := ⟨_, rfl, rfl⟩
  obtain ⟨r, hm, ho⟩ := hr
  exact ⟨r, hm, ho, (result_of_moves s none hm).1 ho⟩

end Scheduler
end ContainerBuild
