import ContainerBuild.Proofs.Scheduler.Ledger

/-!
# What is seen of a run

A run is seen to start and to end steps. Each dispatched step that has started did so once, each that
has ended did so once and after its start, and an inline step starts when all inline steps before it
have ended. When a run is over nothing else was seen and every step of the plan has ended, also those
that ran beside an inline step that failed.
-/

namespace ContainerBuild
namespace Scheduler

variable {C : Type}

namespace Happening

def isStart : Happening → Bool
  | started .. => true
  | ended .. => false

end Happening

namespace Task

def starts (t : Task) : Happening :=
  .started t.index t.name t.mode

def ends (t : Task) : Happening :=
  .ended t.index t.name

theorem filter_starts (l : List Happening) (t : Task) :
    (l ++ [t.starts]).filter Happening.isStart = l.filter Happening.isStart ++ [t.starts] ∧
      (l ++ [t.starts]).filter (fun x => !x.isStart) = l.filter fun x => !x.isStart := by
  simp [starts, Happening.isStart]

theorem filter_ends (l : List Happening) (t : Task) :
    (l ++ [t.ends]).filter Happening.isStart = l.filter Happening.isStart ∧
      (l ++ [t.ends]).filter (fun x => !x.isStart) = l.filter (fun x => !x.isStart) ++ [t.ends] := by
  simp [ends, Happening.isStart]

end Task

/-- What must have been seen before a happening: the start of a step before its end, and the ends of the
inline steps before an inline one. -/
def Happening.Due (tasks : List Task) (seen : List Happening) : Happening → Prop
  | .started i _ .sync => ∀ t ∈ tasks, t.mode = .sync → t.index < i → t.ends ∈ seen
  | .started _ _ .async => True
  | .ended i name => ∃ mode, .started i name mode ∈ seen

/-- Happenings of which each comes after what it is due to. -/
def Orderly (tasks : List Task) (happenings : List Happening) : Prop :=
  ∀ seen x later, happenings = seen ++ x :: later → x.Due tasks seen

theorem Orderly.concat {tasks : List Task} {happenings : List Happening} {x : Happening}
    (h : Orderly tasks happenings) (hx : x.Due tasks happenings) :
    Orderly tasks (happenings ++ [x]) := by
  intro seen y later heq
  rcases List.eq_nil_or_concat later with rfl | ⟨later, z, rfl⟩
  · obtain ⟨rfl, hy⟩ := List.append_inj' heq rfl
    obtain rfl : x = y := by simpa using hy
    exact hx
  · rw [List.concat_eq_append, ← List.cons_append, ← List.append_assoc] at heq
    exact h seen y later (List.append_inj' heq rfl).1

theorem eq_of_index {config : C} {done : List (Registered C)} {t u : Task}
    (ht : t ∈ tasksOf config done) (hu : u ∈ tasksOf config done) (h : t.index = u.index) : t = u := by
  have := getElem?_of_mem ht
  rw [h, getElem?_of_mem hu] at this
  exact (Option.some.inj this).symm

theorem mem_tasksOf_of_index_lt {config : C} {done more : List (Registered C)} {t : Task}
    (h : t ∈ tasksOf config (done ++ more)) (hlt : t.index < done.length) :
    t ∈ tasksOf config done := by
  have hget := getElem?_of_mem h
  rw [tasksOf, List.getElem?_mapIdx, List.getElem?_append_left hlt] at hget
  refine List.mem_of_getElem? (i := t.index) ?_
  rw [tasksOf, List.getElem?_mapIdx, hget]

namespace Run

/-- What was seen of a run in which some steps of a plan were dispatched. -/
structure Recounts (config : C) (plan done : List (Registered C)) (r : Run C) : Prop where
  started : (r.happenings.filter Happening.isStart ++ r.waiting.map Task.starts).Perm
    ((tasksOf config done).map Task.starts)
  ended : (r.happenings.filter (fun x => !x.isStart) ++
    (r.inline.toList ++ r.waiting ++ r.running).map Task.ends).Perm
      ((tasksOf config done).map Task.ends)
  orderly : Orderly (tasksOf config plan) r.happenings

variable {config : C} {plan done : List (Registered C)} {settled : List Task} {r : Run C}

namespace Ledger

theorem nodup_unsettled (h : Ledger config plan done settled r) : r.unsettled.Nodup :=
  (List.nodup_append.1 (h.perm.nodup_iff.2 (nodup_tasksOf config done))).2.1

theorem starts_mem (h : Ledger config plan done settled r) (hr : Recounts config plan done r)
    {t : Task} (ht : t ∈ r.unsettled) (hw : t ∉ r.waiting) : t.starts ∈ r.happenings := by
  have hmem : t.starts ∈ r.happenings.filter Happening.isStart ++ r.waiting.map Task.starts :=
    hr.started.mem_iff.2 (List.mem_map_of_mem (h.mem_tasksOf ht))
  rcases List.mem_append.1 hmem with hs | hs
  · exact (List.mem_filter.1 hs).1
  · obtain ⟨u, hu, heq⟩ := List.mem_map.1 hs
    have hun : u ∈ r.unsettled := by simp [unsettled, hu]
    obtain rfl := eq_of_index (h.mem_tasksOf hun) (h.mem_tasksOf ht) (Happening.started.inj heq).1
    exact absurd hu hw

theorem ends_mem (h : Ledger config plan done settled r) (hr : Recounts config plan done r)
    (hi : r.inline = none) {t : Task} (ht : t ∈ tasksOf config done) (hm : t.mode = .sync) :
    t.ends ∈ r.happenings := by
  have hmem := hr.ended.mem_iff.2 (List.mem_map_of_mem (f := Task.ends) ht)
  rcases List.mem_append.1 hmem with hs | hs
  · exact (List.mem_filter.1 hs).1
  · obtain ⟨u, hu, heq⟩ := List.mem_map.1 hs
    have hu : u ∈ r.waiting ++ r.running := by simpa [hi] using hu
    have hun : u ∈ r.waiting ++ r.running ++ r.ended := List.mem_append_left _ hu
    have hut := h.mem_tasksOf (t := u) (by simpa [unsettled, hi] using hun)
    obtain rfl := eq_of_index hut ht (Happening.ended.inj heq).1
    simp [h.task_mode u hun] at hm

end Ledger

namespace Recounts

theorem start (config : C) (plan steps : List (Registered C)) (only : Option String) :
    Recounts config plan [] (Run.start config steps only) where
  started := .refl _
  ended := .refl _
  orderly := by
    intro seen x later h
    simp [Run.start] at h

theorem dispatchInline (hr : Recounts config plan done r) (h : Ledger config plan done settled r)
    {e : Registered C} (hi : r.inline = none) (hm : e.mode = .sync)
    (rest : List (Registered C)) (outcomes : List StepOutcome) (now : Nat) :
    Recounts config plan (done ++ [e]) { r with
      pending := rest
      outcomes := outcomes
      inline := some (e.task r.config r.outcomes.length)
      happenings := r.happenings ++ [.started r.outcomes.length e.step.name .sync]
      now := now } := by
  have hl := h.length_outcomes
  have hs := hr.started
  have he := hr.ended
  have hends := fun t => h.ends_mem hr hi (t := t)
  have hplan := h.plan_eq
  obtain rfl := h.config_eq
  have hx : Happening.started r.outcomes.length e.step.name .sync =
      (e.task r.config done.length).starts := by simp [Task.starts, hl, hm]
  obtain ⟨hstart, hend⟩ := Task.filter_starts r.happenings (e.task r.config done.length)
  refine ⟨?_, ?_, hr.orderly.concat ?_⟩
  · rw [hx, hstart, map_tasksOf_concat, List.append_assoc]
    exact perm_added hs (.refl _)
  · rw [hx, hend, hl, map_tasksOf_concat]
    refine perm_added he ?_
    simp [hi]
  · intro t ht htm hlt
    rw [hl] at hlt
    rw [hplan] at ht
    exact hends t (mem_tasksOf_of_index_lt ht hlt) htm

theorem dispatchTask (hr : Recounts config plan done r) (h : Ledger config plan done settled r)
    (e : Registered C) (rest : List (Registered C)) (outcomes : List StepOutcome) (now : Nat) :
    Recounts config plan (done ++ [e]) { r with
      pending := rest
      outcomes := outcomes
      waiting := r.waiting ++ [e.task r.config r.outcomes.length]
      now := now } := by
  have hl := h.length_outcomes
  have hs := hr.started
  have he := hr.ended
  obtain rfl := h.config_eq
  refine ⟨?_, ?_, hr.orderly⟩
  · rw [hl, map_tasksOf_concat]
    refine perm_added hs ?_
    rw [List.map_append]
    exact List.perm_append_singleton _ _
  · rw [hl, map_tasksOf_concat]
    refine perm_added he ?_
    have := perm_middle_between r.inline.toList r.waiting [] r.running (e.task r.config done.length)
    simpa using this.map Task.ends

/-- The inline step ends, well or not. -/
theorem endInline (hr : Recounts config plan done r) (h : Ledger config plan done settled r)
    {t : Task} (hi : r.inline = some t) (pending : List (Registered C)) (outcomes : List StepOutcome)
    (failure : Option (String × String)) (now : Nat) :
    Recounts config plan done { r with
      pending := pending
      outcomes := outcomes
      inline := none
      failure := failure
      happenings := r.happenings ++ [.ended t.index t.name]
      now := now } := by
  have he := hr.ended
  have hw : t ∉ r.waiting := by
    intro hw
    have := h.task_mode t (by simp [hw])
    simp [h.inline_mode t hi] at this
  have hseen := h.starts_mem hr (by simp [unsettled, hi]) hw
  have hx : Happening.ended t.index t.name = t.ends := rfl
  obtain ⟨hstart, hend⟩ := Task.filter_ends r.happenings t
  refine ⟨?_, ?_, hr.orderly.concat ⟨t.mode, hseen⟩⟩
  · rw [hx, hstart]
    exact hr.started
  · rw [hx, hend]
    refine perm_moved he ?_
    simp [hi]

theorem begin (hr : Recounts config plan done r) (h : Ledger config plan done settled r) {t : Task}
    {l l' : List Task} (hw : r.waiting = l ++ t :: l') (now : Nat) :
    Recounts config plan done { r with
      waiting := l ++ l'
      running := r.running ++ [t]
      happenings := r.happenings ++ [.started t.index t.name t.mode]
      now := now } := by
  have hs := hr.started
  have he := hr.ended
  have hm := h.task_mode t (by simp [hw])
  have hx : Happening.started t.index t.name t.mode = t.starts := rfl
  obtain ⟨hstart, hend⟩ := Task.filter_starts r.happenings t
  refine ⟨?_, ?_, hr.orderly.concat (by rw [hm]; trivial)⟩
  · rw [hx, hstart]
    refine perm_moved hs ?_
    rw [hw]
    exact List.perm_middle.map Task.starts
  · rw [hx, hend]
    refine .trans (.append_left _ (.map _ ?_)) he
    rw [hw]
    simpa only [List.append_assoc] using (perm_passed l l' r.running t).append_left r.inline.toList

theorem finish (hr : Recounts config plan done r) (h : Ledger config plan done settled r) {t : Task}
    {l l' : List Task} (hrun : r.running = l ++ t :: l') (now : Nat) :
    Recounts config plan done { r with
      running := l ++ l'
      ended := r.ended ++ [t]
      happenings := r.happenings ++ [.ended t.index t.name]
      now := now } := by
  have he := hr.ended
  have hw : t ∉ r.waiting := by
    intro hw
    have hn := h.nodup_unsettled
    simp only [unsettled, hrun, List.append_assoc] at hn
    have := (List.nodup_append.1 (List.nodup_append.1 hn).2.1).2.2 t hw t (by simp)
    exact this rfl
  have hseen := h.starts_mem hr (by simp [unsettled, hrun]) hw
  have hx : Happening.ended t.index t.name = t.ends := rfl
  obtain ⟨hstart, hend⟩ := Task.filter_ends r.happenings t
  refine ⟨?_, ?_, hr.orderly.concat ⟨t.mode, hseen⟩⟩
  · rw [hx, hstart]
    exact hr.started
  · rw [hx, hend]
    refine perm_moved he ?_
    rw [hrun, ← List.append_assoc, ← List.append_assoc]
    exact List.perm_middle.map Task.ends

end Recounts

/-- Every move keeps the ledger of a run and what was seen of it, with further steps dispatched or
settled. -/
theorem Step.account {config : C} {plan : List (Registered C)} {r r' : Run C} (hs : Step r r')
    (h : ∃ done settled, Ledger config plan done settled r ∧ Recounts config plan done r) :
    ∃ done settled, Ledger config plan done settled r' ∧ Recounts config plan done r' := by
  obtain ⟨done, settled, h, hr⟩ := h
  cases hs with
  | skip hi hp ha => exact ⟨_, _, h.skip hp ha, { hr with }⟩
  | dispatchInline hi hp ha hm =>
    exact ⟨_, _, h.dispatchInline hi hp ha hm, hr.dispatchInline h hi hm _ _ _⟩
  | dispatchTask hi hp ha hm => exact ⟨_, _, h.dispatchTask hi hp ha hm, hr.dispatchTask h _ _ _ _⟩
  | inlineDone hi he =>
    have hf := h.failure_eq_none_of_inline hi
    exact ⟨_, _, h.settleInline hi (by simp [hf, Task.failure?, he]) (by simp [hf]),
      hr.endInline h hi _ _ _ _⟩
  | inlineFailed hi he =>
    exact ⟨_, _, h.settleInline hi (by simp [Task.failure?, he]) rfl, hr.endInline h hi _ _ _ _⟩
  | begin hw => exact ⟨_, _, h.begin hw, hr.begin h hw _⟩
  | finish hrun => exact ⟨_, _, h.finish hrun, hr.finish h hrun _⟩
  | joinDone hi hp hd he => exact ⟨_, _, h.joinDone hd he, { hr with }⟩
  | joinFailed hi hp hd he => exact ⟨_, _, h.joinFailed hd he, { hr with }⟩

end Run

open Run

/-- Whatever moves a scheduler has made, its ledger is kept and so is what was seen of the run. -/
theorem exists_account (s : Scheduler C) (only : Option String) {choices : List Choice} {r : Run C}
    (h : (s.start only).moves choices = some r) :
    ∃ done settled, Ledger s.config (s.plan only) done settled r ∧
      Recounts s.config (s.plan only) done r :=
  moves_induction (fun _ _ hs => hs.account) h
    ⟨[], [], .start s.config s.steps only, .start s.config _ s.steps only⟩

/-- When a run is over, each step of the plan has started once and has ended once after that, whichever
of them failed, and no other step has started. An inline step has started when the inline steps before
it had ended. -/
theorem happenings_of_over (s : Scheduler C) (only : Option String) {choices : List Choice}
    {r : Run C} (h : (s.start only).moves choices = some r) (ho : r.isOver = true) :
    (r.happenings.filter Happening.isStart).Perm
        ((s.plan only).mapIdx fun i e => .started i e.step.name e.mode) ∧
      (r.happenings.filter fun x => !x.isStart).Perm
        ((s.plan only).mapIdx fun i e => .ended i e.step.name) ∧
      Orderly (tasksOf s.config (s.plan only)) r.happenings := by
  obtain ⟨done, settled, hl, hr⟩ := exists_account s only h
  obtain ⟨hi, -, hu⟩ := (isOver_iff r).1 ho
  obtain ⟨rfl, -⟩ := hl.complete_of_isOver ho
  simp only [unsettled, List.append_eq_nil_iff] at hu
  obtain ⟨⟨⟨-, hw⟩, hrun⟩, -⟩ := hu
  have hstart := hr.started
  have hend := hr.ended
  rw [hw, List.map_nil, List.append_nil, map_tasksOf] at hstart
  rw [hi, hw, hrun, map_tasksOf, Option.toList_none, List.append_nil, List.append_nil, List.map_nil,
    List.append_nil] at hend
  exact ⟨hstart, hend, hr.orderly⟩

theorem happenings_beside_failure :
    let s : Scheduler Unit := ⟨(), [⟨.always "a" fun _ => .artifact none, .async⟩,
      ⟨.always "b" fun _ => .failure "x", .sync⟩, ⟨.always "c" fun _ => .artifact none, .sync⟩]⟩
    let choices : List Choice := [.advance, .advance, .advance, .begin 0, .finish 0, .join 0]
    ∃ r, (s.start none).moves choices = some r ∧ r.isOver = true ∧
      (r.happenings.filter Happening.isStart).Perm [.started 0 "a" .async, .started 1 "b" .sync] ∧
      (r.happenings.filter fun x => !x.isStart).Perm [.ended 0 "a", .ended 1 "b"] := by
  intro s choices
  have hr : ∃ r, (s.start none).moves choices = some r ∧ r.isOver = true := ⟨_, rfl, rfl⟩
  obtain ⟨r, hm, ho⟩ := hr
  have h := happenings_of_over s none hm ho
  exact ⟨r, hm, ho, h.1, h.2.1⟩

end Scheduler
end ContainerBuild
