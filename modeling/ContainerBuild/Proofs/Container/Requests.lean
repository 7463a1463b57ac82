import ContainerBuild.Docker.ContainerBody
import ContainerBuild.Podman.Specification
import ContainerBuild.Proofs.Container.EnvironmentForms
import ContainerBuild.Proofs.Container.MountOptions

/-!
# Two requests for one container

Both daemons are asked for the same container, or for none. What one request says of a mount in a
record the other says in words, in one of two lists; each volume has its place in both, and they agree
on it.
-/

namespace ContainerBuild

open MountOptions

namespace Docker.BodyMount

def kind (m : BodyMount) : VolumeKind :=
  match m.detail with
  | .bind _ => .bind
  | .volume _ => .volume
  | .tmpfs .. => .tmpfs

/-- What a mount says of itself besides its kind and its two ends. -/
def options (m : BodyMount) : MountOptions :=
  match m.detail with
  | .bind propagation =>
    { MountOptions.none with readOnly := m.readOnly, propagation := propagation }
  | .volume noCopy => { MountOptions.none with readOnly := m.readOnly, noCopy := noCopy }
  | .tmpfs size mode =>
    { MountOptions.none with readOnly := m.readOnly, tmpfsSize := size, tmpfsMode := mode }

theorem kind_ofVolume (v : Volume) (o : MountOptions) : (ofVolume v o).kind = v.kind := by
  cases hk : v.kind <;> simp [kind, ofVolume, hk]

/-- No option of a volume is lost if all belong to its kind. -/
theorem options_ofVolume {v : Volume} {o : MountOptions} (h : OfKind v.kind o) :
    (ofVolume v o).options = o := by
  obtain ⟨readOnly, propagation, noCopy, size, mode⟩ := o
  obtain ⟨hp, hn, hs, hm⟩ := h
  cases hk : v.kind with
  | bind =>
    simp only [hk, ne_eq, reduceCtorEq, not_false_eq_true, forall_const] at hn hs hm
    simp [options, ofVolume, hk, MountOptions.none, hn, hs, hm]
  | volume =>
    simp only [hk, ne_eq, reduceCtorEq, not_false_eq_true, forall_const] at hp hs hm
    simp [options, ofVolume, hk, MountOptions.none, hp, hs, hm]
  | tmpfs =>
    simp only [hk, ne_eq, reduceCtorEq, not_false_eq_true, forall_const] at hp hn
    simp [options, ofVolume, hk, MountOptions.none, hp, hn]

theorem ofVolumes_eq_mapM (vs : List Volume) :
    ofVolumes vs = vs.mapM fun v => (parse v).map (ofVolume v) := by
  induction vs with
  | nil => rfl
  | cons v vs ih =>
    rw [List.mapM_cons, ← ih, ofVolumes]
    cases parse v <;> rfl

end Docker.BodyMount

namespace Podman.SpecVolume

theorem ofVolumes_eq_mapM (vs : List Volume) :
    ofVolumes vs = vs.mapM fun v => (parse v).map (ofVolume v) := by
  induction vs with
  | nil => rfl
  | cons v vs ih =>
    rw [List.mapM_cons, ← ih, ofVolumes]
    cases parse v <;> rfl

end Podman.SpecVolume

/-- The error of the first flaw of a declaration: that of its first bad entry, or else that of the first
bad option of its first bad volume. -/
inductive ContainerConfig.FirstFlaw (c : ContainerConfig) : BuildError → Prop
  | entry {entry : String} (first : FirstWithout Environment.IsEntry c.env entry) :
      FirstFlaw c (.invalidEnv entry)
  | option {v : Volume} {option reason : String} (entries : ∀ e ∈ c.env, Environment.IsEntry e)
      (volume : FirstWithout Accepted c.volumes v)
      (first : FirstWithout (Allowed v.kind) v.options option) :
      FirstFlaw c (.invalidMount v.target option reason)

namespace Requests

open Docker Podman

variable {v : Volume} {vs : List Volume}

/-- A mount in a record says the same of a volume as one with a target, a kind, a source and words. -/
structure Agree (v : Volume) (m : BodyMount) (target : String) (kind : VolumeKind) (source : String)
    (words : List String) : Prop where
  target : m.target = v.target ∧ target = v.target
  kind : m.kind = v.kind ∧ kind = v.kind
  source : v.source ≠ "" → m.source = some v.source ∧ source = v.source
  options : parse v = .ok m.options
  words : Says words m.options

/-- What a record and a member of one of the two lists say of a volume that belongs there. -/
def AgreeIn (v : Volume) (m : BodyMount) : SpecVolume → Prop
  | .mount s => v.kind ≠ .volume ∧ Agree v m s.destination s.kind s.source s.options
  | .named s => v.kind = .volume ∧ Agree v m s.dest .volume s.name s.options

/-- The mounts of the two requests, volume by volume: the first has one for each, and the lists of the
second have one each for those that are not named and those that are. -/
structure Correspond (vs : List Volume) (ms : List BodyMount) (mounts : List SpecMount)
    (named : List NamedVolume) : Prop where
  length : ms.length = vs.length
  mounts : List.Forall₂ (fun p s => Agree p.1 p.2 s.destination s.kind s.source s.options)
    ((vs.zip ms).filter fun p => p.1.kind ≠ .volume) mounts
  named : List.Forall₂ (fun p s => Agree p.1 p.2 s.dest .volume s.name s.options)
    ((vs.zip ms).filter fun p => p.1.kind = .volume) named

theorem agreeIn_ofVolume {o : MountOptions} (h : parse v = .ok o) (ho : OfKind v.kind o) :
    AgreeIn v (BodyMount.ofVolume v o) (SpecVolume.ofVolume v o) := by
  have options := BodyMount.options_ofVolume ho
  have kinds := BodyMount.kind_ofVolume v o
  have said : Says o.render (BodyMount.ofVolume v o).options := by
    rw [options]
    exact says_render o
  have source (hs : v.source ≠ "") : (BodyMount.ofVolume v o).source = some v.source := by
    simp [BodyMount.ofVolume, hs]
  rw [← options] at h
  cases hk : v.kind with
  | bind =>
    rw [SpecVolume.ofVolume, hk]
    refine ⟨by simp [hk], ⟨rfl, rfl⟩, ⟨kinds, hk.symm⟩, fun hs => ⟨source hs, rfl⟩, h, said⟩
  | volume =>
    rw [SpecVolume.ofVolume, hk]
    refine ⟨hk, ⟨rfl, rfl⟩, ⟨kinds, hk.symm⟩, fun hs => ⟨source hs, rfl⟩, h, said⟩
  | tmpfs =>
    rw [SpecVolume.ofVolume, hk]
    refine ⟨by simp [hk], ⟨rfl, rfl⟩, ⟨kinds, hk.symm⟩, fun hs => ⟨source hs, ?_⟩, h, said⟩
    simp [hs]

/-- All volumes are given to both requests if all are accepted. -/
theorem exists_mounts (h : ∀ v ∈ vs, Accepted v) : ∃ ms ss, BodyMount.ofVolumes vs = .ok ms ∧
    SpecVolume.ofVolumes vs = .ok ss ∧
      Correspond vs ms (ss.filterMap SpecVolume.mount?) (ss.filterMap SpecVolume.named?) := by
  induction vs with
  | nil => exact ⟨[], [], rfl, rfl, rfl, .nil, .nil⟩
  | cons v vs ih =>
    obtain ⟨hv, hvs⟩ := List.forall_mem_cons.1 h
    obtain ⟨ms, ss, hms, hss, length, mounts, named⟩ := ih hvs
    obtain ⟨o, hparse, ho⟩ := parse_of_accepted hv
    refine ⟨BodyMount.ofVolume v o :: ms, SpecVolume.ofVolume v o :: ss, ?_, ?_, ?_⟩
    · rw [BodyMount.ofVolumes, hparse, hms]
      rfl
    · rw [SpecVolume.ofVolumes, hparse, hss]
      rfl
    · have agree := agreeIn_ofVolume hparse ho
      cases hs : SpecVolume.ofVolume v o with
      | mount s =>
        rw [hs] at agree
        obtain ⟨hk, agree⟩ := agree
        rw [List.filterMap_cons_some (show SpecVolume.mount? (.mount s) = some s from rfl),
          List.filterMap_cons_none (show SpecVolume.named? (.mount s) = .none from rfl)]
        refine ⟨by simp [length], ?_, ?_⟩
        · rw [List.zip_cons_cons, List.filter_cons, if_pos (by simpa using hk)]
          exact .cons agree mounts
        · rw [List.zip_cons_cons, List.filter_cons, if_neg (by simpa using hk)]
          exact named
      | named s =>
        rw [hs] at agree
        obtain ⟨hk, agree⟩ := agree
        rw [List.filterMap_cons_none (show SpecVolume.mount? (.named s) = .none from rfl),
          List.filterMap_cons_some (show SpecVolume.named? (.named s) = some s from rfl)]
        refine ⟨by simp [length], ?_, ?_⟩
        · rw [List.zip_cons_cons, List.filter_cons, if_neg (by simpa using hk)]
          exact mounts
        · rw [List.zip_cons_cons, List.filter_cons, if_pos (by simpa using hk)]
          exact .cons agree named

/-- The first volume that is not accepted is refused by both requests, with the same error. -/
theorem ofVolumes_of_firstWithout {option : String} (volume : FirstWithout Accepted vs v)
    (first : FirstWithout (Allowed v.kind) v.options option) : ∃ reason,
      BodyMount.ofVolumes vs = .error (.invalidMount v.target option reason) ∧
        SpecVolume.ofVolumes vs = .error (.invalidMount v.target option reason) := by
  obtain ⟨reason, refused⟩ := parse_of_firstWithout first
  refine ⟨reason, ?_, ?_⟩
  · rw [BodyMount.ofVolumes_eq_mapM]
    refine mapM_of_firstWithout (fun u hu => ?_) volume (by rw [refused]; rfl)
    obtain ⟨o, ho, -⟩ := parse_of_accepted hu
    exact ⟨_, by rw [ho]; rfl⟩
  · rw [SpecVolume.ofVolumes_eq_mapM]
    refine mapM_of_firstWithout (fun u hu => ?_) volume (by rw [refused]; rfl)
    obtain ⟨o, ho, -⟩ := parse_of_accepted hu
    exact ⟨_, by rw [ho]; rfl⟩

/-- The two requests are refused together, with the error of the first flaw. Otherwise both are made,
and they say the same of every mount. -/
theorem requests_correspond (c : ContainerConfig) (name : String) :
    (∃ e, c.FirstFlaw e ∧ ContainerBody.ofConfig c = .error e ∧
      ContainerSpec.ofConfig c name = .error e) ∨
    (¬∃ e, c.FirstFlaw e) ∧ ∃ body spec, ContainerBody.ofConfig c = .ok body ∧
      ContainerSpec.ofConfig c name = .ok spec ∧
        Correspond c.volumes body.mounts spec.mounts spec.volumes := by
  rcases FirstWithout.all_or_exists Environment.IsEntry c.env with entries | ⟨entry, first⟩
  swap
  · obtain ⟨list, dictionary⟩ := Environment.forms_of_firstWithout first
    refine .inl ⟨_, .entry first, ?_, ?_⟩
    · rw [ContainerBody.ofConfig, list]
      rfl
    · rw [ContainerSpec.ofConfig, dictionary]
      rfl
  obtain ⟨pairs, list, dictionary, -⟩ := Environment.forms_of_forall entries
  rw [ContainerBody.ofConfig, ContainerSpec.ofConfig, list, dictionary]
  rcases FirstWithout.all_or_exists Accepted c.volumes with accepted | ⟨v, volume⟩
  · have flawless : ¬∃ e, c.FirstFlaw e := by
      rintro ⟨e, flaw⟩
      cases flaw with
      | entry first => exact first.not_all entries
      | option _ volume _ => exact volume.not_all accepted
    obtain ⟨ms, ss, hms, hss, mounts⟩ := exists_mounts accepted
    rw [hms, hss]
    exact .inr ⟨flawless, _, _, rfl, rfl, mounts⟩
  · obtain ⟨option, first⟩ :=
      (FirstWithout.all_or_exists (Allowed v.kind) v.options).resolve_left volume.lacks
    obtain ⟨reason, body, spec⟩ := ofVolumes_of_firstWithout volume first
    rw [body, spec]
    exact .inl ⟨_, .option entries volume first, rfl, rfl⟩

end Requests
end ContainerBuild
