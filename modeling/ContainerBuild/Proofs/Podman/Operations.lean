import ContainerBuild.Proofs.Manager.Operations
import ContainerBuild.Proofs.Podman.Steps

/-!
# The steps of the Podman backend

Every operation goes along a few steps, which its arguments settle but for a name that the daemon gives
in between: that of a command to run, or of the image of a container. The steps are read off the
operations part by part. A build for several platforms goes along the steps of each build, and then
along those of the list.
-/

namespace ContainerBuild
namespace Podman

open Session (Goes goes_bind_iff goes_pure_iff goes_throw_iff goes_ofOutcome_iff goes_attempt_iff
  goes_attempt_bind goes_mapError_iff goes_freshId_iff)
open Step (ask stream)

def imageStep (e : Endpoint) (reference : String) : Step :=
  (ask e).about (.image reference)

def containerStep (e : Endpoint) (id : String) : Step :=
  (ask e).about (.container id)

def inspectSteps (id image : String) : List Step :=
  containerStep (.inspect id) id ::
    if image.isEmpty then [] else [(imageStep (.inspectImage image) image).taking .optional]

def buildSteps (image : String) (platform : Option PlatformSpec) : List Step :=
  [(ask (.build image (platform.map PlatformSpec.text))).about (.build image),
    imageStep (.inspectImage image) image]

def listSteps (list : String) (tag : PlatformSpec → String) (platforms : List PlatformSpec) :
    List Step :=
  platforms.flatMap (fun p => (buildSteps (tag p) (some p)).map (Step.buildingFor p)) ++
    (ask (.createManifest list) :: (platforms.map fun _ => ask (.addToManifest list)) ++
      [ask (.pushManifest list list)])

/-- What is done once a reference is read. -/
def withReference (text : String) (steps : ImageReference → List Step) : List Step :=
  match ImageReference.parse text with
  | .ok r => steps r
  | .error _ => []

def uploadTo (id dest : String) : List Step :=
  match Destination.parse dest with
  | .ok d => [containerStep (.upload id d.directory) id]
  | .error _ => []

/-- The image of a container for a platform is pulled before it is created. -/
def pullSteps (config : ContainerConfig) : List Step :=
  (config.targetPlatform.map fun p => imageStep (.pull config.image (some p)) config.image).toList

/-- The steps of an operation in the course of which the daemon gives a name. -/
def steps (given : String) : {α : Type} → Operation α → List Step
  | _, .ping => [(ask .ping).about .daemon]
  | _, .create config _ => pullSteps config ++ [imageStep .create config.image]
  | _, .start id => [(containerStep (.start id) id).taking (.allowed 304)]
  | _, .startReady id _ => [(containerStep (.start id) id).taking (.allowed 304)]
  | _, .stop id signal =>
    [(containerStep (.kill id signal) id).taking (.settled 409),
      (containerStep (.stop id) id).taking (.allowed 304)]
  | _, .remove id => [containerStep (.remove id) id]
  | _, .exec id _ attach =>
    [containerStep (.exec id) id,
      if attach then stream (.startExec given) else ask (.startExec given)]
  | _, .inspect id => inspectSteps id given
  | _, .wait id condition => [containerStep (.wait id condition) id]
  | _, .commit id options => withReference options.reference fun r =>
      [containerStep (.commit id r.name r.tagOrLatest options.comment options.changes) id]
  | _, .upload id directory _ => [containerStep (.upload id directory) id]
  | _, .copyContent id _ dest => uploadTo id dest
  | _, .copyFile _ id _ dest => uploadTo id dest
  | _, .copyDirectory _ id _ dest => [containerStep (.upload id dest) id]
  | _, .download id path => (ask (.download id path)).taking .sought :: inspectSteps id given
  | _, .copyOut id path => (ask (.download id path)).taking .sought :: inspectSteps id given
  | _, .listImages => [ask .listImages]
  | _, .pull reference platform _ => [imageStep (.pull reference platform) reference]
  | _, .tag source target => withReference target fun r =>
      [imageStep (.tag source r.name r.tagOrLatest) source]
  | _, .push reference _ => [imageStep (.push reference) reference]
  | _, .removeImage reference force => [imageStep (.removeImage reference force) reference]
  | _, .inspectImage reference => [imageStep (.inspectImage reference) reference]
  | _, .build _ image platform => buildSteps image platform
  | _, .buildMultiArch r => withReference r.imageName fun reference =>
      if r.platforms.length ≤ 1 then buildSteps r.imageName r.platforms.head?
      else listSteps r.imageName (fun p => (reference.forPlatform p).text) r.platforms

namespace Heeds

variable {c : Client} {α β : Type} {s t : List Step} {m : Session α} {f : α → Session β}

theorem about {e : Endpoint} (turn : Turn) (subject : Subject)
    (hm : Heeds c [(ask e).taking turn] m) :
    Heeds c [((ask e).taking turn).about subject] (Session.mapError (subject.report c) m) := by
  apply hm.mapError (Step.about subject)
  intro step hmem
  obtain rfl := List.mem_singleton.1 hmem
  exact ⟨rfl, rfl, rfl, fun e => rfl⟩

theorem ofOutcome_bind {o : Outcome α} {f : α → Session β} (hf : ∀ a, o = .ok a → Heeds c s (f a)) :
    Heeds c s (Session.ofOutcome o >>= f) := by
  apply quiet_bind
  · intro xs r h
    exact (goes_ofOutcome_iff.1 h).1
  · intro a xs h
    exact hf a (goes_ofOutcome_iff.1 h).2.symm

theorem withReference {text : String} {steps : ImageReference → List Step}
    {f : ImageReference → Session β} (hf : ∀ r, Heeds c (steps r) (f r)) :
    Heeds c (Podman.withReference text steps)
      (Session.ofOutcome (ImageReference.parse text) >>= f) := by
  apply ofOutcome_bind
  intro r hr
  rw [Podman.withReference, hr]
  exact hf r

end Heeds

variable (c : Client)

theorem heeds_ping : Heeds c [(ask .ping).about .daemon] c.ping := by
  apply Heeds.about .onward .daemon
  apply Heeds.bind_quiet
  · exact .request (e := .ping) rfl (Endpoint.words_eq_path .ping ["_ping"] rfl (by decide))
  · intro a xs r h
    exact (goes_pure_iff.1 h).1

theorem heeds_start (id : String) :
    Heeds c [(containerStep (.start id) id).taking (.allowed 304)] (c.start id) :=
  .about (.allowed 304) (.container id)
    (.allowing rfl (Endpoint.containerPath_eq_path (.start id) id "start" rfl (by decide)))

theorem heeds_remove (id : String) : Heeds c [containerStep (.remove id) id] (c.remove id) :=
  .about .onward (.container id)
    (.delete rfl (Endpoint.value_eq_path (.remove id) "containers" id rfl (by decide)))

theorem heeds_wait (id : String) (condition : WaitCondition) :
    Heeds c [containerStep (.wait id condition) id] (c.wait id condition) := by
  apply Heeds.bind_quiet
  · apply Heeds.about .onward (.container id)
    exact .request rfl
      (Endpoint.containerPath_eq_path (.wait id condition) id "wait" rfl (by decide))
  · intro a xs r h
    exact (goes_ofOutcome_iff.1 h).1

theorem heeds_commit (id : String) (options : CommitOptions) :
    Heeds c (withReference options.reference fun r =>
        [containerStep (.commit id r.name r.tagOrLatest options.comment options.changes) id])
      (c.commit id options) := by
  apply Heeds.withReference
  intro r
  apply Heeds.about .onward (.container id)
  exact .postJson rfl (Endpoint.words_eq_path
    (.commit id r.name r.tagOrLatest options.comment options.changes) ["commit"] rfl (by decide))

theorem heeds_upload (id directory : String) (archive : Bytes) :
    Heeds c [containerStep (.upload id directory) id] (c.upload id directory archive) := by
  apply Heeds.about .onward (.container id)
  apply Heeds.bind_quiet
  · exact .request rfl
      (Endpoint.containerPath_eq_path (.upload id directory) id "archive" rfl (by decide))
  · intro a xs r h
    exact (goes_pure_iff.1 h).1

theorem heeds_listImages : Heeds c [ask .listImages] c.listImages :=
  .getJson rfl (Endpoint.words_eq_path .listImages ["images", "json"] rfl (by decide))

theorem heeds_inspectImage (reference : String) :
    Heeds c [imageStep (.inspectImage reference) reference] (c.inspectImage reference) :=
  .about .onward (.image reference)
    (.getJson rfl (Endpoint.imagePath_eq_path (.inspectImage reference) reference "json" rfl
      (by decide)))

theorem heeds_pull (reference : String) (platform : Option PlatformSpec) (registryAuth : String) :
    Heeds c [imageStep (.pull reference platform) reference]
      (c.pull reference platform registryAuth) := by
  apply Heeds.ofOutcome_bind
  intro headers _
  apply Heeds.bind_quiet
  · apply Heeds.about .onward (.image reference)
    exact .request rfl
      (Endpoint.words_eq_path (.pull reference platform) ["images", "pull"] rfl (by decide))
  · intro a xs r h
    exact (goes_ofOutcome_iff.1 h).1

theorem heeds_tag (source target : String) :
    Heeds c (withReference target fun r => [imageStep (.tag source r.name r.tagOrLatest) source])
      (c.tag source target) := by
  apply Heeds.withReference
  intro r
  apply Heeds.about .onward (.image source)
  exact .post rfl (Endpoint.imagePath_eq_path (.tag source r.name r.tagOrLatest) source "tag" rfl
    (by decide))

theorem heeds_push (reference registryAuth : String) :
    Heeds c [imageStep (.push reference) reference] (c.push reference registryAuth) := by
  apply Heeds.ofOutcome_bind
  intro headers _
  apply Heeds.bind_quiet
  · apply Heeds.about .onward (.image reference)
    exact .request rfl (Endpoint.imagePath_eq_path (.push reference) reference "push" rfl (by decide))
  · intro a xs r h
    exact (goes_ofOutcome_iff.1 h).1

theorem heeds_removeImage (reference : String) (force : Bool) :
    Heeds c [imageStep (.removeImage reference force) reference] (c.removeImage reference force) :=
  .about .onward (.image reference)
    (.delete rfl (Endpoint.value_eq_path (.removeImage reference force) "images" reference rfl
      (by decide)))

theorem heeds_createManifest (list : String) :
    Heeds c [ask (.createManifest list)] (c.createManifest list) :=
  .postJson rfl (Endpoint.value_eq_path (.createManifest list) "manifests" list rfl (by decide))

theorem heeds_addToManifest (list image : String) :
    Heeds c [ask (.addToManifest list)] (c.addToManifest list image) := by
  apply Heeds.bind_quiet
  · exact .request rfl
      (Endpoint.value_eq_path (.addToManifest list) "manifests" list rfl (by decide))
  · intro a xs r h
    exact (goes_pure_iff.1 h).1

theorem heeds_pushManifest (list destination registryAuth : String) :
    Heeds c [ask (.pushManifest list destination)]
      (c.pushManifest list destination registryAuth) := by
  apply Heeds.ofOutcome_bind
  intro headers _
  apply Heeds.bind_quiet
  · exact .request rfl (Endpoint.registryPath_eq_path list destination)
  · intro a xs r h
    exact (goes_ofOutcome_iff.1 h).1

theorem heeds_pullFor (config : ContainerConfig) (registryAuth : String) :
    Heeds c (pullSteps config) (c.pullFor config registryAuth) := by
  unfold Client.pullFor pullSteps
  cases config.targetPlatform with
  | none => exact .pure () []
  | some p =>
    apply (heeds_pull c config.image (some p) registryAuth).bind_quiet
    intro a xs r h
    exact (goes_pure_iff.1 h).1

theorem heeds_create (config : ContainerConfig) (registryAuth : String) :
    Heeds c (pullSteps config ++ [imageStep .create config.image])
      (c.create config registryAuth) := by
  apply Heeds.bind
  · intro step hm
    obtain ⟨p, -, rfl⟩ := Option.map_eq_some_iff.1 (Option.mem_toList.1 hm)
    trivial
  · exact heeds_pullFor c config registryAuth
  · intro _
    apply Heeds.quiet_bind
    · intro xs r h
      exact (goes_freshId_iff.1 h).1
    intro fresh _ _
    apply Heeds.ofOutcome_bind
    intro spec _
    apply Heeds.about .onward (.image config.image)
    exact .postJson rfl (Endpoint.words_eq_path .create ["containers", "create"] rfl (by decide))

theorem heeds_build (b : PlatformBuild) :
    Heeds c (buildSteps b.tag b.platform) (c.buildFor b) := by
  apply Heeds.ofOutcome_bind
  intro context _
  apply Heeds.bind
    (s := [(ask (.build b.tag (b.platform.map PlatformSpec.text))).about (.build b.tag)])
  · intro step hm
    obtain rfl := List.mem_singleton.1 hm
    trivial
  · apply Heeds.about .onward (.build b.tag)
    have hparams : Client.buildParams b.tag b.platform =
        (Endpoint.build b.tag (b.platform.map PlatformSpec.text)).params := by
      cases b.platform <;> rfl
    rw [hparams]
    exact .request rfl (Endpoint.words_eq_path (.build b.tag (b.platform.map PlatformSpec.text))
      ["build"] rfl (by decide))
  · intro body
    apply Heeds.ofOutcome_bind
    intro log _
    apply (heeds_inspectImage c b.tag).bind_quiet
    intro a xs r h
    exact (goes_pure_iff.1 h).1

/-! ### Names that the daemon gives -/

/-- Work along steps that depend on a name which the daemon gives. -/
def HeedsGiven {α : Type} (s : String → List Step) (m : Session α) : Prop :=
  ∀ xs r, Goes m xs r → ∃ given o, Trail c (s given) xs o ∧ ∀ e, o = some e → r = .error e

variable {c}

theorem Heeds.given {α : Type} {s : List Step} {m : Session α} (h : Heeds c s m) :
    HeedsGiven c (fun _ => s) m := by
  intro xs r hg
  obtain ⟨o, ht, ho⟩ := h xs r hg
  exact ⟨"", o, ht, ho⟩

/-- The first part gives the name that the steps of the second depend on. -/
theorem Heeds.bind_given {α β : Type} {s : List Step} {t : String → List Step} {m : Session α}
    {f : α → Session β} (name : α → String) (hs : ∀ step ∈ s, step.turn.GoesOn) (hm : Heeds c s m)
    (hf : ∀ a, Heeds c (t (name a)) (f a)) : HeedsGiven c (fun given => s ++ t given) (m >>= f) := by
  intro xs r hg
  rcases goes_bind_iff.1 hg with ⟨e, he, rfl⟩ | ⟨ys, a, zs, ha, hz, rfl⟩
  · exact ⟨"", hm.trail_of_error he (t "")⟩
  · exact ⟨name a, hm.trail_of_ok hs ha (hf a) hz⟩

theorem HeedsGiven.bind_quiet {α β : Type} {s : String → List Step} {m : Session α}
    {f : α → Session β} (hm : HeedsGiven c s m) (hf : ∀ a xs r, Goes (f a) xs r → xs = []) :
    HeedsGiven c s (m >>= f) := by
  intro xs r hg
  rcases goes_bind_iff.1 hg with ⟨e, he, rfl⟩ | ⟨ys, a, zs, ha, hz, rfl⟩
  · obtain ⟨given, o, ht, ho⟩ := hm xs _ he
    refine ⟨given, o, ht, fun e' h => ?_⟩
    cases ho e' h
    rfl
  · obtain ⟨given, o, ht, ho⟩ := hm ys _ ha
    rw [hf a zs r hz, List.append_nil]
    exact ⟨given, o, ht, fun e h => nomatch ho e h⟩

theorem goesOn_of_mem {e : Endpoint} {subject : Subject} :
    ∀ step ∈ [(ask e).about subject], step.turn.GoesOn := by
  intro step hm
  obtain rfl := List.mem_singleton.1 hm
  trivial

variable (c)

theorem heeds_exec (id : String) (command : List String) (attach : Bool) :
    HeedsGiven c (fun given => [containerStep (.exec id) id] ++
        [if attach then stream (.startExec given) else ask (.startExec given)])
      (c.exec id command attach) := by
  apply Heeds.bind_given (fun execId => execId) goesOn_of_mem
  · apply Heeds.about .onward (.container id)
    exact .postJson rfl (Endpoint.containerPath_eq_path (.exec id) id "exec" rfl (by decide))
  · intro execId
    have hpath := Endpoint.work_eq_path (.startExec execId) "exec" execId "start" rfl (by decide)
      (by decide)
    cases attach with
    | true =>
      apply (Heeds.requestStream (e := .startExec execId) rfl hpath).bind_quiet
      intro a xs r h
      exact (goes_pure_iff.1 h).1
    | false =>
      apply (Heeds.post (e := .startExec execId) rfl hpath).bind_quiet
      intro a xs r h
      exact (goes_pure_iff.1 h).1

theorem Heeds.attempt_bind {c : Client} {step : Step} {α β : Type} {m : Session α}
    {f : Outcome α → Session β} (hm : Heeds c [step] m) (hf : ∀ x xs r, Goes (f x) xs r → xs = []) :
    Heeds c [step.taking .optional] (Session.attempt m >>= f) := by
  apply Heeds.of_call
  intro xs r hg
  obtain ⟨x, ys, zs, hx, hz, rfl⟩ := goes_attempt_bind hg
  obtain ⟨o, ht, -⟩ := hm ys x hx
  rw [hf x zs r hz, List.append_nil]
  refine ht.of_single.imp id ?_
  rintro ⟨y, rfl, hy⟩
  refine ⟨y, rfl, hy, fun e ha => ?_⟩
  rw [Step.after] at ha
  cases h : (step.taking .optional).outcome c y.reply with
  | ok a =>
    rw [h] at ha
    cases ha
  | error e =>
    rw [h] at ha
    cases ha

/-- An image is looked for, whatever comes of it. -/
theorem heeds_platformOf (image : String) :
    Heeds c (if image.isEmpty then []
      else [(imageStep (.inspectImage image) image).taking .optional]) (c.platformOf image) := by
  unfold Client.platformOf
  by_cases hi : image.isEmpty
  · rw [if_pos hi, if_pos hi]
    exact .pure none []
  · rw [if_neg hi, if_neg hi]
    apply (heeds_inspectImage c image).attempt_bind
    intro x xs r h
    cases x with
    | ok details => exact (goes_pure_iff.1 h).1
    | error e => exact (goes_pure_iff.1 h).1

theorem heeds_inspect (id : String) : HeedsGiven c (inspectSteps id) (c.inspect id) := by
  apply Heeds.bind_given (s := [containerStep (.inspect id) id])
    (t := fun image => if image.isEmpty then []
      else [(imageStep (.inspectImage image) image).taking .optional])
    InspectContainer.image goesOn_of_mem
  · apply Heeds.about .onward (.container id)
    exact .getJson rfl (Endpoint.containerPath_eq_path (.inspect id) id "json" rfl (by decide))
  · intro found
    apply (heeds_platformOf c found.image).bind_quiet
    intro a xs r h
    exact (goes_pure_iff.1 h).1

/-- What the reply to a signal says of the container. -/
def killed : Outcome Unit → Outcome Bool
  | .ok _ => .ok true
  | .error e => if hasStatus 409 e then .ok false else .error e

theorem after_killed (o : Outcome Unit) : (Turn.settled 409).after (fun e => e) o =
    match killed o with
    | .ok true => .goOn
    | .ok false => .finish
    | .error e => .fail e := by
  cases o with
  | ok a => rfl
  | error e =>
    simp only [Turn.after, killed]
    split <;> rfl

theorem goes_kill {id : String} {signal : Signal} {xs : List Http.Call} {r : Outcome Bool}
    (h : Goes (c.kill id signal) xs r) :
    (xs = [] ∧ ∃ e, r = .error e) ∨
      ∃ reply, xs = [c.callTo .post (Endpoint.kill id signal).path .empty [] reply] ∧
        r = killed ((c.bodyOf .post (Endpoint.kill id signal).path reply).map fun _ => ()) := by
  obtain ⟨x, ys, zs, hx, hz, rfl⟩ := goes_attempt_bind h
  have hpath : containerPath id ("/kill" ++ Percent.query [("signal", signal.name)]) =
      (Endpoint.kill id signal).path :=
    Endpoint.containerPath_eq_path (.kill id signal) id "kill" rfl (by decide)
  rw [hpath] at hx
  have hz : zs = [] ∧ r = killed x := by
    cases x with
    | ok a => exact goes_pure_iff.1 hz
    | error e =>
      by_cases hs : hasStatus 409 e
      · rw [killed, if_pos hs]
        simp only [if_pos hs] at hz
        exact goes_pure_iff.1 hz
      · rw [killed, if_neg hs]
        simp only [if_neg hs] at hz
        exact goes_throw_iff.1 hz
  obtain ⟨rfl, rfl⟩ := hz
  rw [List.append_nil]
  rcases Heeds.goes_post hx with ⟨rfl, reason, rfl⟩ | ⟨reply, rfl, rfl⟩
  · exact .inl ⟨rfl, _, rfl⟩
  · exact .inr ⟨reply, rfl, rfl⟩

theorem heeds_stop (id : String) (signal : Signal) :
    Heeds c [(containerStep (.kill id signal) id).taking (.settled 409),
        (containerStep (.stop id) id).taking (.allowed 304)] (c.stop id signal) := by
  apply Heeds.mapError (Step.about (.container id))
    (s := [(ask (.kill id signal)).taking (.settled 409), (ask (.stop id)).taking (.allowed 304)])
  · intro step hm
    rcases List.mem_pair.1 hm with rfl | rfl <;> exact ⟨rfl, rfl, rfl, fun e => rfl⟩
  · intro xs r hg
    have hstop : Heeds c [(ask (.stop id)).taking (.allowed 304)] (allowing 304 (c.post _ .empty)) :=
      .allowing rfl (Endpoint.containerPath_eq_path (.stop id) id "stop" rfl (by decide))
    have hafter (reply : Http.Reply) :
        ((ask (.kill id signal)).taking (.settled 409)).after c reply = _ :=
      after_killed ((c.bodyOf .post (Endpoint.kill id signal).path reply).map fun _ => ())
    rcases goes_bind_iff.1 hg with ⟨e, he, rfl⟩ | ⟨ys, running, zs, hy, hz, rfl⟩
    · rcases goes_kill c he with ⟨rfl, -⟩ | ⟨reply, rfl, hr⟩
      · exact ⟨none, .done _, nofun⟩
      · refine ⟨some e, .stopped ⟨rfl, rfl⟩ ?_, fun e' he' => by cases he'; rfl⟩
        exact (hafter reply).trans (by rw [← hr])
    · rcases goes_kill c hy with ⟨rfl, e, hr⟩ | ⟨reply, rfl, hr⟩
      · cases hr
      · cases running with
        | true =>
          obtain ⟨o, ht, ho⟩ := hstop zs r hz
          exact ⟨o, .passed ⟨rfl, rfl⟩ ((hafter reply).trans (by rw [← hr])) ht, ho⟩
        | false =>
          obtain ⟨rfl, rfl⟩ := goes_pure_iff.1 hz
          exact ⟨none, .finished ⟨rfl, rfl⟩ ((hafter reply).trans (by rw [← hr])), nofun⟩

/-- A path that is given ends the work, and one that is absent has the container looked for. -/
theorem goes_download {id path : String} {xs : List Http.Call} {r : Outcome (Option Bytes)}
    (h : Goes (c.download id path) xs r) :
    (xs = [] ∧ ∃ e, r = .error e) ∨
      ∃ reply ys, xs = c.callTo .get (Endpoint.download id path).path .empty [] reply :: ys ∧
        match c.bodyOf .get (Endpoint.download id path).path reply with
        | .ok body => ys = [] ∧ r = .ok (some body)
        | .error e =>
          if e.isNotFound then Goes (c.inspect id >>= fun _ => pure none) ys r
          else ys = [] ∧ r = .error e := by
  obtain ⟨x, ys, zs, hx, hz, rfl⟩ := goes_attempt_bind h
  have hpath : containerPath id ("/archive" ++ Percent.query [("path", path)]) =
      (Endpoint.download id path).path :=
    Endpoint.containerPath_eq_path (.download id path) id "archive" rfl (by decide)
  rw [hpath] at hx
  rcases Client.goes_request hx with ⟨-, rfl, reason, rfl⟩ | ⟨-, reply, rfl, rfl⟩
  · obtain ⟨rfl, rfl⟩ := goes_throw_iff.1 hz
    exact .inl ⟨rfl, _, rfl⟩
  · refine .inr ⟨reply, zs, rfl, ?_⟩
    cases hb : c.bodyOf .get (Endpoint.download id path).path reply with
    | ok body =>
      rw [hb] at hz
      exact goes_pure_iff.1 hz
    | error e =>
      rw [hb] at hz
      simp only at hz ⊢
      by_cases absent : e.isNotFound
      · rwa [if_pos absent] at hz ⊢
      · rw [if_neg absent] at hz ⊢
        exact goes_throw_iff.1 hz

theorem heeds_download (id path : String) :
    HeedsGiven c (fun given => (ask (.download id path)).taking .sought :: inspectSteps id given)
      (c.download id path) := by
  intro xs r hg
  rcases goes_download c hg with ⟨rfl, -⟩ | ⟨reply, ys, rfl, hrest⟩
  · exact ⟨"", none, .done _, nofun⟩
  have hafter : ((ask (.download id path)).taking .sought).after c reply =
      Turn.sought.after (fun e => e)
        ((c.bodyOf .get (Endpoint.download id path).path reply).map fun _ => ()) := rfl
  cases hb : c.bodyOf .get (Endpoint.download id path).path reply with
  | ok body =>
    rw [hb] at hrest hafter
    obtain ⟨rfl, rfl⟩ := hrest
    exact ⟨"", none, .finished ⟨rfl, rfl⟩ hafter, nofun⟩
  | error e =>
    rw [hb] at hrest hafter
    change _ = (if e.isNotFound then After.goOn else .fail e) at hafter
    simp only at hrest
    by_cases absent : e.isNotFound
    · rw [if_pos absent] at hrest hafter
      have hquiet : ∀ (a : ContainerDetails) xs (r : Outcome (Option Bytes)),
          Goes (pure none) xs r → xs = [] := fun _ _ _ h => (goes_pure_iff.1 h).1
      obtain ⟨given, o, ht, ho⟩ := (heeds_inspect c id).bind_quiet hquiet ys r hrest
      exact ⟨given, o, .passed ⟨rfl, rfl⟩ hafter ht, ho⟩
    · rw [if_neg absent] at hrest hafter
      obtain ⟨rfl, rfl⟩ := hrest
      exact ⟨"", some e, .stopped ⟨rfl, rfl⟩ hafter, fun e' he => by cases he; rfl⟩

/-! ### Builds for several platforms -/

/-- The work that the calls of a build for several platforms become. -/
def performing {α : Type} (m : ManifestCall.Calls α) : Session α :=
  ExceptT.mk (m.run.interpret c.answerCall)

theorem performing_bind {α β : Type} (m : ManifestCall.Calls α) (f : α → ManifestCall.Calls β) :
    performing c (m >>= f) = performing c m >>= fun a => performing c (f a) := by
  have hrun : (m >>= f).run = m.run >>= ExceptT.bindCont f := rfl
  unfold performing
  rw [hrun, Dialogue.interpret_bind]
  apply congrArg (m.run.interpret c.answerCall >>= ·)
  funext x
  cases x <;> rfl

theorem performing_callBuild (b : PlatformBuild) :
    performing c (ManifestCall.callBuild b) = c.buildFor b :=
  Dialogue.bind_done (c.buildFor b).run

theorem performing_callBuildFor (b : PlatformBuild) (p : PlatformSpec) :
    performing c (ManifestCall.callBuildFor b p) =
      Session.mapError (platformFailure p.text) (c.buildFor b) :=
  rfl

theorem performing_callCreate (list : String) :
    performing c (ManifestCall.callCreate list) = c.createManifest list :=
  Dialogue.bind_done (c.createManifest list).run

theorem performing_callAdd (list image : String) :
    performing c (ManifestCall.callAdd list image) = c.addToManifest list image :=
  Dialogue.bind_done (c.addToManifest list image).run

theorem performing_callPush (list destination registryAuth : String) :
    performing c (ManifestCall.callPush list destination registryAuth) =
      c.pushManifest list destination registryAuth :=
  Dialogue.bind_done (c.pushManifest list destination registryAuth).run

theorem heeds_buildFor (b : PlatformBuild) (p : PlatformSpec) :
    Heeds c ((buildSteps b.tag b.platform).map (Step.buildingFor p))
      (performing c (ManifestCall.callBuildFor b p)) := by
  rw [performing_callBuildFor]
  apply (heeds_build c b).mapError (Step.buildingFor p)
  intro step hm
  rcases List.mem_pair.1 hm with rfl | rfl <;> exact ⟨rfl, rfl, rfl, fun e => rfl⟩

variable (r : MultiArchRequest) (reference : ImageReference) (context : Option BuildContext)

theorem goesOn_buildFor (tag : String) (p : PlatformSpec) :
    ∀ step ∈ (buildSteps tag (some p)).map (Step.buildingFor p), step.turn.GoesOn := by
  intro step hm
  rcases List.mem_pair.1 hm with rfl | rfl <;> trivial

theorem heeds_buildEach (ps : List PlatformSpec) :
    Heeds c (ps.flatMap fun p =>
        (buildSteps (reference.forPlatform p).text (some p)).map (Step.buildingFor p))
      (performing c (r.buildEach reference context ps)) := by
  induction ps with
  | nil => exact .pure [] []
  | cons p ps ih =>
    rw [MultiArchRequest.buildEach, performing_bind, List.flatMap_cons]
    apply Heeds.bind (goesOn_buildFor (reference.forPlatform p).text p) (heeds_buildFor c _ p)
    intro first
    rw [performing_bind]
    apply ih.bind_quiet
    intro a xs r h
    exact (goes_pure_iff.1 h).1

theorem heeds_addEach (list : String) (tag : PlatformSpec → String) (ps : List PlatformSpec) :
    Heeds c (ps.map fun _ => ask (.addToManifest list))
      (performing c (MultiArchRequest.addEach list (ps.map tag))) := by
  induction ps with
  | nil => exact .pure () []
  | cons p ps ih =>
    rw [List.map_cons, List.map_cons, MultiArchRequest.addEach, performing_bind,
      performing_callAdd]
    exact (heeds_addToManifest c list (tag p)).bind (s := [ask (.addToManifest list)])
      goesOn_of_mem fun _ => ih

theorem heeds_assembleList :
    Heeds c (listSteps r.imageName (fun p => (reference.forPlatform p).text) r.platforms)
      (performing c (r.assembleList reference context)) := by
  rw [MultiArchRequest.assembleList, performing_bind]
  apply Heeds.bind
  · intro step hm
    obtain ⟨p, -, hp⟩ := List.mem_flatMap.1 hm
    exact goesOn_buildFor _ p step hp
  · exact heeds_buildEach c r reference context r.platforms
  intro outputs
  rw [performing_bind, performing_callCreate]
  apply Heeds.bind (s := [ask (.createManifest r.imageName)]) goesOn_of_mem
    (heeds_createManifest c r.imageName)
  intro _
  rw [performing_bind]
  apply Heeds.bind
  · intro step hm
    obtain ⟨p, -, rfl⟩ := List.mem_map.1 hm
    trivial
  · exact heeds_addEach c r.imageName _ r.platforms
  intro _
  rw [performing_bind, performing_callPush]
  apply (heeds_pushManifest c r.imageName r.imageName r.registryAuth).bind_quiet
  intro a xs r h
  exact (goes_pure_iff.1 h).1

theorem heeds_buildMultiArch :
    Heeds c (withReference r.imageName fun reference =>
        if r.platforms.length ≤ 1 then buildSteps r.imageName r.platforms.head?
        else listSteps r.imageName (fun p => (reference.forPlatform p).text) r.platforms)
      (c.buildMultiArch r) := by
  change Heeds c _ (performing c r.assemble)
  cases hr : ImageReference.parse r.imageName with
  | error e =>
    rw [MultiArchRequest.assemble, hr]
    exact .of_quiet (fun xs r h => (goes_throw_iff.1 h).1) _
  | ok reference =>
    rw [MultiArchRequest.assemble, withReference, hr]
    cases hc : BuildContext.prepare r.context with
    | error e => exact .of_quiet (fun xs r h => (goes_throw_iff.1 h).1) _
    | ok context =>
      simp only [MultiArchRequest.assembleWith]
      by_cases one : r.platforms.length ≤ 1
      · rw [if_pos one, if_pos one, performing_bind, performing_callBuild]
        apply (heeds_build c (r.singleBuild context)).bind_quiet
        intro a xs r h
        exact (goes_pure_iff.1 h).1
      · rw [if_neg one, if_neg one]
        exact heeds_assembleList c r reference context

/-! ### Operations that every backend has in the same way -/

theorem ofOutcome_eq {α : Type} (o : Outcome α) :
    (ContainerManager.ofOutcome o : Session α) = Session.ofOutcome o := by
  cases o <;> rfl

theorem heeds_uploadTo (id dest : String) (archive : Destination → Outcome Bytes) :
    Heeds c (uploadTo id dest) (do
      let d ← ContainerManager.ofOutcome (Destination.parse dest)
      let content ← ContainerManager.ofOutcome (archive d)
      c.upload id d.directory content) := by
  rw [ofOutcome_eq]
  apply Heeds.ofOutcome_bind
  intro d hd
  rw [ofOutcome_eq, uploadTo, hd]
  apply Heeds.ofOutcome_bind
  intro content _
  exact heeds_upload c id d.directory content

theorem heeds_copyDirectory (host : FileTree) (id : String) (root : List Name) (dest : String) :
    Heeds c [containerStep (.upload id dest) id] (c.manager.copyDirectory host id root dest) := by
  unfold ContainerManager.copyDirectory
  rw [ofOutcome_eq]
  apply Heeds.ofOutcome_bind
  intro archive _
  exact heeds_upload c id dest archive

/-- A copy out of a container makes the calls of a download, and fails where that does. -/
theorem goes_copyOut {id path : String} {xs : List Http.Call} {r : Outcome (Option Bytes)}
    (h : Goes (c.manager.copyOut id path) xs r) :
    ∃ x, Goes (c.download id path) xs x ∧ ∀ e, x = .error e → r = .error e := by
  rcases goes_bind_iff.1 h with ⟨e, he, rfl⟩ | ⟨ys, found, zs, hy, hz, rfl⟩
  · exact ⟨.error e, he, fun e' h => by cases h; rfl⟩
  have hquiet : zs = [] := by
    cases found with
    | none => exact (goes_pure_iff.1 hz).1
    | some archive =>
      simp only [ofOutcome_eq] at hz
      rcases goes_bind_iff.1 hz with ⟨e, he, -⟩ | ⟨us, content, vs, hu, hv, rfl⟩
      · exact (goes_ofOutcome_iff.1 he).1
      · rw [(goes_ofOutcome_iff.1 hu).1, (goes_pure_iff.1 hv).1]
        rfl
  rw [hquiet, List.append_nil]
  exact ⟨.ok found, hy, nofun⟩

theorem heeds_copyOut (id path : String) :
    HeedsGiven c (fun given => (ask (.download id path)).taking .sought :: inspectSteps id given)
      (c.manager.copyOut id path) := by
  intro xs r hg
  obtain ⟨x, hx, hr⟩ := goes_copyOut c hg
  obtain ⟨given, o, ht, ho⟩ := heeds_download c id path xs x hx
  exact ⟨given, o, ht, fun e he => hr e (ho e he)⟩

theorem heeds_startReady (id : String) (probe : Option ReadinessProbe) :
    Heeds c [(containerStep (.start id) id).taking (.allowed 304)]
      (c.manager.startReady Session.waitReady id probe) := by
  apply (heeds_start c id).bind_quiet
  intro _ xs r h
  cases probe with
  | none => exact (goes_pure_iff.1 h).1
  | some p => exact h.waitReady

/-- Every operation goes along its steps. -/
theorem heeds_session {α : Type} (o : Operation α) :
    HeedsGiven c (fun given => steps given o) (o.session c.manager) := by
  cases o with
  | ping => exact (heeds_ping c).given
  | create config registryAuth => exact (heeds_create c config registryAuth).given
  | start id => exact (heeds_start c id).given
  | stop id signal => exact (heeds_stop c id signal).given
  | remove id => exact (heeds_remove c id).given
  | exec id command attach => exact heeds_exec c id command attach
  | inspect id => exact heeds_inspect c id
  | wait id condition => exact (heeds_wait c id condition).given
  | commit id options => exact (heeds_commit c id options).given
  | upload id directory archive => exact (heeds_upload c id directory archive).given
  | download id path => exact heeds_download c id path
  | listImages => exact (heeds_listImages c).given
  | pull reference platform registryAuth => exact (heeds_pull c reference platform registryAuth).given
  | tag source target => exact (heeds_tag c source target).given
  | push reference registryAuth => exact (heeds_push c reference registryAuth).given
  | removeImage reference force => exact (heeds_removeImage c reference force).given
  | inspectImage reference => exact (heeds_inspectImage c reference).given
  | build dockerfile image platform => exact (heeds_build c ⟨dockerfile, none, image, platform⟩).given
  | buildMultiArch r => exact (heeds_buildMultiArch c r).given
  | copyContent id content dest =>
    exact (heeds_uploadTo c id dest fun d => Archive.ofText content d.name).given
  | copyFile host id path dest =>
    exact (heeds_uploadTo c id dest fun d => Archive.ofFile host path d.name).given
  | copyDirectory host id root dest => exact (heeds_copyDirectory c host id root dest).given
  | copyOut id path => exact heeds_copyOut c id path
  | startReady id probe => exact (heeds_startReady c id probe).given

end Podman
end ContainerBuild
