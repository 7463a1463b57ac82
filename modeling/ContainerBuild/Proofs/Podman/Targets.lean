import ContainerBuild.Proofs.Podman.Operations

/-!
# The targets of the Podman backend

Whatever texts the operations are given, the target of every request is read back as the endpoint that
is asked for: its segments as they were, and its parameters in order. A text can neither add a separator
nor lose one, and no target stands for two endpoints.
-/

namespace ContainerBuild
namespace Podman

open Dialogue (result)
open Session (calls)

variable {c : Client} {σ : Type} (answer : (q : Inquiry) → σ → q.Answer × σ) (s : σ)

theorem asks_of_mem_calls {α : Type} (o : Operation α) : ∃ given,
    ∀ x ∈ calls answer (o.session c.manager) s, ∃ step ∈ steps given o, step.Asks c x := by
  obtain ⟨given, e?, ht, -⟩ := heeds_session c o _ _ (Session.goes_run answer (o.session c.manager) s)
  refine ⟨given, fun x hx => ?_⟩
  obtain ⟨before, after, hxs⟩ := List.append_of_mem hx
  obtain ⟨step, hm, hasks, -⟩ := ht.split hxs
  exact ⟨step, hm, hasks⟩

/-- A call of a step has a target that is read back as the endpoint of the step. -/
theorem Step.Asks.readTarget? {step : Step} {x : Http.Call} (h : step.Asks c x) :
    Endpoint.readTarget? x.request.target =
      some ("" :: c.api.text :: "libpod" :: step.endpoint.segments, step.endpoint.params) := by
  rw [h.2]
  exact Endpoint.readTarget?_pathFor c step.endpoint

/-- Texts are encoded without separators and read back; so are parameters, in order, and the target of
every request of every operation; and endpoints of one method with one target are the same. -/
theorem targets_read_back (c : Client) :
    (∀ text, Percent.Escaped (Percent.encode text).toList ∧
      (∀ separator ∈ ['/', '?', '#', '&'], separator ∉ (Percent.encode text).toList) ∧
      Percent.decode? (Percent.encode text) = some text) ∧
    (∀ params, (∀ p ∈ params, Percent.PlainKey p.1) →
      ∀ path : String, '?' ∉ path.toList →
        Percent.splitTarget (path ++ Percent.query params) = some (path, params)) ∧
    (∀ (α : Type) (o : Operation α) (σ : Type) (answer : (q : Inquiry) → σ → q.Answer × σ) (s : σ),
      ∃ given, ∀ x ∈ calls answer (o.session c.manager) s, ∃ step ∈ steps given o,
        x.request.method = step.endpoint.method ∧
        Endpoint.readTarget? x.request.target =
          some ("" :: c.api.text :: "libpod" :: step.endpoint.segments, step.endpoint.params)) ∧
    ∀ e e' : Endpoint, e.method = e'.method → c.pathFor e.path = c.pathFor e'.path → e = e' := by
  refine ⟨?_, ?_, ?_, fun e e' hm ht => Endpoint.eq_of_target c hm ht⟩
  · intro text
    refine ⟨Percent.escaped_encode text, fun separator hs => ?_, Percent.decode?_encode text⟩
    have hsub : ['/', '?', '#', '&'] ⊆ ['/', '?', '#', '&', '='] := by decide
    exact Percent.notMem_encode (hsub hs) text
  · intro params hk path hpath
    exact Percent.splitTarget_query hpath hk
  · intro α o σ answer s
    obtain ⟨given, hcalls⟩ := asks_of_mem_calls (c := c) answer s o
    refine ⟨given, fun x hx => ?_⟩
    obtain ⟨step, hm, hasks⟩ := hcalls x hx
    exact ⟨step, hm, hasks.1, hasks.readTarget?⟩

end Podman
end ContainerBuild
