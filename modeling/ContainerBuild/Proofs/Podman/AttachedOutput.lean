import ContainerBuild.Proofs.Output.Reading
import ContainerBuild.Proofs.Podman.Replies

/-!
# The output of an attached command

The body of the reply to the start of a command is read as its output, until there is nothing more. What
the output keeps are the items of the reader of that body, all of them and in order.
-/

namespace ContainerBuild
namespace Podman

open Session (Goes goes_bind_iff goes_pure_iff calls)
open Dialogue (result)
open OutputReader (Drains start received ending)
open FrameDecoder (agreesWithHeader Framed partialPayload?)

variable {c : Client}

theorem response_of_stream {method : Http.Method} {path : String} {reply : Http.Reply}
    {r : Http.Response} (h : .ok r = c.responseOf method path reply >>= Client.streamOf) :
    reply = .response r ∧ r.isSuccess = true := by
  cases reply with
  | unreachable fault | silent | dropped reason => cases h
  | response r' =>
    change _ = Client.streamOf r' at h
    unfold Client.streamOf at h
    by_cases success : r'.isSuccess
    · rw [if_pos success] at h
      cases h
      exact ⟨rfl, success⟩
    · rw [if_neg success] at h
      cases hb : Client.readBody r' with
      | ok body =>
        rw [hb] at h
        cases h
      | error e =>
        rw [hb] at h
        cases h

/-- The output of a command comes from the last reply, which is that to its start. -/
theorem goes_exec_attached {id : String} {command : List String} {xs : List Http.Call}
    {out : ExecOutput} (h : Goes (c.exec id command true) xs (.ok out)) :
    ∃ before x execId r, xs = before ++ [x] ∧ Succeeds c (.startExec execId) x ∧
      x.reply = .response r ∧
        out = ExecOutput.ofBody r.withBody.chunks (r.withBody.broken.map backendError) := by
  rcases goes_bind_iff.1 h with ⟨e, -, he⟩ | ⟨before, execId, zs, -, hz, rfl⟩
  · cases he
  rcases goes_bind_iff.1 hz with ⟨e, -, he⟩ | ⟨ys, r, us, hr, hu, rfl⟩
  · cases he
  obtain ⟨rfl, hout⟩ := goes_pure_iff.1 hu
  rcases Client.goes_requestStream hr with ⟨-, -, reason, hf⟩ | ⟨-, reply, rfl, hok⟩
  · cases hf
  obtain ⟨rfl, success⟩ := response_of_stream hok
  have hpath : "/exec/" ++ Percent.encode execId ++ "/start" = (Endpoint.startExec execId).path :=
    Endpoint.work_eq_path (.startExec execId) "exec" execId "start" rfl (by decide) (by decide)
  refine ⟨before, _, execId, r, by rw [List.append_nil], ⟨⟨rfl, congrArg c.pathFor hpath⟩, r, rfl,
    success⟩, rfl, ?_⟩
  cases hout
  rfl

/-- A reader of any body gives the payloads of the whole frames, or the bytes as they came, then what the
end of the body adds, and stops; and an attached command is given all of what the reader of the last
reply gives. -/
theorem output_of_attached :
    (∀ (frames : List BodyFrame) (broken : Option BuildError),
      (agreesWithHeader ((received frames).headD []) = true →
        ∃ payloads left, Framed (received frames).flatten payloads left ∧
          ∀ xs, Drains (start frames broken) xs ↔
            xs = payloads.map .ok ++ ending (partialPayload? left) broken) ∧
      (agreesWithHeader ((received frames).headD []) = false →
        ∀ xs, Drains (start frames broken) xs ↔
          xs = (received frames).map .ok ++ ending none broken)) ∧
    ∀ (c : Client) (σ : Type) (answer : (q : Inquiry) → σ → q.Answer × σ) (s : σ) (id : String)
      (command : List String) (out : ExecOutput),
      (result answer (c.exec id command true) s).1 = .ok out →
        ∃ before x execId r, calls answer (c.exec id command true) s = before ++ [x] ∧
          Succeeds c (.startExec execId) x ∧ x.reply = .response r ∧
          Drains (start (r.withBody.chunks.map .data) (r.withBody.broken.map backendError))
            (out.chunks.map .ok ++ out.failure.toList.map .error) := by
  refine ⟨OutputReader.drains_start, ?_⟩
  intro c σ answer s id command out hr
  have hgoes := Session.goes_run answer (c.exec id command true) s
  rw [hr] at hgoes
  obtain ⟨before, x, execId, r, hxs, hx, hreply, rfl⟩ := goes_exec_attached hgoes
  exact ⟨before, x, execId, r, hxs, hx, hreply, OutputReader.drains_ofBody _ _⟩

end Podman
end ContainerBuild
