import ContainerBuild.Podman.Manager
import ContainerBuild.Proofs.Http.Percent

/-!
# The requests of the Podman backend

A request is one of a few endpoints with the values that it carries: a method, the segments of a path
and the parameters of a query. In a target every segment and every value is percent encoded, so cutting
the target at its separators and decoding the pieces gives the segments and the parameters back, and with
them the endpoint. No value can pass for a separator, and two endpoints have two targets.
-/

namespace ContainerBuild
namespace Podman

inductive Endpoint
  | ping
  | pull (reference : String) (platform : Option PlatformSpec)
  | create
  | start (id : String)
  | kill (id : String) (signal : Signal)
  | stop (id : String)
  | remove (id : String)
  | exec (id : String)
  | startExec (execId : String)
  | inspect (id : String)
  | wait (id : String) (condition : WaitCondition)
  | commit (id name label : String) (comment : Option String) (changes : List String)
  | upload (id directory : String)
  | download (id path : String)
  | listImages
  | inspectImage (reference : String)
  | tag (source name label : String)
  | push (reference : String)
  | removeImage (reference : String) (force : Bool)
  | build (image : String) (platform : Option String)
  | createManifest (list : String)
  | addToManifest (list : String)
  | pushManifest (list destination : String)
  deriving DecidableEq, Repr

namespace Endpoint

def method : Endpoint → Http.Method
  | ping | inspect _ | download .. | listImages | inspectImage _ => .get
  | upload .. | addToManifest _ => .put
  | remove _ | removeImage .. => .delete
  | _ => .post

/-- The segments of the path below the form of paths that the daemon serves. -/
def segments : Endpoint → List String
  | ping => ["_ping"]
  | pull .. => ["images", "pull"]
  | create => ["containers", "create"]
  | start id => ["containers", id, "start"]
  | kill id _ => ["containers", id, "kill"]
  | stop id => ["containers", id, "stop"]
  | remove id => ["containers", id]
  | exec id => ["containers", id, "exec"]
  | startExec execId => ["exec", execId, "start"]
  | inspect id => ["containers", id, "json"]
  | wait id _ => ["containers", id, "wait"]
  | commit .. => ["commit"]
  | upload id _ => ["containers", id, "archive"]
  | download id _ => ["containers", id, "archive"]
  | listImages => ["images", "json"]
  | inspectImage reference => ["images", reference, "json"]
  | tag source _ _ => ["images", source, "tag"]
  | push reference => ["images", reference, "push"]
  | removeImage reference _ => ["images", reference]
  | build .. => ["build"]
  | createManifest list => ["manifests", list]
  | addToManifest list => ["manifests", list]
  | pushManifest list destination => ["manifests", list, "registry", destination]

def flag (b : Bool) : String := if b then "true" else "false"

def params : Endpoint → List (String × String)
  | pull reference platform =>
    [("reference", reference), ("policy", "always")] ++ Client.platformParams platform
  | kill _ signal => [("signal", signal.name)]
  | stop _ => [("timeout", "10")]
  | remove _ => [("force", "true"), ("v", "true")]
  | wait _ condition => [("condition", conditionName condition)]
  | commit id name label comment changes =>
    [("container", id), ("repo", name), ("tag", label), ("pause", "true")] ++
      (comment.map fun s => ("comment", s)).toList ++ changes.map fun s => ("changes", s)
  | upload _ directory => [("path", directory)]
  | download _ path => [("path", path)]
  | tag _ name label => [("repo", name), ("tag", label)]
  | push reference => [("destination", reference)]
  | removeImage _ force => [("force", flag force)]
  | build image platform =>
    [("dockerfile", "Dockerfile"), ("t", image), ("rm", "true")] ++
      (platform.map fun p => ("platform", p)).toList
  | createManifest _ => [("amend", "true")]
  | pushManifest .. => [("all", "true")]
  | _ => []

def path (e : Endpoint) : String :=
  Text.join "/" ("" :: e.segments.map Percent.encode) ++ Percent.query e.params

/-! ### Reading requests -/

def readPlatform? : List (String × String) → Option (Option PlatformSpec)
  | [] => some none
  | [("os", os), ("arch", architecture)] => some (some ⟨os, architecture, none⟩)
  | [("os", os), ("arch", architecture), ("variant", v)] => some (some ⟨os, architecture, some v⟩)
  | _ => none

def readCondition? : String → Option WaitCondition
  | "stopped" => some .notRunning
  | "exited" => some .nextExit
  | "removing" => some .removed
  | _ => none

def readValues? (key : String) (params : List (String × String)) : Option (List String) :=
  params.mapM fun (k, v) => if k = key then some v else none

def readGet? : List String → List (String × String) → Option Endpoint
  | ["_ping"], [] => some ping
  | ["containers", id, "json"], [] => some (inspect id)
  | ["containers", id, "archive"], [("path", p)] => some (download id p)
  | ["images", "json"], [] => some listImages
  | ["images", reference, "json"], [] => some (inspectImage reference)
  | _, _ => none

def readPut? : List String → List (String × String) → Option Endpoint
  | ["containers", id, "archive"], [("path", directory)] => some (upload id directory)
  | ["manifests", list], [] => some (addToManifest list)
  | _, _ => none

def readDelete? : List String → List (String × String) → Option Endpoint
  | ["containers", id], [("force", "true"), ("v", "true")] => some (remove id)
  | ["images", reference], [("force", value)] => some (removeImage reference (value = "true"))
  | _, _ => none

def readWork? (id : String) : String → List (String × String) → Option Endpoint
  | "start", [] => some (start id)
  | "kill", [("signal", name)] => (Signal.ofName? name).map (kill id)
  | "stop", [("timeout", "10")] => some (stop id)
  | "exec", [] => some (exec id)
  | "wait", [("condition", name)] => (readCondition? name).map (wait id)
  | _, _ => none

def readCommit? : List (String × String) → Option Endpoint
  | ("container", id) :: ("repo", name) :: ("tag", label) :: ("pause", "true") ::
      ("comment", s) :: rest => (readValues? "changes" rest).map (commit id name label (some s))
  | ("container", id) :: ("repo", name) :: ("tag", label) :: ("pause", "true") :: rest =>
    (readValues? "changes" rest).map (commit id name label none)
  | _ => none

def readBuild? : List (String × String) → Option Endpoint
  | [("dockerfile", "Dockerfile"), ("t", image), ("rm", "true")] => some (build image none)
  | [("dockerfile", "Dockerfile"), ("t", image), ("rm", "true"), ("platform", p)] =>
    some (build image (some p))
  | _ => none

def readImage? : List String → List (String × String) → Option Endpoint
  | ["pull"], ("reference", reference) :: ("policy", "always") :: rest =>
    (readPlatform? rest).map (pull reference)
  | [source, "tag"], [("repo", name), ("tag", label)] => some (tag source name label)
  | [reference, "push"], [("destination", _)] => some (push reference)
  | _, _ => none

def readPost? : List String → List (String × String) → Option Endpoint
  | ["containers", "create"], [] => some create
  | ["containers", id, work], params => readWork? id work params
  | ["exec", execId, "start"], [] => some (startExec execId)
  | ["commit"], params => readCommit? params
  | "images" :: rest, params => readImage? rest params
  | ["build"], params => readBuild? params
  | ["manifests", list], [("amend", "true")] => some (createManifest list)
  | ["manifests", list, "registry", destination], [("all", "true")] =>
    some (pushManifest list destination)
  | _, _ => none

/-- The endpoint that a method, segments and parameters ask for. -/
def read? : Http.Method → List String → List (String × String) → Option Endpoint
  | .get => readGet?
  | .post => readPost?
  | .put => readPut?
  | .delete => readDelete?

theorem readPlatform?_eq (p : Option PlatformSpec) :
    readPlatform? (Client.platformParams p) = some p := by
  rcases p with _ | ⟨os, architecture, _ | variant⟩ <;> rfl

theorem readCondition?_eq (c : WaitCondition) : readCondition? (conditionName c) = some c := by
  cases c <;> rfl

theorem readValues?_eq (key : String) (values : List String) :
    readValues? key (values.map fun s => (key, s)) = some values :=
  Percent.mapM_map_eq_some fun _ _ => if_pos rfl

theorem readCommit?_eq (id name label : String) (comment : Option String) (changes : List String) :
    readCommit? (commit id name label comment changes).params =
      some (commit id name label comment changes) := by
  have hv := readValues?_eq "changes" changes
  cases comment with
  | some s => simp [params, readCommit?, hv]
  | none =>
    cases changes with
    | nil => rfl
    | cons s changes => simpa [params, readCommit?] using hv

theorem readBuild?_eq (image : String) (platform : Option String) :
    readBuild? (build image platform).params = some (build image platform) := by
  cases platform <;> simp [params, readBuild?]

theorem read?_eq (e : Endpoint) : read? e.method e.segments e.params = some e := by
  cases e with
  | commit id name label comment changes => exact readCommit?_eq id name label comment changes
  | pull reference platform =>
    simp [read?, readPost?, readImage?, method, segments, params, readPlatform?_eq]
  | kill id signal =>
    simp [read?, readPost?, readWork?, method, segments, params, Signal.ofName?_name]
  | wait id condition =>
    simp [read?, readPost?, readWork?, method, segments, params, readCondition?_eq]
  | removeImage reference force =>
    cases force <;> simp [read?, readDelete?, method, segments, params, flag]
  | build image platform => exact readBuild?_eq image platform
  | ping | inspect | download | listImages | inspectImage =>
    simp [read?, readGet?, method, segments, params]
  | _ =>
    simp [read?, readPost?, readPut?, readDelete?, readWork?, readImage?, method, segments, params]

/-! ### Targets -/

/-- The segments of the path of a target and its parameters, decoded. -/
def readTarget? (target : String) : Option (List String × List (String × String)) :=
  (Percent.splitTarget target).bind fun (path, params) =>
    ((Text.split '/' path).mapM Percent.decode?).map fun segments => (segments, params)

theorem plainKey_params (e : Endpoint) : ∀ p ∈ e.params, Percent.PlainKey p.1 := by
  cases e with
  | pull reference platform =>
    rcases platform with _ | ⟨os, architecture, _ | variant⟩ <;>
      simp [params, Client.platformParams, Percent.PlainKey]
  | commit id name label comment changes =>
    have hchanges : ∀ p ∈ changes.map fun s => ("changes", s), Percent.PlainKey p.1 := by
      intro p hp
      obtain ⟨s, -, rfl⟩ := List.mem_map.1 hp
      simp [Percent.PlainKey]
    intro p hp
    rw [params, List.mem_append] at hp
    rcases hp with hp | hp
    · revert p
      cases comment <;> simp [Percent.PlainKey]
    · exact hchanges p hp
  | build image platform => cases platform <;> simp [params, Percent.PlainKey]
  | _ => simp [params, Percent.PlainKey]

theorem readTarget?_eq {segments : List String} {params : List (String × String)}
    (hs : segments ≠ []) (hk : ∀ p ∈ params, Percent.PlainKey p.1) :
    readTarget? (Text.join "/" (segments.map Percent.encode) ++ Percent.query params) =
      some (segments, params) := by
  have hpath : '?' ∉ (Text.join "/" (segments.map Percent.encode)).toList := by
    apply Text.notMem_join (by decide)
    intro piece hp
    obtain ⟨s, -, rfl⟩ := List.mem_map.1 hp
    exact Percent.notMem_encode (by decide) s
  have hsplit : Text.split '/' (Text.join "/" (segments.map Percent.encode)) =
      segments.map Percent.encode := by
    apply Text.split_join (by decide)
    · intro piece hp
      obtain ⟨s, -, rfl⟩ := List.mem_map.1 hp
      exact Percent.notMem_encode (by decide) s
    · simpa using hs
  have hdecode : (segments.map Percent.encode).mapM Percent.decode? = some segments :=
    Percent.mapM_map_eq_some fun s _ => Percent.decode?_encode s
  rw [readTarget?, Percent.splitTarget_query hpath hk]
  simp [hsplit, hdecode]

theorem segments_ne_nil (e : Endpoint) : e.segments ≠ [] := by
  cases e <;> exact List.cons_ne_nil _ _

theorem encode_api (a : ApiVersion) : Percent.encode a.text = a.text :=
  Percent.encode_of_unreserved (by cases a <;> decide)

/-! The paths are those that the backend writes. -/

theorem words_eq_path (e : Endpoint) (words : List String) (hs : e.segments = words)
    (hw : ∀ w ∈ words, Percent.Unreserved w) :
    Text.join "/" ("" :: words) ++ Percent.query e.params = e.path := by
  have henc : words.map Percent.encode = words := by
    rw [List.map_congr_left fun w hmem => Percent.encode_of_unreserved (hw w hmem), List.map_id']
  rw [path, hs, henc]

theorem value_eq_path (e : Endpoint) (kind value : String) (hs : e.segments = [kind, value])
    (hk : Percent.Unreserved kind) :
    "/" ++ kind ++ "/" ++ Percent.encode value ++ Percent.query e.params = e.path := by
  simp [path, hs, Percent.encode_of_unreserved hk, Text.join_cons_cons, Text.join_singleton,
    String.append_assoc]

theorem work_eq_path (e : Endpoint) (kind value work : String)
    (hs : e.segments = [kind, value, work]) (hk : Percent.Unreserved kind)
    (hw : Percent.Unreserved work) :
    "/" ++ kind ++ "/" ++ Percent.encode value ++ ("/" ++ work ++ Percent.query e.params) =
      e.path := by
  simp [path, hs, Percent.encode_of_unreserved hk, Percent.encode_of_unreserved hw,
    Text.join_cons_cons, Text.join_singleton, String.append_assoc]

theorem containerPath_eq_path (e : Endpoint) (id work : String)
    (hs : e.segments = ["containers", id, work])
    (hw : Percent.Unreserved work) :
    containerPath id ("/" ++ work ++ Percent.query e.params) = e.path :=
  work_eq_path e "containers" id work hs (by decide) hw

theorem imagePath_eq_path (e : Endpoint) (reference work : String)
    (hs : e.segments = ["images", reference, work])
    (hw : Percent.Unreserved work) :
    imagePath reference ("/" ++ work ++ Percent.query e.params) = e.path :=
  work_eq_path e "images" reference work hs (by decide) hw

theorem registryPath_eq_path (list destination : String) :
    manifestPath list ("/registry/" ++ Percent.encode destination ++
      Percent.query [("all", "true")]) = (pushManifest list destination).path := by
  have hkind : Percent.encode "manifests" = "manifests" :=
    Percent.encode_of_unreserved (by decide)
  have hwork : Percent.encode "registry" = "registry" :=
    Percent.encode_of_unreserved (by decide)
  have hk : "/manifests/" = "/" ++ "manifests" ++ "/" := rfl
  have hw : "/registry/" = "/" ++ "registry" ++ "/" := rfl
  simp only [manifestPath, path, segments, params, List.map_cons, List.map_nil, hkind, hwork, hk, hw,
    Text.join_cons_cons, Text.join_singleton, String.empty_append, String.append_assoc]

variable (c : Client) (e : Endpoint)

theorem pathFor_path : c.pathFor e.path =
    Text.join "/" (("" :: c.api.text :: "libpod" :: e.segments).map Percent.encode) ++
      Percent.query e.params := by
  have hempty : Percent.encode "" = "" := rfl
  have hlibpod : Percent.encode "libpod" = "libpod" := Percent.encode_of_unreserved (by decide)
  have hslash : "/libpod" = "/" ++ "libpod" := rfl
  obtain ⟨s, rest, hs⟩ := List.exists_cons_of_ne_nil e.segments_ne_nil
  simp only [Client.pathFor, path, List.map_cons, hs, hempty, hlibpod, encode_api, hslash,
    Text.join_cons_cons, String.empty_append, String.append_assoc]

theorem readTarget?_pathFor : readTarget? (c.pathFor e.path) =
    some ("" :: c.api.text :: "libpod" :: e.segments, e.params) := by
  rw [pathFor_path]
  exact readTarget?_eq (List.cons_ne_nil _ _) e.plainKey_params

example : readTarget? "/v5.0.0/libpod/images/a%2Fb/tag?repo=c&tag=d%26e" =
    some (["", "v5.0.0", "libpod", "images", "a/b", "tag"], [("repo", "c"), ("tag", "d&e")]) := by
  decide +kernel

/-- A method and a target belong to one endpoint. -/
theorem eq_of_target {e e' : Endpoint} (hm : e.method = e'.method)
    (ht : c.pathFor e.path = c.pathFor e'.path) : e = e' := by
  have hr := readTarget?_pathFor c e
  rw [ht, readTarget?_pathFor c e'] at hr
  obtain ⟨hs, hp⟩ := Prod.mk.inj (Option.some.inj hr)
  have hs : e'.segments = e.segments := by simpa using hs
  have he := e.read?_eq
  rw [hm, ← hs, ← hp, e'.read?_eq] at he
  exact (Option.some.inj he).symm

end Endpoint
end Podman
end ContainerBuild
