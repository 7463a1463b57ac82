import ContainerBuild.Podman.Socket
import ContainerBuild.Proofs.Podman.Versions
import ContainerBuild.Proofs.Sessions.Questions
import ContainerBuild.Proofs.Text.Splitting
import ContainerBuild.Surroundings.Script

/-!
# What finding the socket comes to

The tool is run two or three times, and each time it writes something, fails, or does not end in time.
Without a major version nothing more is run. Before machines were known the socket is the one that the
tool uses itself; later it is that of the first machine that has one, and otherwise again the tool's own.
Only a list of machines that cannot be read is an error: a tool that fails to list them is one without
machines.
-/

namespace ContainerBuild
namespace Podman

open Dialogue (Runs asked result)
open Json (Fields Padded Reading Spells)

/-! ### The tool -/

def toolRun (program : String) (arguments : List String) : Inquiry :=
  .command ⟨program, arguments.map .word, [], []⟩ (some toolTimeout)

def Writes (outcome : CommandResult) (b : Bytes) : Prop :=
  ∃ err, outcome = .ended ⟨.code 0, b, err⟩

/-- What is made of a run. -/
def toolOutput (program : String) (arguments : List String) : CommandResult → Outcome Bytes
  | .timedOut => .error (.timeout (Text.join " " (program :: arguments)) toolTimeout)
  | .notStarted fault =>
    .error (discoveryError ("failed to run " ++ program ++ ": " ++ fault.text))
  | .ended output =>
    if output.status.isSuccess then .ok output.out
    else .error (discoveryError (Text.join " " (program :: arguments) ++ " exited with " ++
      output.status.text ++ ": " ++ Text.trim (Utf8.decodeLossy output.err)))

variable {program : String} {arguments : List String} {outcome : CommandResult} {b : Bytes}

theorem toolOutput_eq_ok_iff : toolOutput program arguments outcome = .ok b ↔ Writes outcome b := by
  cases outcome with
  | timedOut | notStarted fault =>
    refine ⟨nofun, ?_⟩
    rintro ⟨err, ⟨⟩⟩
  | ended output =>
    obtain ⟨status, out, err⟩ := output
    have hstatus : status.isSuccess = true ↔ status = .code 0 := beq_iff_eq
    unfold toolOutput Writes
    simp only [hstatus]
    split <;> simp_all

theorem runs_runTool {σ : Type} {answer : (q : Inquiry) → σ → q.Answer × σ} {s s' : σ}
    (hq : answer (toolRun program arguments) s = (outcome, s')) :
    Runs answer (runTool program arguments) s [toolRun program arguments]
      (toolOutput program arguments outcome) s' := by
  unfold runTool
  apply (Runs.question hq).bind
  cases outcome with
  | timedOut | notStarted fault => exact .throw _
  | ended output =>
    unfold toolOutput
    by_cases success : output.status.isSuccess = true
    · simp only [if_pos success]
      exact .pure _
    · simp only [if_neg success]
      exact .throw _

/-! ### The sockets of machines -/

/-- The path of the socket of a machine in a list, if it has one. -/
inductive MachineSocket : Reading → Option String → Prop
  | path {m : Reading} {path : String}
      (h : StandsAt ["ConnectionInfo", "PodmanSocket", "Path"] m (.text path)) :
      MachineSocket m (some path)
  | noConnection {m : Reading} (h : Lacks "ConnectionInfo" m) : MachineSocket m none
  | noSocket {m c : Reading} (h : Field "ConnectionInfo" m (some c)) (hc : Lacks "PodmanSocket" c) :
      MachineSocket m none

/-- A document lists machines with these sockets. -/
def Lists (b : Bytes) (sockets : List (Option String)) : Prop :=
  ∃ machines, Padded Spells b (.array machines none) ∧ List.Forall₂ MachineSocket machines sockets

/-- No socket, or one with an empty path. -/
def Void (path? : Option String) : Prop :=
  path? = none ∨ path? = some ""

variable {m : Reading} {sockets : List (Option String)} {path : String}

theorem machineSocket_iff {path? : Option String} :
    MachineSocket m path? ↔ ∃ x, machineFields.decode m = .ok x ∧ x.join = path? := by
  have hpath (s : Reading) (p : String) :
      (Fields.required "Path" Json.Decode.text).decode s = .ok p ↔ StandsAt ["Path"] s (.text p) :=
    decode_required_standsAt_iff fun _ => text_eq_ok_iff
  simp only [machineFields, decode_optionalTail_iff, hpath]
  constructor
  · rintro (⟨c, hc, s, hs, h⟩ | h | ⟨h, hc⟩)
    · exact ⟨_, .inr ⟨c, hc, hs.ne_null, _, .inr ⟨s, hs, h.ne_null, _, h, rfl⟩, rfl⟩, rfl⟩
    · exact ⟨none, .inl ⟨h, rfl⟩, rfl⟩
    · exact ⟨_, .inr ⟨_, h, hc.ne_null, none, .inl ⟨hc, rfl⟩, rfl⟩, rfl⟩
  · rintro ⟨x, ⟨h, rfl⟩ | ⟨c, hc, -, a, ⟨h, rfl⟩ | ⟨s, hs, -, p, hp, rfl⟩, rfl⟩, rfl⟩
    · exact .noConnection h
    · exact .noSocket hc h
    · exact .path ⟨c, hc, s, hs, hp⟩

theorem forall₂_machineSocket_iff {machines : List Reading} :
    List.Forall₂ MachineSocket machines sockets ↔
      ∃ xs, List.Forall₂ (fun m x => machineFields.decode m = .ok x) machines xs ∧
        xs.map Option.join = sockets := by
  constructor
  · intro h
    induction h with
    | nil => exact ⟨[], .nil, rfl⟩
    | cons hm _ ih =>
      obtain ⟨x, hx, rfl⟩ := machineSocket_iff.1 hm
      obtain ⟨xs, hxs, rfl⟩ := ih
      exact ⟨x :: xs, .cons hx hxs, rfl⟩
  · rintro ⟨xs, hxs, rfl⟩
    rw [List.forall₂_map_right_iff]
    exact hxs.imp fun m x hx => machineSocket_iff.2 ⟨x, hx, rfl⟩

theorem lists_iff : Lists b sockets ↔
    ∃ xs, Json.read (Json.Decode.list machineFields.decode) b = .ok xs ∧
      xs.map Option.join = sockets := by
  simp only [Lists, Json.read_eq_ok_iff, list_eq_ok_iff, forall₂_machineSocket_iff]
  constructor
  · rintro ⟨machines, hb, xs, hxs, h⟩
    exact ⟨xs, ⟨_, hb, machines, rfl, hxs⟩, h⟩
  · rintro ⟨xs, ⟨_, hb, machines, rfl, hxs⟩, h⟩
    exact ⟨machines, hb, xs, hxs, h⟩

def firstSocket (sockets : List (Option String)) : Option String :=
  (sockets.filterMap id).find? fun path => !path.isEmpty

theorem firstSocket_of_void (h : ∀ x ∈ sockets, Void x) : firstSocket sockets = none := by
  refine List.find?_eq_none.2 fun path hpath => ?_
  obtain ⟨x, hx, rfl⟩ := List.mem_filterMap.1 hpath
  rcases h _ hx with none | empty
  · cases none
  · cases empty
    decide

theorem firstSocket_of_firstWithout (h : FirstWithout Void sockets (some path)) :
    firstSocket sockets = some path := by
  obtain ⟨before, after, rfl, void, full⟩ := h
  have hpath : path.isEmpty = false := by
    rw [← Bool.not_eq_true, String.isEmpty_iff]
    rintro rfl
    exact full (.inr rfl)
  have hbefore : (before.filterMap id).find? (fun path => !path.isEmpty) = none :=
    firstSocket_of_void void
  have hcons : (some path :: after).filterMap id = path :: after.filterMap id := rfl
  rw [firstSocket, List.filterMap_append, List.find?_append, hbefore, hcons, List.find?_cons, hpath]
  rfl

theorem readMachineSocket_of_lists (h : Lists b sockets) :
    readMachineSocket b = .ok (firstSocket sockets) := by
  obtain ⟨xs, hread, rfl⟩ := lists_iff.1 h
  unfold readMachineSocket firstSocket
  rw [hread, List.filterMap_map]
  rfl

theorem readMachineSocket_of_not_lists (h : ¬∃ sockets, Lists b sockets) :
    ∃ e, readMachineSocket b = .error e := by
  unfold readMachineSocket
  cases hread : Json.read (Json.Decode.list machineFields.decode) b with
  | error fault => exact ⟨_, rfl⟩
  | ok xs => exact absurd ⟨_, lists_iff.2 ⟨xs, hread, rfl⟩⟩ h

/-! ### The socket of the tool itself -/

/-- What the tool says of its host has a socket with a path. -/
def HostSocket (b : Bytes) (path : String) : Prop :=
  ∃ r, Padded Spells b r ∧ StandsAt ["host", "remoteSocket", "path"] r (.text path) ∧ path ≠ ""

/-- The path in an address: a scheme at the beginning does not count. -/
inductive Unschemed : String → String → Prop
  | scheme (path : String) : Unschemed ("unix://" ++ path) path
  | plain {path : String} (h : ∀ rest, path ≠ "unix://" ++ rest) : Unschemed path path

theorem unschemed_iff {address : String} : Unschemed address path ↔ stripScheme address = path := by
  unfold stripScheme
  constructor
  · rintro (_ | plain)
    · rw [Text.dropPrefix?_append, Option.getD_some]
    · cases hd : Text.dropPrefix? "unix://" path with
      | none => rfl
      | some rest => exact absurd (Text.dropPrefix?_eq_some_iff.1 hd) (plain rest)
  · cases hd : Text.dropPrefix? "unix://" address with
    | none =>
      rintro rfl
      refine .plain fun rest hrest => ?_
      rw [Text.dropPrefix?_eq_some_iff.2 hrest] at hd
      cases hd
    | some rest =>
      rintro rfl
      obtain rfl := Text.dropPrefix?_eq_some_iff.1 hd
      exact .scheme rest

theorem infoFields_iff {r : Reading} {address : String} (full : address ≠ "") :
    (∃ socket, infoFields.decode r = .ok socket ∧ socket.getD "" = address) ↔
      StandsAt ["host", "remoteSocket", "path"] r (.text address) := by
  simp only [infoFields, decode_required_iff, decode_optionalTail_iff, decode_withDefault_iff,
    text_eq_ok_iff]
  constructor
  · rintro ⟨socket, ⟨h, hh, ⟨-, rfl⟩ | ⟨s, hs, -, p, ⟨v, hv, rfl⟩ | ⟨-, rfl⟩, rfl⟩⟩, rfl⟩
    · exact absurd rfl full
    · exact ⟨h, hh, s, hs, _, hv, rfl⟩
    · exact absurd rfl full
  · rintro ⟨h, hh, s, hs, v, hv, rfl⟩
    exact ⟨_, ⟨h, hh, .inr ⟨s, hs, hv.ne_null, _, .inl ⟨_, hv, rfl⟩, rfl⟩⟩, rfl⟩

theorem readInfoSocket_eq_ok_iff :
    readInfoSocket b = .ok path ↔ ∃ address, HostSocket b address ∧ Unschemed address path := by
  have hread : readInfoSocket b = .ok path ↔ ∃ socket, Json.read infoFields.decode b = .ok socket ∧
      socket.getD "" ≠ "" ∧ stripScheme (socket.getD "") = path := by
    unfold readInfoSocket
    cases Json.read infoFields.decode b with
    | error fault => simp
    | ok socket =>
      simp only [Except.ok.injEq, exists_eq_left', String.isEmpty_iff]
      split <;> simp_all
  simp only [hread, Json.read_eq_ok_iff, unschemed_iff]
  constructor
  · rintro ⟨socket, ⟨r, hr, hd⟩, full, h⟩
    exact ⟨_, ⟨r, hr, (infoFields_iff full).1 ⟨socket, hd, rfl⟩, full⟩, h⟩
  · rintro ⟨address, ⟨r, hr, hd, full⟩, h⟩
    obtain ⟨socket, hsocket, rfl⟩ := (infoFields_iff full).2 hd
    exact ⟨socket, ⟨r, hr, hsocket⟩, full, h⟩

/-! ### Finding the socket -/

/-- What the tool comes to, by its arguments. -/
abbrev Tool := List String → CommandResult

def versionArguments : List String := ["version", "--format", "json"]

def machineArguments : List String := ["machine", "inspect"]

def infoArguments : List String := ["info", "--format", "json"]

/-- The major version that the tool tells of itself. -/
def Told (tool : Tool) (major : Nat) : Prop :=
  ∃ b, Writes (tool versionArguments) b ∧ TellsMajor ["Client", "Version"] b major

/-- The tool knows no machine with a socket, or cannot list machines. -/
def NoMachine (tool : Tool) : Prop :=
  (¬∃ b, Writes (tool machineArguments) b) ∨
    ∃ b sockets, Writes (tool machineArguments) b ∧ Lists b sockets ∧ ∀ x ∈ sockets, Void x

/-- What is found is what the tool says of its host, or nothing. -/
def FoundByInfo (tool : Tool) (major : Nat) (found : Outcome DiscoveredSocket) : Prop :=
  ∀ socket, found = .ok socket ↔ socket.major = major ∧
    ∃ b address, Writes (tool infoArguments) b ∧ HostSocket b address ∧ Unschemed address socket.path

/-- What finding the socket asks and comes to, by what the tool comes to. -/
structure Finds (program : String) (tool : Tool) (qs : List Inquiry)
    (found : Outcome DiscoveredSocket) : Prop where
  untold : (¬∃ major, Told tool major) →
    qs = [toolRun program versionArguments] ∧ ∃ e, found = .error e
  early : ∀ major, Told tool major → major < 4 →
    qs = [toolRun program versionArguments, toolRun program infoArguments] ∧
      FoundByInfo tool major found
  machine : ∀ major b sockets path, Told tool major → 4 ≤ major →
    Writes (tool machineArguments) b → Lists b sockets → FirstWithout Void sockets (some path) →
    qs = [toolRun program versionArguments, toolRun program machineArguments] ∧
      found = .ok ⟨path, major⟩
  unreadable : ∀ major b, Told tool major → 4 ≤ major → Writes (tool machineArguments) b →
    (¬∃ sockets, Lists b sockets) →
    qs = [toolRun program versionArguments, toolRun program machineArguments] ∧
      ∃ e, found = .error e
  otherwise : ∀ major, Told tool major → 4 ≤ major → NoMachine tool →
    qs = [toolRun program versionArguments, toolRun program machineArguments,
      toolRun program infoArguments] ∧ FoundByInfo tool major found

/-- Surroundings in which a program is a tool. -/
def Provides {σ : Type} (answer : (q : Inquiry) → σ → q.Answer × σ) (program : String)
    (tool : Tool) : Prop :=
  ∀ arguments s, (answer (toolRun program arguments) s).1 = tool arguments

/-- The end of the search: what the tool says of its host. -/
def askInfo (program : String) (major : Nat) : Session DiscoveredSocket :=
  runTool program infoArguments >>= fun info =>
    Session.ofOutcome (readInfoSocket info) >>= fun path => pure ⟨path, major⟩

theorem askInfo_eq (program : String) (major : Nat) : askInfo program major =
    runTool program infoArguments >>= fun info =>
      Session.ofOutcome ((readInfoSocket info).map fun path => ⟨path, major⟩) := by
  unfold askInfo
  congr 1
  funext info
  cases readInfoSocket info <;> rfl

theorem discover_eq (program : String) : discover program =
    runTool program versionArguments >>= fun version =>
      Session.ofOutcome (readClientMajor version) >>= fun major =>
        machineSocket program major >>= fun
          | some path => pure ⟨path, major⟩
          | none => askInfo program major :=
  rfl

/-! ### Runs -/

theorem told_iff {tool : Tool} {major : Nat} :
    (toolOutput program versionArguments (tool versionArguments) >>= readClientMajor) = .ok major ↔
      Told tool major := by
  simp only [bind_eq_ok_iff, toolOutput_eq_ok_iff, readClientMajor_eq_ok_iff]
  rfl

def infoSocket (program : String) (tool : Tool) (major : Nat) : Outcome DiscoveredSocket :=
  toolOutput program infoArguments (tool infoArguments) >>= fun b =>
    (readInfoSocket b).map fun path => ⟨path, major⟩

theorem foundByInfo_infoSocket (program : String) (tool : Tool) (major : Nat) :
    FoundByInfo tool major (infoSocket program tool major) := by
  intro socket
  simp only [infoSocket, bind_eq_ok_iff, map_eq_ok_iff, toolOutput_eq_ok_iff, readInfoSocket_eq_ok_iff]
  constructor
  · rintro ⟨b, hb, path, ⟨address, ha, hu⟩, rfl⟩
    exact ⟨rfl, b, address, hb, ha, hu⟩
  · rintro ⟨rfl, b, address, hb, ha, hu⟩
    exact ⟨b, hb, socket.path, ⟨address, ha, hu⟩, rfl⟩

def machineOf (program : String) (tool : Tool) : Outcome (Option String) :=
  match toolOutput program machineArguments (tool machineArguments) with
  | .ok b => readMachineSocket b
  | .error _ => .ok none

theorem machineOf_of_writes {tool : Tool} (h : Writes (tool machineArguments) b) :
    machineOf program tool = readMachineSocket b := by
  rw [machineOf, toolOutput_eq_ok_iff.2 h]

theorem machineOf_of_noMachine {tool : Tool} (h : NoMachine tool) :
    machineOf program tool = .ok none := by
  rcases h with silent | ⟨b, sockets, hb, hs, void⟩
  · unfold machineOf
    cases hout : toolOutput program machineArguments (tool machineArguments) with
    | error e => rfl
    | ok b => exact absurd ⟨b, toolOutput_eq_ok_iff.1 hout⟩ silent
  · rw [machineOf_of_writes hb, readMachineSocket_of_lists hs, firstSocket_of_void void]

section

variable {tool : Tool} {σ : Type} {answer : (q : Inquiry) → σ → q.Answer × σ} {major : Nat}
  (provides : Provides answer program tool) (s : σ)

include provides

theorem exists_run (arguments : List String) : ∃ s', Runs answer (runTool program arguments) s
    [toolRun program arguments] (toolOutput program arguments (tool arguments)) s' := by
  have hq : answer (toolRun program arguments) s =
      (tool arguments, (answer (toolRun program arguments) s).2) :=
    Prod.ext (provides arguments s) rfl
  exact ⟨_, runs_runTool hq⟩

theorem exists_run_machineSocket (recent : 4 ≤ major) : ∃ s',
    Runs answer (machineSocket program major) s [toolRun program machineArguments]
      (machineOf program tool) s' := by
  obtain ⟨s', run⟩ := exists_run provides s machineArguments
  refine ⟨s', ?_⟩
  have hnot : ¬major < firstWithMachines := Nat.not_lt.2 recent
  unfold machineSocket
  rw [if_neg hnot]
  apply Session.runs_attempt_bind run
  unfold machineOf
  cases toolOutput program machineArguments (tool machineArguments) with
  | error e => exact .pure none
  | ok b => exact Session.runs_ofOutcome _

theorem exists_run_askInfo (major : Nat) : ∃ s', Runs answer (askInfo program major) s
    [toolRun program infoArguments] (infoSocket program tool major) s' := by
  obtain ⟨s', run⟩ := exists_run provides s infoArguments
  rw [askInfo_eq]
  exact ⟨s', Session.runs_bind_ofOutcome run⟩

theorem exists_run_of_untold (untold : ¬∃ major, Told tool major) : ∃ e s',
    Runs answer (discover program) s [toolRun program versionArguments] (.error e) s' := by
  obtain ⟨s', run⟩ := exists_run provides s versionArguments
  have hnone : ∀ major, (toolOutput program versionArguments (tool versionArguments) >>=
      readClientMajor) ≠ .ok major := fun major h => untold ⟨major, told_iff.1 h⟩
  rw [discover_eq]
  cases hout : toolOutput program versionArguments (tool versionArguments) with
  | error e =>
    rw [hout] at run
    exact ⟨e, s', run.bind_error⟩
  | ok b =>
    rw [hout] at run hnone
    cases hmajor : readClientMajor b with
    | ok major => exact absurd hmajor (hnone major)
    | error e =>
      have hread : Runs answer (Session.ofOutcome (readClientMajor b)) s' [] (.error e) s' := by
        rw [hmajor]
        exact .throw e
      exact ⟨e, s', run.bind hread.bind_error⟩

theorem exists_run_of_told (told : Told tool major) {qs : List Inquiry}
    {r : Outcome DiscoveredSocket}
    (rest : ∀ s', ∃ s'', Runs answer (machineSocket program major >>= fun
      | some path => pure ⟨path, major⟩
      | none => askInfo program major) s' qs r s'') :
    ∃ s', Runs answer (discover program) s (toolRun program versionArguments :: qs) r s' := by
  obtain ⟨s', run⟩ := exists_run provides s versionArguments
  obtain ⟨b, hb, hmajor⟩ := bind_eq_ok_iff.1 (told_iff.2 told)
  rw [hb] at run
  obtain ⟨s'', hrest⟩ := rest s'
  have hread : Runs answer (Session.ofOutcome (readClientMajor b)) s' [] (.ok major) s' := by
    rw [hmajor]
    exact .pure major
  rw [discover_eq]
  exact ⟨s'', run.bind (hread.bind hrest)⟩

theorem exists_run_of_early (told : Told tool major) (early : major < 4) :
    ∃ s', Runs answer (discover program) s
      [toolRun program versionArguments, toolRun program infoArguments]
      (infoSocket program tool major) s' := by
  apply exists_run_of_told provides s told
  intro s'
  obtain ⟨s'', run⟩ := exists_run_askInfo provides s' major
  have hnone : Runs answer (machineSocket program major) s' [] (.ok none) s' := by
    have hnot : major < firstWithMachines := early
    unfold machineSocket
    rw [if_pos hnot]
    exact .pure none
  exact ⟨s'', hnone.bind run⟩

theorem exists_run_of_error (told : Told tool major) (recent : 4 ≤ major) {e : BuildError}
    (h : machineOf program tool = .error e) : ∃ s', Runs answer (discover program) s
      [toolRun program versionArguments, toolRun program machineArguments] (.error e) s' := by
  apply exists_run_of_told provides s told
  intro s'
  obtain ⟨s'', run⟩ := exists_run_machineSocket provides s' recent
  rw [h] at run
  exact ⟨s'', run.bind_error⟩

theorem exists_run_of_machine (told : Told tool major) (recent : 4 ≤ major)
    (h : machineOf program tool = .ok (some path)) : ∃ s', Runs answer (discover program) s
      [toolRun program versionArguments, toolRun program machineArguments]
      (.ok ⟨path, major⟩) s' := by
  apply exists_run_of_told provides s told
  intro s'
  obtain ⟨s'', run⟩ := exists_run_machineSocket provides s' recent
  rw [h] at run
  exact ⟨s'', run.bind (.pure _)⟩

theorem exists_run_of_no_machine (told : Told tool major) (recent : 4 ≤ major)
    (h : machineOf program tool = .ok none) : ∃ s', Runs answer (discover program) s
      [toolRun program versionArguments, toolRun program machineArguments,
        toolRun program infoArguments] (infoSocket program tool major) s' := by
  apply exists_run_of_told provides s told
  intro s'
  obtain ⟨t, run⟩ := exists_run_machineSocket provides s' recent
  obtain ⟨s'', more⟩ := exists_run_askInfo provides t major
  rw [h] at run
  exact ⟨s'', run.bind more⟩

end

theorem machines_cases (tool : Tool) :
    NoMachine tool ∨ (∃ b, Writes (tool machineArguments) b ∧ ¬∃ sockets, Lists b sockets) ∨
      ∃ b sockets path, Writes (tool machineArguments) b ∧ Lists b sockets ∧
        FirstWithout Void sockets (some path) := by
  by_cases writes : ∃ b, Writes (tool machineArguments) b
  · obtain ⟨b, hb⟩ := writes
    by_cases lists : ∃ sockets, Lists b sockets
    · obtain ⟨sockets, hs⟩ := lists
      rcases FirstWithout.all_or_exists Void sockets with void | ⟨path?, first⟩
      · exact .inl (.inr ⟨b, sockets, hb, hs, void⟩)
      · cases path? with
        | none => exact absurd (.inl rfl) first.lacks
        | some path => exact .inr (.inr ⟨b, sockets, path, hb, hs, first⟩)
    · exact .inr (.inl ⟨b, hb, lists⟩)
  · exact .inl (.inl writes)

theorem Finds.told {tool : Tool} {qs : List Inquiry} {found : Outcome DiscoveredSocket}
    (h : Finds program tool qs found) {socket : DiscoveredSocket} (hfound : found = .ok socket) :
    Told tool socket.major := by
  have of_info {major : Nat} (told : Told tool major) (info : FoundByInfo tool major found) :
      Told tool socket.major := by
    rwa [((info socket).1 hfound).1]
  by_cases some : ∃ major, Told tool major
  · obtain ⟨major, told⟩ := some
    rcases Nat.lt_or_ge major 4 with early | recent
    · exact of_info told (h.early major told early).2
    · rcases machines_cases tool with none | ⟨b, hb, no⟩ | ⟨b, sockets, path, hb, hs, first⟩
      · exact of_info told (h.otherwise major told recent none).2
      · obtain ⟨-, e, he⟩ := h.unreadable major b told recent hb no
        rw [he] at hfound
        cases hfound
      · rw [(h.machine major b sockets path told recent hb hs first).2] at hfound
        cases hfound
        exact told
  · obtain ⟨-, e, he⟩ := h.untold some
    rw [he] at hfound
    cases hfound

theorem finds_discover (program : String) (tool : Tool) {σ : Type}
    {answer : (q : Inquiry) → σ → q.Answer × σ} (provides : Provides answer program tool) (s : σ) :
    Finds program tool (asked answer (discover program) s)
      (result answer (discover program) s).1 := by
  have run_iff {qs : List Inquiry} {r : Outcome DiscoveredSocket}
      (h : ∃ s', Runs answer (discover program) s qs r s') :
      asked answer (discover program) s = qs ∧ (result answer (discover program) s).1 = r := by
    obtain ⟨s', run⟩ := h
    exact ⟨run.asks, run.result_fst⟩
  refine ⟨?untold, ?early, ?machine, ?unreadable, ?otherwise⟩
  case untold =>
    intro h
    obtain ⟨e, run⟩ := exists_run_of_untold provides s h
    obtain ⟨hasked, hresult⟩ := run_iff run
    exact ⟨hasked, e, hresult⟩
  case early =>
    intro major told early
    obtain ⟨hasked, hresult⟩ := run_iff (exists_run_of_early provides s told early)
    rw [hresult]
    exact ⟨hasked, foundByInfo_infoSocket program tool major⟩
  case machine =>
    intro major b sockets path told recent hb hs first
    have hof : machineOf program tool = .ok (some path) := by
      rw [machineOf_of_writes hb, readMachineSocket_of_lists hs, firstSocket_of_firstWithout first]
    exact run_iff (exists_run_of_machine provides s told recent hof)
  case unreadable =>
    intro major b told recent hb no
    obtain ⟨e, hread⟩ := readMachineSocket_of_not_lists no
    have he : machineOf program tool = .error e := by rw [machineOf_of_writes hb, hread]
    obtain ⟨hasked, hresult⟩ := run_iff (exists_run_of_error provides s told recent he)
    exact ⟨hasked, e, hresult⟩
  case otherwise =>
    intro major told recent none
    obtain ⟨hasked, hresult⟩ :=
      run_iff (exists_run_of_no_machine provides s told recent (machineOf_of_noMachine none))
    rw [hresult]
    exact ⟨hasked, foundByInfo_infoSocket program tool major⟩

/-- Whatever a tool comes to, this is what is asked of it and found, and what is found has its major
version. -/
theorem discover_of_tool (program : String) (tool : Tool) {σ : Type}
    (answer : (q : Inquiry) → σ → q.Answer × σ) (provides : Provides answer program tool) (s : σ) :
    Finds program tool (asked answer (discover program) s) (result answer (discover program) s).1 ∧
      ∀ socket, (result answer (discover program) s).1 = .ok socket → Told tool socket.major := by
  have finds := finds_discover program tool provides s
  exact ⟨finds, fun socket found => finds.told found⟩

def onlyTool (tool : Tool) : (q : Inquiry) → Unit → q.Answer × Unit
  | .command c _, _ => (tool (c.arguments.map fun
    | .word s => s
    | .directory stem => stem
    | .file _ name => name), ())
  | .exchange .., _ => (.silent, ())
  | .pathExists _, _ => (false, ())
  | .freshId, _ => ("", ())
  | .fileContent _, _ => (.error .notFound, ())
  | .probe q, _ => (Script.probed q, ())

theorem provides_onlyTool (program : String) (tool : Tool) :
    Provides (onlyTool tool) program tool := by
  intro arguments s
  change tool ((arguments.map CommandArgument.word).map _) = tool arguments
  rw [List.map_map]
  exact congrArg tool (List.map_id arguments)

def machinelessTool : Tool := fun arguments =>
  .ended ⟨.code 0, Utf8.encode (
    if arguments = versionArguments then
      "\x7b\"Client\":\x7b\"Version\":\"4.9.3\"\x7d\x7d"
    else if arguments = machineArguments then "[\x7b\"ConnectionInfo\":null\x7d]"
    else
      "\x7b\"host\":\x7b\"remoteSocket\":\x7b\"path\":\"unix:///run/podman.sock\"\x7d\x7d\x7d"), []⟩

theorem discover_without_machines :
    Provides (onlyTool machinelessTool) "podman" machinelessTool ∧
      Finds "podman" machinelessTool (asked (onlyTool machinelessTool) (discover "podman") ())
        (result (onlyTool machinelessTool) (discover "podman") ()).1 ∧
      (result (onlyTool machinelessTool) (discover "podman") ()).1 =
        .ok ⟨"/run/podman.sock", 4⟩ := by
  have provides := provides_onlyTool "podman" machinelessTool
  have found := discover_of_tool "podman" machinelessTool (onlyTool machinelessTool) provides ()
  exact ⟨provides, found.1, by decide +kernel⟩

end Podman
end ContainerBuild
