import ContainerBuild.Docker.ContainerBody
import ContainerBuild.Podman.Specification
import ContainerBuild.Proofs.Container.EnvironmentForms
import ContainerBuild.Proofs.Container.MountOptions
import ContainerBuild.Proofs.FileTree.Enumeration

/-!
# Ports in the two requests

Both requests collect ports in a dictionary, where of several bindings with one key the last is kept. The
first request has one host port for each port of the container, and the second one protocol for each number
that is exposed without one. So a port is lost where two bindings of one key differ, and only there.
-/

namespace ContainerBuild

namespace Dictionary

variable {κ α β : Type} [LT κ] [DecidableLT κ] [LE κ] [Std.IsLinearOrder κ] [Std.LawfulOrderLT κ]
variable [BEq κ] [LawfulBEq κ]

/-- What a list gives a key, each of its elements giving one key a value or none. -/
theorem get?_ofList_filterMap_iff {f : β → Option (κ × α)} {l : List β} {k : κ} {v : α} :
    (ofList (l.filterMap f)).get? k = some v ↔
      ∃ b, LastWith (fun b => ∃ u, f b = some (k, u)) l b ∧ f b = some (k, v) := by
  rw [get?_ofList]
  induction l using List.reverseRecOn with
  | nil =>
    constructor
    · intro h
      cases h
    · rintro ⟨b, hb, -⟩
      exact absurd hb not_lastWith_nil
  | append_singleton l b ih =>
    simp only [lastWith_concat_iff, List.filterMap_append]
    cases hb : f b with
    | none =>
      rw [List.filterMap_cons_none hb, List.filterMap_nil, List.append_nil, ih]
      refine exists_congr fun x => and_congr_left fun _ => ?_
      simp
    | some e =>
      obtain ⟨key, value⟩ := e
      rw [List.filterMap_cons_some hb, List.filterMap_nil, List.reverse_concat, List.lookup_cons]
      by_cases hk : k = key
      · subst hk
        simp only [beq_self_eq_true]
        constructor
        · intro h
          obtain rfl := Option.some.inj h
          exact ⟨b, .inl ⟨⟨value, rfl⟩, rfl⟩, hb⟩
        · rintro ⟨x, ⟨-, rfl⟩ | ⟨lacks, -⟩, hx⟩
          · rw [hb] at hx
            obtain ⟨-, rfl⟩ := Prod.mk.inj (Option.some.inj hx)
            rfl
          · exact absurd ⟨value, rfl⟩ lacks
      · rw [beq_false_of_ne hk, ih]
        refine exists_congr fun x => and_congr_left fun hx => ?_
        have lacks : ¬∃ u, some (key, value) = some (k, u) := by
          rintro ⟨u, hu⟩
          exact hk (Prod.mk.inj (Option.some.inj hu)).1.symm
        constructor
        · exact fun h => .inr ⟨lacks, h⟩
        · rintro (⟨has, -⟩ | ⟨-, h⟩)
          · exact absurd has lacks
          · exact h

theorem mem_keys_ofList_iff {l : List (κ × α)} {k : κ} :
    k ∈ (ofList l).keys ↔ ∃ e ∈ l, e.1 = k := by
  have all : l.filterMap some = l := List.filterMap_some
  have keys : k ∈ (ofList l).keys ↔ ∃ v, (ofList l).get? k = some v := by
    rw [Dictionary.keys, List.mem_map]
    constructor
    · rintro ⟨⟨k', v⟩, he, rfl⟩
      exact ⟨v, get?_eq_some_iff.2 he⟩
    · rintro ⟨v, hv⟩
      exact ⟨(k, v), get?_eq_some_iff.1 hv, rfl⟩
  rw [keys]
  constructor
  · rintro ⟨v, hv⟩
    rw [← all, get?_ofList_filterMap_iff] at hv
    obtain ⟨e, he, same⟩ := hv
    exact ⟨e, he.mem, congrArg Prod.fst (Option.some.inj same)⟩
  · rintro ⟨e, he, rfl⟩
    obtain ⟨x, hx⟩ := exists_lastWith (P := fun x : κ × α => ∃ u, some x = some (e.1, u)) he ⟨e.2, rfl⟩
    obtain ⟨u, hu⟩ := hx.has
    refine ⟨u, ?_⟩
    rw [← all, get?_ofList_filterMap_iff]
    exact ⟨x, hx, hu⟩

end Dictionary

/-! ### Bindings -/

namespace PortBinding

theorem length_name (p : Protocol) : p.name.toList.length = 3 := by
  cases p <;> rfl

theorem name_inj {p q : Protocol} (h : p.name = q.name) : p = q := by
  cases p <;> cases q <;> first | rfl | exact absurd h (by decide)

theorem key_eq_iff {p q : PortBinding} :
    p.key = q.key ↔ p.containerPort = q.containerPort ∧ p.protocol = q.protocol := by
  constructor
  · intro h
    have chars := congrArg String.toList h
    simp only [key, String.toList_append] at chars
    obtain ⟨numbers, names⟩ := List.append_inj' chars (by rw [length_name, length_name])
    obtain ⟨digits, -⟩ := List.append_inj' numbers rfl
    have number : p.containerPort.toNat = q.containerPort.toNat :=
      MountOptions.Statement.toDigits_inj (b := 10) (by decide) (by decide)
        (by simpa [Nat.repr] using digits)
    exact ⟨UInt16.toNat_inj.1 number, name_inj (String.toList_inj.1 names)⟩
  · rintro ⟨port, protocol⟩
    rw [key, key, port, protocol]

/-- A binding publishes a port of the container on the host. -/
def Publishes (port : UInt16) (protocol : Protocol) (p : PortBinding) : Prop :=
  p.containerPort = port ∧ p.protocol = protocol ∧ p.hostPort ≠ none

/-- A binding exposes a port of the container without a host port. -/
def Exposes (port : UInt16) (p : PortBinding) : Prop :=
  p.containerPort = port ∧ p.hostPort = none

/-- No port of the container is published on two host ports. -/
def OneHost (ports : List PortBinding) : Prop :=
  ∀ p ∈ ports, ∀ q ∈ ports, p.containerPort = q.containerPort → p.protocol = q.protocol →
    p.hostPort ≠ none → q.hostPort ≠ none → p.hostPort = q.hostPort

/-- No number is exposed without a host port for two protocols. -/
def OneProtocol (ports : List PortBinding) : Prop :=
  ∀ p ∈ ports, ∀ q ∈ ports, p.containerPort = q.containerPort →
    p.hostPort = none → q.hostPort = none → p.protocol = q.protocol

end PortBinding

open PortBinding

variable {ports : List PortBinding} {port host : UInt16} {protocol : Protocol}

/-! ### The first request -/

namespace Docker.ContainerBody

/-- The body binds a port of the container to a port of the host. -/
def Binds (b : ContainerBody) (port : UInt16) (protocol : Protocol) (host : UInt16) : Prop :=
  (PortBinding.key ⟨port, some host, protocol⟩, host) ∈ b.bindings.entries

instance (b : ContainerBody) (port : UInt16) (protocol : Protocol) (host : UInt16) :
    Decidable (b.Binds port protocol host) :=
  inferInstanceAs (Decidable (_ ∈ b.bindings.entries))

/-- What a body says of a list of ports: all of them are exposed, and each is bound to the host port that
the last binding for it gives. -/
structure Tells (b : ContainerBody) (ports : List PortBinding) : Prop where
  exposed : ∀ key, key ∈ b.exposed.keys ↔ ∃ p ∈ ports, p.key = key
  keys : ∀ key host, (key, host) ∈ b.bindings.entries → ∃ p ∈ ports, p.key = key
  bound : ∀ port protocol host, b.Binds port protocol host ↔
    LastWith (Publishes port protocol) ports ⟨port, some host, protocol⟩

theorem ofConfig_ports (c : ContainerConfig) :
    (∃ e, ∀ ports, ofConfig { c with ports := ports } = .error e) ∨
      ∀ ports, ∃ body, ofConfig { c with ports := ports } = .ok body ∧
        body.exposed = Dictionary.ofList (ports.map fun p => (p.key, ())) ∧
        body.bindings = Dictionary.ofList
          (ports.filterMap fun p => p.hostPort.map fun host => (p.key, host)) := by
  cases env : Environment.toList c with
  | error e =>
    refine .inl ⟨e, fun ports => ?_⟩
    have same : Environment.toList { c with ports := ports } = .error e := env
    rw [ofConfig, same]
    rfl
  | ok entries =>
    cases mounts : BodyMount.ofVolumes c.volumes with
    | error e =>
      refine .inl ⟨e, fun ports => ?_⟩
      have same : Environment.toList { c with ports := ports } = .ok entries := env
      rw [ofConfig, same, mounts]
      rfl
    | ok list =>
      refine .inr fun ports => ?_
      have same : Environment.toList { c with ports := ports } = .ok entries := env
      rw [ofConfig, same, mounts]
      exact ⟨_, rfl, rfl, rfl⟩

theorem hostEntry_eq_some_iff {p : PortBinding} {key : String} :
    (p.hostPort.map fun host => (p.key, host)) = some (key, host) ↔
      p.key = key ∧ p.hostPort = some host := by
  cases p.hostPort <;> simp

theorem tells_of_dictionaries {b : ContainerBody}
    (exposed : b.exposed = Dictionary.ofList (ports.map fun p => (p.key, ())))
    (bindings : b.bindings = Dictionary.ofList
      (ports.filterMap fun p => p.hostPort.map fun host => (p.key, host))) : b.Tells ports := by
  have entry (key : String) (host : UInt16) : (key, host) ∈ b.bindings.entries ↔
      ∃ p, LastWith (fun q => q.key = key ∧ q.hostPort ≠ none) ports p ∧
        p.key = key ∧ p.hostPort = some host := by
    rw [← Dictionary.get?_eq_some_iff, bindings, Dictionary.get?_ofList_filterMap_iff]
    simp only [hostEntry_eq_some_iff, exists_and_left, ← Option.ne_none_iff_exists']
  refine ⟨fun key => ?_, fun key host h => ?_, fun port protocol host => ?_⟩
  · rw [exposed, Dictionary.mem_keys_ofList_iff]
    simp
  · obtain ⟨p, last, same, -⟩ := (entry key host).1 h
    exact ⟨p, last.mem, same⟩
  · have publishes : (fun q : PortBinding =>
        q.key = PortBinding.key ⟨port, some host, protocol⟩ ∧ q.hostPort ≠ none) =
          Publishes port protocol := by
      funext q
      rw [key_eq_iff, and_assoc]
      rfl
    rw [Binds, entry, publishes]
    constructor
    · rintro ⟨⟨_, _, _⟩, last, key, rfl⟩
      obtain ⟨rfl, rfl⟩ := key_eq_iff.1 key
      exact last
    · exact fun last => ⟨_, last, rfl, rfl⟩

/-- No binding is lost exactly where no port of the container is published on two host ports. -/
theorem Tells.complete_iff {b : ContainerBody} (h : b.Tells ports) :
    (∀ port protocol host, b.Binds port protocol host ↔ ⟨port, some host, protocol⟩ ∈ ports) ↔
      OneHost ports := by
  have kept (port : UInt16) (protocol : Protocol) :=
    forall_lastWith_iff (P := Publishes port protocol) (l := ports) PortBinding.hostPort
  constructor
  · intro all p hp q hq port protocol published published'
    refine (kept q.containerPort q.protocol).1 ?_ p hp q hq ⟨port, protocol, published⟩
      ⟨rfl, rfl, published'⟩
    rintro ⟨_, _, _⟩ hx ⟨rfl, rfl, given⟩
    obtain ⟨host, rfl⟩ := Option.ne_none_iff_exists'.1 given
    exact ⟨_, (h.bound _ _ host).1 ((all _ _ host).2 hx), rfl⟩
  · intro one port protocol host
    rw [h.bound]
    refine ⟨LastWith.mem, fun hm => ?_⟩
    have published : Publishes port protocol ⟨port, some host, protocol⟩ := ⟨rfl, rfl, nofun⟩
    obtain ⟨⟨_, _, _⟩, last, same⟩ := (kept port protocol).2
      (fun p hp q hq ⟨port, protocol, given⟩ ⟨port', protocol', given'⟩ => one p hp q hq
        (port.trans port'.symm) (protocol.trans protocol'.symm) given given') _ hm published
    obtain ⟨rfl, rfl, -⟩ := last.has
    obtain rfl : _ = some host := same
    exact last

/-- A body is refused whatever the ports are, or one is made for every list of ports. It exposes all ports
of the list and binds each to the last host port that is given for it. So it binds what the list publishes
exactly where the list has one host port for each port. -/
theorem ports_of_body (c : ContainerConfig) :
    (∃ e, ∀ ports, ofConfig { c with ports := ports } = .error e) ∨
      ∀ ports, ∃ body, ofConfig { c with ports := ports } = .ok body ∧ body.Tells ports ∧
        ((∀ port protocol host, body.Binds port protocol host ↔
          ⟨port, some host, protocol⟩ ∈ ports) ↔ OneHost ports) := by
  rcases ofConfig_ports c with refused | made
  · exact .inl refused
  · refine .inr fun ports => ?_
    obtain ⟨body, ok, exposed, bindings⟩ := made ports
    have tells := tells_of_dictionaries exposed bindings
    exact ⟨body, ok, tells, tells.complete_iff⟩

/-- A port that is published on two host ports is bound to the second one only. -/
theorem second_host_port_only : ∃ body,
    ofConfig { ContainerConfig.ofImage "alpine" with
      ports := [⟨80, some 8080, .tcp⟩, ⟨80, some 8081, .tcp⟩] } = .ok body ∧
      body.Binds 80 .tcp 8081 ∧ ¬body.Binds 80 .tcp 8080 :=
  ⟨_, rfl, by decide, by decide⟩

end Docker.ContainerBody

/-! ### The second request -/

namespace Podman

def PortMapping.binding (m : PortMapping) : PortBinding :=
  ⟨m.containerPort, some m.hostPort, m.protocol⟩

theorem PortMapping.map_binding_ofBinding? (ports : List PortBinding) :
    (ports.filterMap ofBinding?).map binding = ports.filter fun p => p.hostPort.isSome := by
  induction ports with
  | nil => rfl
  | cons p ports ih =>
    obtain ⟨port, host, protocol⟩ := p
    cases host with
    | none =>
      rw [List.filterMap_cons_none rfl, ih]
      rfl
    | some host =>
      have mapped : ofBinding? ⟨port, some host, protocol⟩ = some ⟨port, host, protocol⟩ := rfl
      rw [List.filterMap_cons_some mapped, List.map_cons, ih]
      rfl

theorem exposed?_eq_some_iff {p : PortBinding} :
    exposed? p = some (port.toNat, protocol) ↔ p = ⟨port, none, protocol⟩ := by
  obtain ⟨_, host, _⟩ := p
  cases host <;> simp [exposed?, UInt16.toNat_inj]

namespace ContainerSpec

/-- The specification exposes a port of the container without a host port. -/
def Exposes (s : ContainerSpec) (port : UInt16) (protocol : Protocol) : Prop :=
  (port.toNat, protocol) ∈ s.expose.entries

instance (s : ContainerSpec) (port : UInt16) (protocol : Protocol) :
    Decidable (s.Exposes port protocol) :=
  inferInstanceAs (Decidable (_ ∈ s.expose.entries))

/-- A port of the container stands in one of the two places. -/
def Lists (s : ContainerSpec) (port : UInt16) (protocol : Protocol) : Prop :=
  s.Exposes port protocol ∨ ∃ m ∈ s.portMappings, m.containerPort = port ∧ m.protocol = protocol

instance (s : ContainerSpec) (port : UInt16) (protocol : Protocol) : Decidable (s.Lists port protocol) :=
  inferInstanceAs (Decidable (_ ∨ _))

/-- What a specification says of a list of ports: the published ones are mapped in their order, and of
each number that is exposed without a host port the protocol of the last binding is told. -/
structure Tells (s : ContainerSpec) (ports : List PortBinding) : Prop where
  mapped : s.portMappings.map PortMapping.binding = ports.filter fun p => p.hostPort.isSome
  numbers : ∀ number protocol, (number, protocol) ∈ s.expose.entries →
    ∃ port : UInt16, port.toNat = number ∧ ⟨port, none, protocol⟩ ∈ ports
  exposed : ∀ port protocol, s.Exposes port protocol ↔
    LastWith (PortBinding.Exposes port) ports ⟨port, none, protocol⟩

variable {s : ContainerSpec}

/-- The ports do not decide whether a specification is made. -/
theorem ofConfig_ports (c : ContainerConfig) (name : String) :
    (∃ e, ∀ ports, ofConfig { c with ports := ports } name = .error e) ∨
      ∀ ports, ∃ spec, ofConfig { c with ports := ports } name = .ok spec ∧
        spec.portMappings = ports.filterMap PortMapping.ofBinding? ∧
        spec.expose = Dictionary.ofList (ports.filterMap exposed?) := by
  cases env : Environment.toDictionary c with
  | error e =>
    refine .inl ⟨e, fun ports => ?_⟩
    have same : Environment.toDictionary { c with ports := ports } = .error e := env
    rw [ofConfig, same]
    rfl
  | ok entries =>
    cases volumes : SpecVolume.ofVolumes c.volumes with
    | error e =>
      refine .inl ⟨e, fun ports => ?_⟩
      have same : Environment.toDictionary { c with ports := ports } = .ok entries := env
      rw [ofConfig, same, volumes]
      rfl
    | ok list =>
      refine .inr fun ports => ?_
      have same : Environment.toDictionary { c with ports := ports } = .ok entries := env
      rw [ofConfig, same, volumes]
      exact ⟨_, rfl, rfl, rfl⟩

theorem tells_of_lists (mapped : s.portMappings = ports.filterMap PortMapping.ofBinding?)
    (expose : s.expose = Dictionary.ofList (ports.filterMap exposed?)) : s.Tells ports := by
  have entry (number : Nat) (protocol : Protocol) : (number, protocol) ∈ s.expose.entries ↔
      ∃ p, LastWith (fun q => ∃ u, exposed? q = some (number, u)) ports p ∧
        exposed? p = some (number, protocol) := by
    rw [← Dictionary.get?_eq_some_iff, expose, Dictionary.get?_ofList_filterMap_iff]
  refine ⟨?_, fun number protocol h => ?_, fun port protocol => ?_⟩
  · rw [mapped, PortMapping.map_binding_ofBinding?]
  · obtain ⟨⟨port, host, _⟩, last, given⟩ := (entry number protocol).1 h
    cases host with
    | some host => cases given
    | none =>
      obtain ⟨rfl, rfl⟩ := Prod.mk.inj (Option.some.inj given)
      exact ⟨port, rfl, last.mem⟩
  · have exposes : (fun q => ∃ u, exposed? q = some (port.toNat, u)) = PortBinding.Exposes port := by
      funext ⟨_, host, _⟩
      simp [exposed?_eq_some_iff, PortBinding.Exposes]
    rw [Exposes, entry, exposes]
    simp [exposed?_eq_some_iff]

/-- A pair of a port and a protocol is told if it is published, or if it is the last that is exposed
with its number; else it is lost. -/
theorem Tells.lists_iff (h : s.Tells ports) (port : UInt16) (protocol : Protocol) :
    s.Lists port protocol ↔ (∃ host, ⟨port, some host, protocol⟩ ∈ ports) ∨
      LastWith (PortBinding.Exposes port) ports ⟨port, none, protocol⟩ := by
  have published : (∃ m ∈ s.portMappings, m.containerPort = port ∧ m.protocol = protocol) ↔
      ∃ host, ⟨port, some host, protocol⟩ ∈ ports := by
    have member (p : PortBinding) :
        p ∈ s.portMappings.map PortMapping.binding ↔ p ∈ ports ∧ p.hostPort.isSome := by
      rw [h.mapped, List.mem_filter]
    constructor
    · rintro ⟨m, hm, rfl, rfl⟩
      exact ⟨m.hostPort, ((member m.binding).1 (List.mem_map_of_mem hm)).1⟩
    · rintro ⟨host, hp⟩
      obtain ⟨m, hm, same⟩ := List.mem_map.1 ((member _).2 ⟨hp, rfl⟩)
      obtain ⟨rfl, -, rfl⟩ := PortBinding.mk.inj same
      exact ⟨m, hm, rfl, rfl⟩
  rw [Lists, h.exposed, published, or_comm]

theorem Tells.complete_iff (h : s.Tells ports) :
    (∀ port protocol, s.Exposes port protocol ↔ ⟨port, none, protocol⟩ ∈ ports) ↔
      OneProtocol ports := by
  have kept (port : UInt16) :=
    forall_lastWith_iff (P := PortBinding.Exposes port) (l := ports) PortBinding.protocol
  constructor
  · intro all p hp q hq port given given'
    refine (kept q.containerPort).1 ?_ p hp q hq ⟨port, given⟩ ⟨rfl, given'⟩
    rintro ⟨_, _, _⟩ hx ⟨rfl, rfl⟩
    exact ⟨_, (h.exposed _ _).1 ((all _ _).2 hx), rfl⟩
  · intro one port protocol
    rw [h.exposed]
    refine ⟨LastWith.mem, fun hm => ?_⟩
    obtain ⟨⟨_, _, _⟩, last, same⟩ := (kept port).2
      (fun p hp q hq ⟨port, given⟩ ⟨port', given'⟩ =>
        one p hp q hq (port.trans port'.symm) given given') _ hm ⟨rfl, rfl⟩
    obtain ⟨rfl, rfl⟩ := last.has
    obtain rfl : _ = protocol := same
    exact last

/-- A specification is refused whatever the ports are, or one is made for every list of ports. It maps the
published ones in their order, and of several that are exposed with one number it tells the last. So a pair
of the list is lost if it is not published and not that last one, and none that is exposed loses its
protocol exactly where the list has one protocol for each number. -/
theorem ports_of_specification (c : ContainerConfig) (name : String) :
    (∃ e, ∀ ports, ofConfig { c with ports := ports } name = .error e) ∨
      ∀ ports, ∃ spec, ofConfig { c with ports := ports } name = .ok spec ∧ spec.Tells ports ∧
        (∀ port protocol, spec.Lists port protocol ↔ (∃ host, ⟨port, some host, protocol⟩ ∈ ports) ∨
          LastWith (PortBinding.Exposes port) ports ⟨port, none, protocol⟩) ∧
        ((∀ port protocol, spec.Exposes port protocol ↔ ⟨port, none, protocol⟩ ∈ ports) ↔
          OneProtocol ports) := by
  rcases ofConfig_ports c name with refused | made
  · exact .inl refused
  · refine .inr fun ports => ?_
    obtain ⟨spec, ok, mapped, expose⟩ := made ports
    have tells := tells_of_lists mapped expose
    exact ⟨spec, ok, tells, tells.lists_iff, tells.complete_iff⟩

/-- A number that is exposed for two protocols is told with the second one only. -/
theorem second_protocol_only : ∃ spec,
    ofConfig { ContainerConfig.ofImage "alpine" with
      ports := [⟨53, none, .tcp⟩, ⟨53, none, .udp⟩] } "resolver" = .ok spec ∧
      spec.Exposes 53 .udp ∧ ¬spec.Lists 53 .tcp :=
  ⟨_, rfl, by decide, by decide⟩

end ContainerSpec
end Podman
end ContainerBuild
