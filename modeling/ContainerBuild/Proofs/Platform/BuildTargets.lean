import ContainerBuild.Proofs.Platform.Spelling

/-!
# What a host builds for

A desktop host is one whose containers run in a virtual machine, whatever their architecture. It builds
for the platform of its containers and for a second Linux platform, which is never the same as the first.
The second has the architecture of the host where that has one of the known names; any other name is lost,
and `unknown` stands in its place. Every other host builds for itself.
-/

namespace ContainerBuild

namespace Os

variable {name : String}

/-- The names of the systems whose containers run in a virtual machine. -/
def desktopNames : List String := ["darwin", "macos", "windows"]

/-- A system whose containers run in a virtual machine, by its name in any letter case. -/
def IsDesktop (name : String) : Prop := Text.lowerAscii name ∈ desktopNames

instance (name : String) : Decidable (IsDesktop name) :=
  inferInstanceAs (Decidable (Text.lowerAscii name ∈ desktopNames))

theorem isVirtualized_ofName_iff : (ofName name).isVirtualized = true ↔ IsDesktop name := by
  unfold IsDesktop ofName
  generalize Text.lowerAscii name = folded
  constructor
  · intro h
    split at h
    · cases h
    · decide
    · decide
    · decide
    · cases h
  · intro h
    simp only [desktopNames, List.mem_cons, List.not_mem_nil, or_false] at h
    rcases h with rfl | rfl | rfl <;> rfl

theorem IsDesktop.ne_linux (h : IsDesktop name) : name ≠ "linux" := by
  rintro rfl
  revert h
  decide

end Os

namespace Arch

variable {name : String}

/-- A name that stands for a known architecture, or is the word for all others itself. -/
def Keeps (name : String) : Prop :=
  ofName name ≠ unknown ∨ Text.lowerAscii name = unknown.name

theorem name_ofName_eq_iff : (ofName name).name = canonicalName name ↔ Keeps name := by
  unfold Keeps
  by_cases h : ofName name = unknown
  · rw [canonicalName_of_unknown h, h]
    simp [eq_comm]
  · rw [canonicalName_of_known h]
    simp [h]

theorem canonicalName_eq_amd64_iff : canonicalName name = amd64.name ↔ ofName name = amd64 := by
  constructor
  · intro h
    rw [← ofName_name amd64, ← h]
    by_cases hn : ofName name = unknown
    · rw [canonicalName_of_unknown hn, ofName_lowerAscii]
    · rw [canonicalName_of_known hn, ofName_name]
  · intro h
    rw [canonicalName_of_known (by rw [h]; decide), h]

end Arch

namespace PlatformSpec

theorem linux_eq (arch : Arch) : linux arch = ⟨"linux", arch.name, none⟩ := by
  cases arch <;> decide

end PlatformSpec

namespace Platform

variable {h : PlatformSpec}

/-- The architecture that is to be built for beside the one of the containers: that of the host, under
its own name, or the counterpart of `amd64`. -/
def companionName (h : PlatformSpec) : String :=
  if Arch.canonicalName h.architecture = Arch.amd64.name then Arch.arm64.name
  else Arch.canonicalName h.architecture

/-- The platforms that a host is to build for, whatever the name of its architecture. -/
def expectedPlatforms (h : PlatformSpec) : List PlatformSpec :=
  if Os.IsDesktop h.os then
    [⟨Os.linux.name, Arch.amd64.name, none⟩, ⟨Os.linux.name, companionName h, none⟩]
  else [h]

theorem containerFor_of_isDesktop (desktop : Os.IsDesktop h.os) :
    containerFor h = PlatformSpec.linux .amd64 :=
  if_pos (Os.isVirtualized_ofName_iff.2 desktop)

theorem containerFor_of_not_isDesktop (native : ¬Os.IsDesktop h.os) : containerFor h = h :=
  if_neg fun v => native (Os.isVirtualized_ofName_iff.1 v)

theorem same_of_isDesktop (desktop : Os.IsDesktop h.os) : (forHost h).same = false := by
  have ne := desktop.ne_linux
  simp [same, forHost, containerFor_of_isDesktop desktop, PlatformSpec.linux_eq, PlatformSpec.sameAs, ne]

theorem same_of_not_isDesktop (native : ¬Os.IsDesktop h.os) : (forHost h).same = true := by
  simp [same, forHost, containerFor_of_not_isDesktop native, PlatformSpec.sameAs_refl]

theorem companion_of_isDesktop (desktop : Os.IsDesktop h.os) : (forHost h).companion =
    PlatformSpec.linux (if Arch.ofName h.architecture = .amd64 then .arm64
      else Arch.ofName h.architecture) := by
  unfold companion forHost
  simp only [containerFor_of_isDesktop desktop]
  cases Arch.ofName h.architecture <;> decide

theorem buildPlatforms_of_isDesktop (desktop : Os.IsDesktop h.os) : (forHost h).buildPlatforms =
    [PlatformSpec.linux .amd64, (forHost h).companion] := by
  rw [buildPlatforms, same_of_isDesktop desktop, if_neg Bool.false_ne_true]
  exact congrArg (fun p => [p, (forHost h).companion]) (containerFor_of_isDesktop desktop)

theorem buildPlatforms_of_not_isDesktop (native : ¬Os.IsDesktop h.os) :
    (forHost h).buildPlatforms = [h] := by
  rw [buildPlatforms, same_of_not_isDesktop native, if_pos rfl]
  exact congrArg (fun p => [p]) (containerFor_of_not_isDesktop native)

theorem sameAs_companion (desktop : Os.IsDesktop h.os) :
    (PlatformSpec.linux .amd64).sameAs (forHost h).companion = false := by
  rw [companion_of_isDesktop desktop]
  cases Arch.ofName h.architecture <;> decide

/-- The second platform is the one that is expected just if the name of the architecture is kept. -/
theorem companion_eq_iff (desktop : Os.IsDesktop h.os) :
    (forHost h).companion = ⟨Os.linux.name, companionName h, none⟩ ↔ Arch.Keeps h.architecture := by
  rw [companion_of_isDesktop desktop, PlatformSpec.linux_eq, companionName, ← Arch.name_ofName_eq_iff]
  by_cases intel : Arch.ofName h.architecture = .amd64
  · have spelled := Arch.canonicalName_eq_amd64_iff.2 intel
    rw [if_pos intel, if_pos spelled, spelled, intel]
    exact iff_of_true rfl rfl
  · have other : Arch.canonicalName h.architecture ≠ Arch.amd64.name := fun e =>
      intel (Arch.canonicalName_eq_amd64_iff.1 e)
    rw [if_neg intel, if_neg other, PlatformSpec.mk.injEq]
    simp [Os.name]

/-- A desktop host builds for `linux/amd64` and for another Linux platform without a variant, whose
architecture is that of the host as far as its name is known; every other host builds for itself, its
variant included. The platforms are those that are expected of the host just if it is no desktop host or
its architecture keeps its name. -/
theorem platforms_of_host (h : PlatformSpec) :
    (Os.IsDesktop h.os → (forHost h).same = false ∧ ∃ second,
      (forHost h).buildPlatforms = [⟨"linux", "amd64", none⟩, second] ∧
        second = ⟨"linux", if Arch.ofName h.architecture = .amd64 then "arm64"
          else (Arch.ofName h.architecture).name, none⟩ ∧
        (⟨"linux", "amd64", none⟩ : PlatformSpec).sameAs second = false) ∧
      (¬Os.IsDesktop h.os → (forHost h).same = true ∧ (forHost h).container = h ∧
        (forHost h).buildPlatforms = [h]) ∧
      ((forHost h).buildPlatforms = expectedPlatforms h ↔
        (Os.IsDesktop h.os → Arch.Keeps h.architecture)) := by
  refine ⟨fun desktop => ?_, fun native => ?_, ?_⟩
  · refine ⟨same_of_isDesktop desktop, _, buildPlatforms_of_isDesktop desktop, ?_,
      sameAs_companion desktop⟩
    rw [companion_of_isDesktop desktop, PlatformSpec.linux_eq]
    split <;> rfl
  · exact ⟨same_of_not_isDesktop native, containerFor_of_not_isDesktop native,
      buildPlatforms_of_not_isDesktop native⟩
  · unfold expectedPlatforms
    by_cases desktop : Os.IsDesktop h.os
    · rw [if_pos desktop, buildPlatforms_of_isDesktop desktop, PlatformSpec.linux_eq, List.cons.injEq,
        List.cons.injEq, companion_eq_iff desktop]
      simp [desktop, Os.name]
    · rw [if_neg desktop, buildPlatforms_of_not_isDesktop desktop]
      simp [desktop]

/-- A desktop host with an architecture that has no known name does not build for it. -/
theorem unknown_architecture_lost :
    Os.IsDesktop (PlatformSpec.of "darwin" "riscv64").os ∧
      expectedPlatforms (PlatformSpec.of "darwin" "riscv64") =
        [⟨"linux", "amd64", none⟩, ⟨"linux", "riscv64", none⟩] ∧
      (forHost (PlatformSpec.of "darwin" "riscv64")).buildPlatforms =
        [⟨"linux", "amd64", none⟩, ⟨"linux", "unknown", none⟩] ∧
      (forHost (PlatformSpec.of "darwin" "riscv64")).buildPlatforms ≠
        expectedPlatforms (PlatformSpec.of "darwin" "riscv64") := by
  decide

end Platform
end ContainerBuild
