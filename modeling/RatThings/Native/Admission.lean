import Mathlib.Algebra.GroupWithZero.Nat

/-!
# Admission of native workers

A native worker is a virtual machine with one CPU and 2 GiB of memory. Whether the host may carry
one is decided from what the host reports, from the free disk space, and from whether the machine
slot is available. The two kinds of image have rules of their own, which differ in the architecture
they need and in how they read the available memory.

Half of the physical memory is kept for the host. Sizes that are compared with it are doubled here,
so that no half bytes arise.
-/

namespace RatThings

def gib : ℕ := 1024 ^ 3

inductive NativeMemoryPressure : Type
  | normal | warning | critical | unknown
deriving DecidableEq, Repr

structure NativeHostFacts where
  supported : Bool
  architecture : String
  physicalMemoryBytes : ℕ
  availableMemoryBytes : Option ℕ
  minimumCPUCount : ℕ
  maximumCPUCount : ℕ
  minimumMemoryBytes : ℕ
  maximumMemoryBytes : ℕ
  memoryPressure : NativeMemoryPressure
deriving DecidableEq, Repr

structure NativeResources where
  cpuCount : ℕ
  memoryMiB : ℕ
deriving DecidableEq, Repr

inductive NativeAdmission : Type
  | admitted (resources : NativeResources)
  | wait (code message : String)
  | unsupported (code message : String)
deriving DecidableEq, Repr

structure NativeAdmissionInput where
  facts : NativeHostFacts
  requestedCPUCount : ℕ
  slotAvailable : Bool
  availableDiskBytes : ℕ
  requiredDiskBytes : ℕ
  existingAllocation : Bool
deriving DecidableEq, Repr

/-- Twice the memory kept for the host. -/
def hostReserve (facts : NativeHostFacts) : ℕ := max (8 * gib) facts.physicalMemoryBytes

/-- Twice the memory a worker takes, unless it is allocated already. -/
def workerReserve (existingAllocation : Bool) : ℕ := if existingAllocation then 0 else 6 * gib

/-- The host cannot carry a worker at all. -/
def hostUnsupported (architecture : String) (input : NativeAdmissionInput) : Bool :=
  let facts := input.facts
  !facts.supported || facts.architecture != architecture || input.requestedCPUCount != 1 ||
    1 < facts.minimumCPUCount || facts.maximumCPUCount < 1 ||
    2 * gib < facts.minimumMemoryBytes || facts.maximumMemoryBytes < 2 * gib ||
    facts.physicalMemoryBytes < 8 * gib ||
    2 * facts.physicalMemoryBytes - hostReserve facts < 6 * gib

def nativeAdmission (input : NativeAdmissionInput) : NativeAdmission :=
  if hostUnsupported "arm64" input then
    .unsupported "local_native_unsupported"
      ("Native workers require Apple silicon virtualization, at least 8 GiB of host memory, and " ++
        "support for one CPU and 2 GiB of guest memory.")
  else if input.facts.memoryPressure = .unknown ∨ input.facts.memoryPressure = .critical then
    .wait "local_memory_pressure" (if input.facts.memoryPressure = .critical then
      "Native work is queued while this Mac has critical memory pressure."
      else "Native work is queued because this Mac's memory pressure is unavailable.")
  else if !input.slotAvailable then
    .wait "local_capacity"
      "The native worker slot is in use. Work stays queued until it is free."
  else if input.availableDiskBytes < input.requiredDiskBytes then
    .wait "local_disk_capacity" ("Native work needs " ++ toString input.requiredDiskBytes ++
      " bytes on the profile filesystem; " ++ toString input.availableDiskBytes ++
      " bytes are available.")
  else .admitted ⟨1, 2048⟩

def linuxKvmAdmission (input : NativeAdmissionInput) : NativeAdmission :=
  if hostUnsupported "x64" input then
    .unsupported "local_native_unsupported"
      ("Linux development workers require x86-64 KVM, private VM sockets, user resource " ++
        "controls and at least 8 GiB of host memory.")
  else if input.facts.memoryPressure = .unknown ∨ input.facts.memoryPressure = .critical ∨
      input.facts.availableMemoryBytes.any fun available ↦
        2 * available < hostReserve input.facts + workerReserve input.existingAllocation then
    .wait "local_memory_pressure"
      "Linux work is queued while available host memory cannot safely accommodate a worker."
  else if !input.slotAvailable then
    .wait "local_capacity" "The Linux worker slot is in use. Work stays queued until it is free."
  else if input.availableDiskBytes < input.requiredDiskBytes then
    .wait "local_disk_capacity" ("Native work needs " ++ toString input.requiredDiskBytes ++
      " bytes on the profile filesystem; " ++ toString input.availableDiskBytes ++
      " bytes are available.")
  else .admitted ⟨1, 2048⟩

inductive NativeProvenance : Type
  | trustedRelease | developmentAssets | linuxKvmDevelopment
deriving DecidableEq, Repr

def imageAdmission : NativeProvenance → NativeAdmissionInput → NativeAdmission
  | .linuxKvmDevelopment => linuxKvmAdmission
  | _ => nativeAdmission

/-- Nothing is admitted while the slot is taken. -/
theorem slotAvailable_of_admitted {provenance : NativeProvenance} {input : NativeAdmissionInput}
    {resources : NativeResources} (h : imageAdmission provenance input = .admitted resources) :
    input.slotAvailable = true := by
  have hnative : nativeAdmission input = .admitted resources → input.slotAvailable = true := by
    unfold nativeAdmission
    intro h
    split at h
    · cases h
    split at h
    · cases h
    split at h
    · cases h
    · next hslot => simpa using hslot
  have hlinux : linuxKvmAdmission input = .admitted resources → input.slotAvailable = true := by
    unfold linuxKvmAdmission
    intro h
    split at h
    · cases h
    split at h
    · cases h
    split at h
    · cases h
    · next hslot => simpa using hslot
  cases provenance with
  | linuxKvmDevelopment => exact hlinux h
  | _ => exact hnative h

end RatThings
