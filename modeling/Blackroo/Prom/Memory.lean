import Mathlib.Algebra.Order.Group.Nat
import Mathlib.Data.Int.ConditionallyCompleteOrder
import Mathlib.Order.CompletePartialOrder
import Mathlib.Order.ConditionallyCompleteLattice.Basic
import Mathlib.Order.Interval.Set.Disjoint
import Blackroo.Exec.FixedBinary

/-!
# The memory that the page allocator gets

`setup_memory_region` of `arch/mipsnommu/ps/prom/memory.c` decides how much RAM there is, holds
back its top for the programs that `binfmt_fixed` loads, and hands the rest to the page
allocator.  Where those programs are loaded is decided elsewhere, by the constants of
`asm/blackroo-user.h`, and the two do not consult each other: the window follows the size
options of the kernel configuration, the size of the region follows the probe if there is one,
and options of which one, `CONFIG_PSX_16MB_RAM`, it does not know.

The probe writes three patterns, 2 MB apart, and looks which of them have survived.  On RAM that
repeats itself (`Machine`) it returns half of what a machine of 2 or 4 MB has
(`psxProbeRam_size`).

`window_reserved_iff` says for which configurations and machines the window is inside the RAM
and out of the allocator's reach.
-/

namespace Blackroo
namespace Prom

open Exec

/-! ## The configuration -/

/-- The options of the kernel configuration.  `CONFIG_PSX_2MB_RAM` is the `#else` of both files,
and tested by neither. -/
structure Config where
  psx16mbRam : Bool
  psx8mbRam : Bool
  psx4mbRam : Bool
  psx2mbRam : Bool
  psxRamAuto : Bool
  binfmtFixed : Bool
  /-- `CONFIG_BLACKROO_USER_RESERVE_KB`, if it is defined -/
  userReserveKb : Option Nat
  deriving DecidableEq, Repr

namespace Config

/-- The size option that `asm/blackroo-user.h` goes by. -/
def ramOption (c : Config) : RamOption :=
  if c.psx16mbRam then .mb16
  else if c.psx8mbRam then .mb8
  else if c.psx4mbRam then .mb4
  else .mb2

/-- `BLACKROO_USER_END`. -/
def userEnd (c : Config) : Int := c.ramOption.userTop

/-- `BLACKROO_USER_SIZE`. -/
def userSize (c : Config) : Nat := c.userReserveKb.getD 192 <<< 10

/-- `BLACKROO_USER_BASE`, negative if the window does not fit. -/
def userBase (c : Config) : Int := c.userEnd - c.userSize

/-- The window of the programs. -/
def userWindow (c : Config) : Set Int := Set.Ico c.userBase c.userEnd

end Config

/-! ## The machine -/

/-- The RAM shows up at every multiple of its size. -/
structure Machine where
  installed : Nat
  ram : Nat → UInt32
  memSizeReg : UInt32

namespace Machine

def read (m : Machine) (a : Nat) : UInt32 := m.ram (a % m.installed)

def write (m : Machine) (a : Nat) (x : UInt32) : Machine :=
  { m with ram := Function.update m.ram (a % m.installed) x }

def setMemSizeReg (m : Machine) (x : UInt32) : Machine := { m with memSizeReg := x }

@[simp] theorem read_setMemSizeReg (m : Machine) (x : UInt32) (a : Nat) :
    (m.setMemSizeReg x).read a = m.read a := rfl

/-- A write is seen at every address that is the same cell. -/
theorem read_write (m : Machine) (a b : Nat) (x : UInt32) :
    (m.write a x).read b = if b % m.installed = a % m.installed then x else m.read b := by
  rw [read, write]
  exact Function.update_apply _ _ _ _

end Machine

def memSizeReg2mb : UInt32 := 0x0888
def memSizeReg4mb : UInt32 := 0x0988
def memSizeReg8mb : UInt32 := 0x0B88

/-- The three patterns. -/
def probePatterns (m : Machine) : Machine :=
  (((m.setMemSizeReg memSizeReg8mb).write 0 0xDEADBEEF).write 0x200000 0xCAFEBABE).write
    0x400000 0x12345678

/-- The second try, with two patterns. -/
def reprobe (m : Machine) : Machine := (m.write 0 0xDEADBEEF).write 0x200000 0xCAFEBABE

def psxProbeRam (m : Machine) : Nat × Machine :=
  let m := probePatterns m
  if m.read 0 ≠ 0xDEADBEEF then
    let m := reprobe m
    if m.read 0 = 0xCAFEBABE then (1 <<< 20, m.setMemSizeReg memSizeReg2mb)
    else (2 <<< 20, m.setMemSizeReg memSizeReg2mb)
  else if m.read 0x200000 = 0xCAFEBABE ∧ m.read 0x400000 = 0x12345678 then
    (8 <<< 20, m.setMemSizeReg memSizeReg8mb)
  else if m.read 0x200000 = 0xCAFEBABE then (4 <<< 20, m.setMemSizeReg memSizeReg4mb)
  else (2 <<< 20, m.setMemSizeReg memSizeReg2mb)

/-- `mem_size` as the options or the probe have it. -/
def ramSize (c : Config) (m : Machine) : Nat × Machine :=
  if c.psxRamAuto then psxProbeRam m
  else if c.psx8mbRam then (8 <<< 20, m.setMemSizeReg memSizeReg8mb)
  else if c.psx4mbRam then (4 <<< 20, m.setMemSizeReg memSizeReg4mb)
  else (2 <<< 20, m.setMemSizeReg memSizeReg2mb)

/-- What is left of so much RAM when the top of it is held back. -/
def holdBack (c : Config) (memSize : Nat) : Nat :=
  if c.binfmtFixed ∧ memSize > c.userSize then memSize - c.userSize else memSize

/-- `setup_memory_region`: the size of the region that `add_memory_region` gets, from 0 on. -/
def setupMemoryRegion (c : Config) (m : Machine) : Nat × Machine :=
  (holdBack c (ramSize c m).1, (ramSize c m).2)

/-- The memory of the page allocator. -/
def allocatorRegion (c : Config) (m : Machine) : Set Int :=
  Set.Ico 0 (setupMemoryRegion c m).1

/-! ## What the probe returns -/

/-- The answer of the probe: 1 MB if the RAM repeats itself after 2 MB, 2 MB if after 4 MB, and 8 MB
otherwise. -/
def probedSize (installed : Nat) : Nat :=
  if installed ∣ 0x200000 then 1 <<< 20
  else if installed ∣ 0x400000 then 2 <<< 20
  else 8 <<< 20

/-- Two addresses are the same cell if the RAM divides their distance. -/
theorem same_cell_iff (n a d : Nat) : a % n = (a + d) % n ↔ n ∣ d := Nat.left_modEq_add_iff

section Probe

variable (m : Machine)

theorem read_probePatterns (b : Nat) :
    (probePatterns m).read b =
      if b % m.installed = 0x400000 % m.installed then 0x12345678
      else if b % m.installed = 0x200000 % m.installed then 0xCAFEBABE
      else if b % m.installed = 0 % m.installed then 0xDEADBEEF
      else m.read b := by
  rw [probePatterns, Machine.read_write, Machine.read_write, Machine.read_write,
    Machine.read_setMemSizeReg]
  rfl

theorem read_reprobe (b : Nat) :
    (reprobe m).read b =
      if b % m.installed = 0x200000 % m.installed then 0xCAFEBABE
      else if b % m.installed = 0 % m.installed then 0xDEADBEEF
      else m.read b := by
  rw [reprobe, Machine.read_write, Machine.read_write]
  rfl

theorem installed_probePatterns : (probePatterns m).installed = m.installed := rfl

/-- **What the probe returns** depends on where the RAM repeats itself. -/
theorem psxProbeRam_size : (psxProbeRam m).1 = probedSize m.installed := by
  have h02 : 0 % m.installed = 0x200000 % m.installed ↔ m.installed ∣ 0x200000 :=
    same_cell_iff m.installed 0 0x200000
  have h04 : 0 % m.installed = 0x400000 % m.installed ↔ m.installed ∣ 0x400000 :=
    same_cell_iff m.installed 0 0x400000
  have h24 : 0x200000 % m.installed = 0x400000 % m.installed ↔ m.installed ∣ 0x200000 :=
    same_cell_iff m.installed 0x200000 0x200000
  rw [psxProbeRam, probedSize]
  simp only [read_probePatterns, read_reprobe, installed_probePatterns, h02, h04, h24]
  by_cases h4 : m.installed ∣ 0x400000
  · by_cases h2 : m.installed ∣ 0x200000
    · simp [h2, h4]
    · simp [h2, h4]
  · have h2 : ¬ m.installed ∣ 0x200000 := fun h => h4 (h.trans (by decide))
    simp [h2, h4]

end Probe

/-! ## The window -/

/-- `mem_size` before anything is held back. -/
def knownSize (c : Config) (installed : Nat) : Nat :=
  if c.psxRamAuto then probedSize installed
  else if c.psx8mbRam then 8 <<< 20
  else if c.psx4mbRam then 4 <<< 20
  else 2 <<< 20

theorem ramSize_eq (c : Config) (m : Machine) : (ramSize c m).1 = knownSize c m.installed := by
  unfold ramSize knownSize
  split
  · exact psxProbeRam_size m
  · split
    · rfl
    · split <;> rfl

/-- The window fits into the RAM, and the RAM that is accounted for does not reach beyond the
window if its top is held back, and not into it otherwise. -/
def Fits (c : Config) (installed : Nat) : Prop :=
  c.userSize ≤ c.ramOption.userTop ∧ c.ramOption.userTop ≤ installed ∧
    if c.binfmtFixed ∧ knownSize c installed > c.userSize then
      knownSize c installed ≤ c.ramOption.userTop
    else knownSize c installed + c.userSize ≤ c.ramOption.userTop

instance (c : Config) (installed : Nat) : Decidable (Fits c installed) :=
  inferInstanceAs (Decidable (_ ∧ _ ∧ _))

/-- The page allocator does not own any of the window, and there is RAM under all of it. -/
def Reserved (c : Config) (m : Machine) : Prop :=
  Disjoint (allocatorRegion c m) c.userWindow ∧ c.userWindow ⊆ Set.Ico 0 (m.installed : Int)

theorem holdBack_pos (c : Config) (m : Machine) : 0 < holdBack c (knownSize c m.installed) := by
  have hpos : 0 < knownSize c m.installed := by
    rw [knownSize, probedSize]
    repeat' split
    all_goals decide
  rw [holdBack]
  split
  · omega
  · exact hpos

/-- **When the window is reserved**: if there is none, or else exactly if it fits. -/
theorem window_reserved_iff (c : Config) (m : Machine) :
    Reserved c m ↔ c.userSize = 0 ∨ Fits c m.installed := by
  have htop : 0 < c.ramOption.userTop := by cases c.ramOption <;> decide
  have hpos := holdBack_pos c m
  rw [Reserved, allocatorRegion, setupMemoryRegion, ramSize_eq, Config.userWindow]
  by_cases h0 : c.userSize = 0
  · have hempty : Set.Ico c.userBase c.userEnd = ∅ := by
      rw [Config.userBase, h0]
      simp
    rw [hempty]
    exact iff_of_true ⟨disjoint_bot_right, Set.empty_subset _⟩ (.inl h0)
  · have hlt : c.userBase < c.userEnd := by
      rw [Config.userBase]
      omega
    have hregion : (0 : Int) < holdBack c (knownSize c m.installed) := by omega
    rw [Set.Ico_disjoint_Ico, Set.Ico_subset_Ico_iff hlt, or_iff_right h0, Fits]
    have hdef : c.userBase = (c.ramOption.userTop : Int) - c.userSize := rfl
    have hend : c.userEnd = (c.ramOption.userTop : Int) := rfl
    rw [hdef, hend]
    rw [holdBack] at hregion ⊢
    split <;> omega

/-- The configuration that leaves the size to the probe. -/
def autoConfig : Config where
  psx16mbRam := false
  psx8mbRam := false
  psx4mbRam := false
  psx2mbRam := false
  psxRamAuto := true
  binfmtFixed := true
  userReserveKb := none

/-- The probe finds 8 MB, and the window is at the top of the first two. -/
theorem window_owned_by_allocator : ¬ Reserved autoConfig ⟨0x800000, fun _ => 0, 0⟩ := by
  rintro ⟨hdisjoint, -⟩
  have hregion : (0x1fffff : Int) ∈ allocatorRegion autoConfig ⟨0x800000, fun _ => 0, 0⟩ := by
    rw [allocatorRegion, setupMemoryRegion, ramSize_eq]
    exact ⟨by decide, by decide⟩
  have hwindow : (0x1fffff : Int) ∈ autoConfig.userWindow := ⟨by decide, by decide⟩
  exact Set.disjoint_left.mp hdisjoint hregion hwindow

end Prom
end Blackroo
