import Mathlib.Algebra.Order.Group.Nat
import Blackroo.Prom.Memory

/-!
# The two probes for RAM

kloader looks for the size of the RAM before it boots a kernel (`detect_ram` of `hwinfo.c`), and a
kernel built with `CONFIG_PSX_RAM_AUTO` looks once more (`psx_probe_ram`, in `Prom.Memory`).  Both
write the same three patterns at 0, at 2 MB and at 4 MB, and both go by which of them are left.
They differ in what they conclude from the first cell.

RAM of a size that divides 4 MB shows the pattern of 4 MB at 0.  That is RAM of 4 MB as much as RAM
of 2 MB, and neither probe has a cell that would tell the two apart: kloader takes both for 2 MB
(`detectRam_size`), and the kernel's second try, which asks whether 2 MB is the same cell as 0,
takes 4 MB for 2 MB and 2 MB for 1 MB (`psxProbeRam_size`).  The branch for 4 MB is reached in
neither.

`size_found_iff` is the comparison with the RAM that there is: the probes find it unless it is 2 MB
or 4 MB.
-/

namespace Blackroo
namespace Kloader

open Prom

/-! ## `detect_ram` -/

/-- The fields of `hw_info_t` that `detect_ram` sets. -/
structure HwInfo where
  ramSizeKb : UInt32
  ramReg : UInt32
  deriving DecidableEq, Repr

/-- What is concluded from the cells after the patterns have been written. -/
def ramInfo (m : Machine) : HwInfo :=
  if m.read 0 = 0x12345678 ∨ m.read 0 = 0xCAFEBABE then ⟨2048, 0x0888⟩
  else if m.read 0x400000 = 0x12345678 ∧ m.read 0x200000 = 0xCAFEBABE then ⟨8192, 0x0B88⟩
  else if m.read 0x200000 = 0xCAFEBABE then ⟨4096, 0x0988⟩
  else ⟨2048, 0x0888⟩

/-- The register and the patterns are those of the kernel's probe. -/
def detectRam (m : Machine) : HwInfo × Machine :=
  let m := probePatterns m
  let info := ramInfo m
  (info, m.setMemSizeReg info.ramReg)

/-- **What kloader finds**: 2 MB if the RAM repeats itself after 4 MB, and 8 MB otherwise. -/
theorem detectRam_size (m : Machine) :
    (detectRam m).1.ramSizeKb = if m.installed ∣ 0x400000 then 2048 else 8192 := by
  have h04 : 0 % m.installed = 0x400000 % m.installed ↔ m.installed ∣ 0x400000 :=
    same_cell_iff m.installed 0 0x400000
  have h02 : 0 % m.installed = 0x200000 % m.installed ↔ m.installed ∣ 0x200000 :=
    same_cell_iff m.installed 0 0x200000
  have h24 : 0x200000 % m.installed = 0x400000 % m.installed ↔ m.installed ∣ 0x200000 :=
    same_cell_iff m.installed 0x200000 0x200000
  rw [detectRam]
  simp only [ramInfo, read_probePatterns, h04, h02, h24]
  by_cases h4 : m.installed ∣ 0x400000
  · simp [h4]
  · have h2 : ¬ m.installed ∣ 0x200000 := fun h => h4 (h.trans (by decide))
    simp [h4, h2]

/-! ## The RAM that there is -/

/-- The size that a probe should return: no more than 8 MB can be addressed. -/
def addressable (m : Machine) : Nat := min m.installed (8 <<< 20)

/-- Both probes return the size of the RAM, kloader's from 2 MB on. -/
def SizeFound (m : Machine) : Prop :=
  (psxProbeRam m).1 = addressable m ∧
    (2 <<< 20 ≤ m.installed → (detectRam m).1.ramSizeKb.toNat * 1024 = addressable m)

section PowerOfTwo

variable {m : Machine} {k : Nat} (hm : m.installed = 2 ^ k)

include hm

/-- Where RAM of so many bits repeats itself. -/
theorem installed_dvd_iff (j : Nat) : m.installed ∣ 2 ^ j ↔ k ≤ j := by
  rw [hm]
  exact Nat.pow_dvd_pow_iff_le_right (by decide)

theorem installed_eq_iff (j : Nat) : m.installed = 2 ^ j ↔ k = j := by
  rw [hm]
  exact Nat.pow_right_inj (by decide)

theorem addressable_eq : addressable m = 2 ^ min k 23 := by
  rw [addressable, hm]
  rcases Nat.le_total k 23 with h | h
  · rw [Nat.min_eq_left h]
    exact Nat.min_eq_left (Nat.pow_le_pow_right (by decide) h)
  · rw [Nat.min_eq_right h]
    have h23 : 2 ^ 23 ≤ 2 ^ k := Nat.pow_le_pow_right (by decide) h
    exact Nat.min_eq_right h23

/-- **The kernel's probe is right** for 1 MB and from 8 MB on. -/
theorem psxProbeRam_eq_addressable_iff (hk : 20 ≤ k) :
    (psxProbeRam m).1 = addressable m ↔ k ≠ 21 ∧ k ≠ 22 := by
  have h2 : m.installed ∣ 0x200000 ↔ k ≤ 21 := installed_dvd_iff hm 21
  have h4 : m.installed ∣ 0x400000 ↔ k ≤ 22 := installed_dvd_iff hm 22
  have hprobed : (psxProbeRam m).1 = 2 ^ (if k ≤ 21 then 20 else if k ≤ 22 then 21 else 23) := by
    rw [psxProbeRam_size, probedSize]
    simp only [h2, h4]
    split
    · rfl
    · split <;> rfl
  rw [hprobed, addressable_eq hm, Nat.pow_right_inj (by decide)]
  split
  · omega
  · split <;> omega

/-- **kloader's probe is right** for 2 MB and from 8 MB on. -/
theorem detectRam_eq_addressable_iff (hk : 21 ≤ k) :
    (detectRam m).1.ramSizeKb.toNat * 1024 = addressable m ↔ k ≠ 22 := by
  have h4 : m.installed ∣ 0x400000 ↔ k ≤ 22 := installed_dvd_iff hm 22
  have hfound : (detectRam m).1.ramSizeKb.toNat * 1024 = 2 ^ (if k ≤ 22 then 21 else 23) := by
    rw [detectRam_size]
    simp only [h4]
    split <;> rfl
  rw [hfound, addressable_eq hm, Nat.pow_right_inj (by decide)]
  split <;> omega

/-- **When the RAM is found**: unless there are 2 MB or 4 MB of it. -/
theorem size_found_iff (hk : 20 ≤ k) :
    SizeFound m ↔ m.installed ≠ 2 <<< 20 ∧ m.installed ≠ 4 <<< 20 := by
  have hne2 : m.installed ≠ 2 <<< 20 ↔ k ≠ 21 := (installed_eq_iff hm 21).not
  have hne4 : m.installed ≠ 4 <<< 20 ↔ k ≠ 22 := (installed_eq_iff hm 22).not
  have hge : 2 <<< 20 ≤ m.installed ↔ 21 ≤ k := by
    rw [hm]
    exact (Nat.pow_le_pow_iff_right (by decide) : 2 ^ 21 ≤ 2 ^ k ↔ 21 ≤ k)
  rw [SizeFound, psxProbeRam_eq_addressable_iff hm hk, hne2, hne4, hge]
  constructor
  · exact And.left
  · intro h
    exact ⟨h, fun hk' => (detectRam_eq_addressable_iff hm hk').mpr h.2⟩

end PowerOfTwo

/-- 16 MB count as 8 MB. -/
theorem size_found_sixteen : SizeFound ⟨0x1000000, fun _ => 0, 0⟩ :=
  (size_found_iff (k := 24) rfl (by decide)).mpr ⟨by decide, by decide⟩

/-- On 2 MB, the size of every retail console, the kernel's probe says 1 MB. -/
theorem retail_console_halved : ¬ SizeFound ⟨0x200000, fun _ => 0, 0⟩ := by
  intro h
  have hright := (psxProbeRam_eq_addressable_iff (k := 21) rfl (by decide)).mp h.1
  exact hright.1 rfl

end Kloader
end Blackroo
