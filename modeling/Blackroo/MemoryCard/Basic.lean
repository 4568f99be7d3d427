import Mathlib.Algebra.Ring.Int.Defs
import Mathlib.Data.Nat.Cast.Basic

/-!
# The memory-card driver: constants and card records

The data model of `drivers/block/bu.h` for the configuration the project ships,
`CONFIG_PSX_LARGE_CARD`: two SIO0 ports, one card on each, joined into a single
block device.  A card is divided into blocks of 128 bytes; the first
eight of them are reserved, and block 0 carries the record that identifies the
card to the driver.

The C types are kept where the arithmetic of the driver depends on them.  The
four fields of the first block are `__u32`, the block number of a transfer is
`__u16`, and an `int` is an `Int` brought back into range by `toInt32` after
every operation that can leave it.
-/

namespace Blackroo
namespace MemoryCard

/-- `BU_BLK_SIZE`: bytes of a card block. -/
def buBlkSize : Nat := 128

/-- `BU_MINORS`: card slots the driver sweeps. -/
abbrev buMinors : Nat := 2

instance : NeZero buMinors := ⟨by decide⟩

/-- `BU_ID`: the mark of a card formatted for this driver. -/
def buId : UInt32 := 0x1234

/-- `N_CHECKS`: attempts at one block, and at catching the bus. -/
def nChecks : Nat := 10

/-- A card slot. -/
abbrev Slot : Type := Fin buMinors

/-- `BU_FLOOR`: the multitap sub-port of a slot.  Cards are connected directly. -/
def buFloor (_card : Slot) : Nat := 0

/-- `bu_first_block_t`: the record in block 0 of a card. -/
structure FirstBlock where
  id : UInt32
  size : UInt32
  serial : UInt32
  number : UInt32
  deriving DecidableEq, Repr

/-- The static initial value of a record. -/
def FirstBlock.zero : FirstBlock := ⟨0, 0, 0, 0⟩

/-- Conversion to a 32-bit `int`, as the compiler wraps it. -/
def toInt32 (x : Int) : Int := x.bmod (2 ^ 32)

/-- Conversion of an `int` to `unsigned long`. -/
def toUlong (x : Int) : Nat := (x % 2 ^ 32).toNat

/-- What a probe of each slot finds in block 0: `none` for an absent card or one
whose block cannot be read. -/
abbrev Cards : Type := Slot → Option FirstBlock

theorem toInt32_of_range {x : Int} (h₁ : -2 ^ 31 ≤ x) (h₂ : x < 2 ^ 31) :
    toInt32 x = x := by
  rw [toInt32, Int.bmod_def]
  split <;> omega

theorem toUlong_toInt32 (x : Int) : toUlong (toInt32 x) = toUlong x := by
  rw [toUlong, toUlong, toInt32]
  congr 1
  exact_mod_cast Int.bmod_emod

theorem toUlong_of_range {x : Int} (h₁ : 0 ≤ x) (h₂ : x < 2 ^ 32) :
    (toUlong x : Int) = x := by
  rw [toUlong]
  omega

end MemoryCard
end Blackroo
