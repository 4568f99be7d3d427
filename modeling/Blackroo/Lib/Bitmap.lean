import Mathlib.Data.List.GetD
import Mathlib.Data.Nat.Bitwise

/-!
# Bitmaps in byte strings

A bitmap kept in a byte string, the low bit of the first byte first.  Setting a bit is an
or into its byte.  `bit_setBits` is the content after any number of such stores, and
`zeros_of_interval` counts a bitmap whose free bits are an interval.
-/

namespace Bitmap

/-- Bit `i` of a bitmap; past its end there are zeros. -/
def bit (bs : List UInt8) (i : Nat) : Bool := (bs.getD (i / 8) 0).toNat.testBit (i % 8)

/-- The bitmap with bit `i` set. -/
def setBit (bs : List UInt8) (i : Nat) : List UInt8 :=
  bs.set (i / 8) (bs.getD (i / 8) 0 ||| 1 <<< UInt8.ofNat (i % 8))

/-- The number of zeros among the first `n` bits. -/
def zeros (bs : List UInt8) (n : Nat) : Nat := (List.range n).countP fun i => !bit bs i

@[simp] theorem length_setBit (bs : List UInt8) (i : Nat) : (setBit bs i).length = bs.length :=
  List.length_set

theorem toNat_shiftLeft {k : Nat} (hk : k < 8) : ((1 : UInt8) <<< UInt8.ofNat k).toNat = 2 ^ k := by
  revert k
  decide

theorem bit_setBit {bs : List UInt8} {i : Nat} (hi : i < 8 * bs.length) (j : Nat) :
    bit (setBit bs i) j = (decide (i = j) || bit bs j) := by
  rw [bit, setBit, List.getD_eq_getElem?_getD, List.getElem?_set]
  by_cases hbyte : i / 8 = j / 8
  · rw [if_pos hbyte, if_pos (by omega), Option.getD_some, UInt8.toNat_or, Nat.testBit_or,
      toNat_shiftLeft (Nat.mod_lt _ (by decide)), Nat.testBit_two_pow, Bool.or_comm, hbyte]
    congr 1
    exact decide_eq_decide.mpr (by omega)
  · rw [if_neg hbyte, ← List.getD_eq_getElem?_getD,
      decide_eq_false (fun h : i = j => hbyte (by rw [h])), Bool.false_or]
    rfl

/-- The content after several bits have been set. -/
theorem bit_setBits {bs : List UInt8} {l : List Nat} (hl : ∀ i ∈ l, i < 8 * bs.length) (j : Nat) :
    bit (l.foldl setBit bs) j = (decide (j ∈ l) || bit bs j) := by
  induction l generalizing bs with
  | nil => rw [decide_eq_false List.not_mem_nil, Bool.false_or]; rfl
  | cons i l ih =>
    rw [List.foldl_cons, ih (fun k hk => by
        rw [length_setBit]
        exact hl k (List.mem_cons_of_mem i hk)),
      bit_setBit (hl i List.mem_cons_self), ← Bool.or_assoc]
    congr 1
    rw [← Bool.decide_or]
    exact decide_eq_decide.mpr (by rw [List.mem_cons, or_comm, eq_comm])

theorem countP_range_interval (a b n : Nat) :
    (List.range n).countP (fun i => decide (a ≤ i ∧ i < b)) = min b n - a := by
  induction n with
  | zero => rw [Nat.min_zero, Nat.zero_sub]; rfl
  | succ n ih =>
    rw [List.range_succ, List.countP_append, ih, List.countP_singleton]
    by_cases h : a ≤ n ∧ n < b
    · rw [if_pos (decide_eq_true h)]
      omega
    · rw [if_neg (by simpa using h)]
      omega

/-- **A bitmap whose zeros are an interval.** -/
theorem zeros_of_interval {bs : List UInt8} {a b n : Nat} (hb : b ≤ n)
    (h : ∀ i < n, bit bs i = false ↔ a ≤ i ∧ i < b) : zeros bs n = b - a := by
  rw [zeros, List.countP_congr (q := fun i => decide (a ≤ i ∧ i < b)), countP_range_interval,
    Nat.min_eq_left hb]
  intro i hi
  rw [Bool.not_eq_true', decide_eq_true_iff]
  exact h i (List.mem_range.mp hi)

end Bitmap
