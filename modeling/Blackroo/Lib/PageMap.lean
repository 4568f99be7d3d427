import Mathlib.Data.Nat.Bitwise
import Mathlib.Order.Interval.Set.OrdConnected

/-!
# Maps of reserved pages

An allocator that keeps one bit for each page, set while the page is reserved.  Pages are
reserved and released by intervals of page numbers.

The free pages of a map with one released interval are an interval again, whatever is
reserved from its lower end (`ordConnected_free`).  The words such a map consists of are
then of a restricted form: between two zeros of a word there is no one
(`testBit_word_of_ordConnected`).
-/

namespace PageMap

/-- Page `i` is reserved. -/
abbrev Map := Nat → Bool

/-- The map with the pages from `s` up to `e` reserved. -/
def reserve (m : Map) (s e : Nat) : Map := fun i => decide (s ≤ i ∧ i < e) || m i

/-- The map with the pages from `s` up to `e` released. -/
def release (m : Map) (s e : Nat) : Map := fun i => !decide (s ≤ i ∧ i < e) && m i

/-- The word of the map that holds the pages from `32 * w` on, the first in its low bit. -/
def word (m : Map) (w : Nat) : UInt32 := UInt32.ofNat (Nat.ofBits fun k : Fin 32 => m (32 * w + k))

/-- The pages that are not reserved. -/
def free (m : Map) : Set Nat := {i | m i = false}

theorem reserve_of_reserved {m : Map} {i : Nat} (s e : Nat) (h : m i = true) :
    reserve m s e i = true := by
  rw [reserve, h, Bool.or_true]

theorem release_of_lt {m : Map} {s i : Nat} (e : Nat) (hi : i < s) : release m s e i = m i := by
  rw [release, decide_eq_false (by omega), Bool.not_false, Bool.true_and]

theorem mem_free_reserve_release {s e lo hi i : Nat} :
    i ∈ free (reserve (release (fun _ => true) lo hi) s e) ↔
      (lo ≤ i ∧ i < hi) ∧ ¬(s ≤ i ∧ i < e) := by
  simp only [free, reserve, release, Set.mem_ofPred_eq, Bool.or_eq_false_iff,
    decide_eq_false_iff_not,
    Bool.and_true, Bool.not_eq_false', decide_eq_true_eq]
  exact and_comm

/-- **The free pages stay an interval** when pages are reserved from below its lower end. -/
theorem ordConnected_free {s e lo hi : Nat} (h : s ≤ lo) :
    (free (reserve (release (fun _ => true) lo hi) s e)).OrdConnected := by
  have heq : free (reserve (release (fun _ => true) lo hi) s e) = Set.Ico (max lo e) hi := by
    ext i
    rw [mem_free_reserve_release, Set.mem_Ico]
    omega
  rw [heq]
  exact Set.ordConnected_Ico

theorem ordConnected_free_reserve (s e : Nat) :
    (free (reserve (fun _ => true) s e)).OrdConnected := by
  have heq : free (reserve (fun _ => true) s e) = ∅ := by
    ext i
    simp [free, reserve]
  rw [heq]
  exact Set.ordConnected_empty

theorem testBit_word (m : Map) (w : Nat) {k : Nat} (hk : k < 32) :
    (word m w).toNat.testBit k = m (32 * w + k) := by
  rw [word, UInt32.toNat_ofNat_of_lt' (Nat.ofBits_lt_two_pow _), Nat.testBit_ofBits_lt _ k hk]

/-- Between two zeros of a word there are zeros only. -/
theorem testBit_word_of_ordConnected {m : Map} (h : (free m).OrdConnected) (w : Nat) {a b c : Nat}
    (hab : a ≤ b) (hbc : b ≤ c) (hc : c < 32) (hza : (word m w).toNat.testBit a = false)
    (hzc : (word m w).toNat.testBit c = false) : (word m w).toNat.testBit b = false := by
  rw [testBit_word m w (by omega)] at hza hzc ⊢
  exact h.out hza hzc ⟨by omega, by omega⟩

end PageMap
