import Mathlib.Data.Fin.Basic
import Mathlib.Data.Nat.ModEq

/-!
# Rotating buffers

A buffer of `n` places is read from the place `start` on and around the end: its entry `i` stands
at the place `(i + start) % n` (`view`).  Moving `start` on by `k` and overwriting the `k` entries
that fall out at the front is a shift of the view (`view_shift`).

`slot` is the place as programs compute it, with one comparison and one subtraction.
-/

namespace Ring

variable {α : Type*} {n : Nat}

/-- The place of the entry `i`, wrapped by hand. -/
def slot (n start i : Nat) : Nat := if i + start ≥ n then i + start - n else i + start

theorem slot_eq_mod {start i : Nat} (hs : start < n) (hi : i < n) :
    slot n start i = (i + start) % n := by
  rw [slot]
  split
  · next h => rw [Nat.mod_eq_sub_mod h, Nat.mod_eq_of_lt (by omega)]
  · next h => rw [Nat.mod_eq_of_lt (by omega)]

/-- Two entries do not share a place. -/
theorem add_mod_inj {start i j : Nat} (hi : i < n) (hj : j < n)
    (h : (i + start) % n = (j + start) % n) : i = j := by
  have hmod : i ≡ j [MOD n] := Nat.ModEq.add_right_cancel' start h
  rwa [Nat.ModEq, Nat.mod_eq_of_lt hi, Nat.mod_eq_of_lt hj] at hmod

/-- The entries in order. -/
def view (n start : Nat) (buf : Nat → α) (i : Fin n) : α := buf ((i + start) % n)

/-- **The shift.**  `start` moves on by `k`, and the places of the first `k` entries are
overwritten. -/
theorem view_shift {start k : Nat} (hk : k ≤ n) {buf buf' : Nat → α} {a : α}
    (hover : ∀ i < k, buf' ((start + i) % n) = a)
    (hkeep : ∀ z < n, (∀ i < k, z ≠ (start + i) % n) → buf' z = buf z) (i : Fin n) :
    view n ((start + k) % n) buf' i =
      if h : i + k < n then view n start buf ⟨i + k, h⟩ else a := by
  have hplace : ((i : Nat) + (start + k) % n) % n = (start + (i + k)) % n := by
    rw [Nat.add_mod_mod]
    congr 1
    omega
  rw [view, hplace]
  split
  · next h =>
      rw [hkeep _ (Nat.mod_lt _ i.pos), view, Nat.add_comm start]
      intro j hj heq
      have hsame : (i + k + start) % n = (j + start) % n := by
        rw [Nat.add_comm, heq, Nat.add_comm]
      have hij : i + k = j := add_mod_inj h (Nat.lt_of_lt_of_le hj hk) hsame
      omega
  · next h =>
      have hwrap : (start + (i + k)) % n = (start + (i + k - n)) % n := by
        rw [show start + (i + k) = start + (i + k - n) + n by omega, Nat.add_mod_right]
      rw [hwrap]
      exact hover _ (by have := i.isLt; omega)

end Ring
