import Mathlib.Data.List.Basic

/-!
# Numbered streams with a small buffer

A producer emits items numbered one after the other into a buffer, a consumer takes
them from its front, and when the buffer is full an item in it is given up for the
new one.  `Covers n r held dropped` relates the four things one can know about it:
`n` is the item the consumer wants next, `r` the item the producer emits next, `held`
the buffer and `dropped` what was given up.

Nothing tells the consumer about a drop.  `head_eq_iff` is the reason it can count all
the same: the front of the buffer is the wanted item unless that very item was dropped.
-/

namespace LossyStream

/-- Every item from `n` up to `r` is held or was dropped, and the held ones are in
order. -/
structure Covers (n r : Nat) (held dropped : List Nat) : Prop where
  le : n ≤ r
  dropped_lt : ∀ k ∈ dropped, k < r
  held_mem : ∀ k ∈ held, n ≤ k ∧ k < r ∧ k ∉ dropped
  covered : ∀ k, n ≤ k → k < r → k ∈ held ∨ k ∈ dropped
  sorted : held.Pairwise (· < ·)

namespace Covers

variable {n r k : Nat} {held dropped : List Nat}

/-- A fresh stream. -/
theorem start (n : Nat) : Covers n n [] [] where
  le := Nat.le_refl n
  dropped_lt := by simp
  held_mem := by simp
  covered := by
    intro k h₁ h₂
    omega
  sorted := List.Pairwise.nil

/-- The producer emits into a buffer with room. -/
theorem push (h : Covers n r held dropped) : Covers n (r + 1) (held ++ [r]) dropped where
  le := Nat.le_succ_of_le h.le
  dropped_lt := fun k hk => Nat.lt_succ_of_lt (h.dropped_lt k hk)
  held_mem := by
    intro k hk
    rcases List.mem_append.mp hk with hk | hk
    · obtain ⟨h₁, h₂, h₃⟩ := h.held_mem k hk
      exact ⟨h₁, Nat.lt_succ_of_lt h₂, h₃⟩
    · obtain rfl := List.mem_singleton.mp hk
      exact ⟨h.le, Nat.lt_succ_self k, fun hd => absurd (h.dropped_lt k hd) (Nat.lt_irrefl k)⟩
  covered := by
    intro k h₁ h₂
    rcases Nat.lt_succ_iff_lt_or_eq.mp h₂ with hlt | rfl
    · exact (h.covered k h₁ hlt).imp_left (List.mem_append_left _)
    · exact .inl (List.mem_append_right _ (List.mem_singleton_self k))
  sorted := by
    refine List.pairwise_append.mpr ⟨h.sorted, List.pairwise_singleton _ r, ?_⟩
    intro k hk m hm
    obtain rfl := List.mem_singleton.mp hm
    exact (h.held_mem k hk).2.1

/-- The producer emits over the last item of a full buffer. -/
theorem replace (h : Covers n r (held ++ [k]) dropped) :
    Covers n (r + 1) (held ++ [r]) (k :: dropped) := by
  obtain ⟨hsorted, -, hlast⟩ := List.pairwise_append.mp h.sorted
  have hk := h.held_mem k (List.mem_append_right _ (List.mem_singleton_self k))
  have hdrop : Covers n r held (k :: dropped) := by
    refine ⟨h.le, ?_, ?_, ?_, hsorted⟩
    · intro j hj
      rcases List.mem_cons.mp hj with rfl | hj
      · exact hk.2.1
      · exact h.dropped_lt j hj
    · intro j hj
      obtain ⟨h₁, h₂, h₃⟩ := h.held_mem j (List.mem_append_left _ hj)
      have hlt := hlast j hj k (List.mem_singleton_self k)
      refine ⟨h₁, h₂, fun hmem => ?_⟩
      rcases List.mem_cons.mp hmem with rfl | hmem
      · exact absurd hlt (Nat.lt_irrefl j)
      · exact h₃ hmem
    · intro j h₁ h₂
      rcases h.covered j h₁ h₂ with hmem | hmem
      · rcases List.mem_append.mp hmem with hmem | hmem
        · exact .inl hmem
        · obtain rfl := List.mem_singleton.mp hmem
          exact .inr (List.mem_cons_self)
      · exact .inr (List.mem_cons_of_mem k hmem)
  exact hdrop.push

/-- The consumer takes the item it wants. -/
theorem take (h : Covers n r (n :: held) dropped) : Covers (n + 1) r held dropped := by
  obtain ⟨hfirst, hsorted⟩ := List.pairwise_cons.mp h.sorted
  refine ⟨(h.held_mem n List.mem_cons_self).2.1, h.dropped_lt, ?_, ?_, hsorted⟩
  · intro k hk
    exact ⟨hfirst k hk, (h.held_mem k (List.mem_cons_of_mem n hk)).2⟩
  · intro k h₁ h₂
    rcases h.covered k (Nat.le_of_succ_le h₁) h₂ with hmem | hmem
    · rcases List.mem_cons.mp hmem with rfl | hmem
      · omega
      · exact .inl hmem
    · exact .inr hmem

/-- **The front of the buffer is the wanted item unless that item was dropped.** -/
theorem head_eq_iff (h : Covers n r (k :: held) dropped) : k = n ↔ n ∉ dropped := by
  obtain ⟨hnk, hkr, hk⟩ := h.held_mem k List.mem_cons_self
  constructor
  · rintro rfl
    exact hk
  · intro hn
    rcases h.covered n (Nat.le_refl n) (Nat.lt_of_le_of_lt hnk hkr) with hmem | hmem
    · rcases List.mem_cons.mp hmem with rfl | hmem
      · rfl
      · have hlt := (List.pairwise_cons.mp h.sorted).1 n hmem
        omega
    · exact absurd hmem hn

end Covers
end LossyStream
