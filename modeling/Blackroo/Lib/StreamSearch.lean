import Mathlib.Data.List.Infix

/-!
# Searching a stream through a window

A pattern is searched in a stream that arrives in pieces, and what has arrived is kept only in
part: the window is some end of it.  `Window p s w` says that `w` is enough to go on with:
nothing has been found in the stream `s` so far, and an occurrence that begins in `s` and is not
complete begins in `w`.

`Window.infix_append_iff` is the reason to look at the window only, `Window.append` and
`Window.drop` are the two things that happen to it.
-/

namespace StreamSearch

variable {α : Type*}

/-- The window `w` is what is left of the stream `s`, in which `p` has not been found. -/
structure Window (p s w : List α) : Prop where
  suffix : w <:+ s
  enough : w = s ∨ p.length ≤ w.length + 1
  not_found : ¬ p <:+: s

namespace Window

variable {p s w : List α}

theorem start (hp : p ≠ []) : Window p [] [] where
  suffix := List.suffix_rfl
  enough := .inl rfl
  not_found := fun h => hp (List.eq_nil_of_infix_nil h)

/-- **The window is enough.**  The pattern is in the stream with the next piece exactly if it is
in the window with the next piece. -/
theorem infix_append_iff (h : Window p s w) (c : List α) : p <:+: s ++ c ↔ p <:+: w ++ c := by
  obtain ⟨dropped, rfl⟩ := h.suffix
  constructor
  · rintro ⟨before, after, heq⟩
    rcases h.enough with hall | hlen
    · have hnil : dropped = [] := by simpa using hall
      subst hnil
      exact ⟨before, after, heq⟩
    · -- an occurrence that ends in the stream would have been found before
      have hend : (dropped ++ w).length < before.length + p.length := by
        by_contra hle
        refine h.not_found ⟨before, (dropped ++ w).drop (before ++ p).length, ?_⟩
        have htake : (dropped ++ w).take (before ++ p).length = before ++ p := by
          have hprefix : before ++ p <+: dropped ++ w := by
            refine List.prefix_of_prefix_length_le ⟨after, heq⟩ (List.prefix_append _ c) ?_
            rw [List.length_append]
            omega
          exact (List.prefix_iff_eq_take.mp hprefix).symm
        nth_rewrite 1 [← htake]
        exact List.take_append_drop _ _
      have hbegin : dropped <+: before := by
        have hstream : dropped <+: before ++ p ++ after := by
          rw [heq, List.append_assoc]
          exact List.prefix_append _ _
        have hbefore : before <+: before ++ p ++ after := by
          rw [List.append_assoc]
          exact List.prefix_append _ _
        refine List.prefix_of_prefix_length_le hstream hbefore ?_
        rw [List.length_append] at hend
        omega
      obtain ⟨rest, rfl⟩ := hbegin
      refine ⟨rest, after, ?_⟩
      simpa [List.append_assoc] using heq
  · intro hin
    rw [List.append_assoc]
    exact hin.trans (List.suffix_append dropped (w ++ c)).isInfix

/-- The next piece, if the pattern is not found with it. -/
theorem append (h : Window p s w) {c : List α} (hc : ¬ p <:+: w ++ c) :
    Window p (s ++ c) (w ++ c) where
  suffix := by
    obtain ⟨dropped, rfl⟩ := h.suffix
    exact ⟨dropped, (List.append_assoc _ _ _).symm⟩
  enough := h.enough.imp (congrArg (· ++ c)) fun hlen => by
    rw [List.length_append]
    omega
  not_found := (h.infix_append_iff c).not.mpr hc

/-- The beginning is given up, down to something not much shorter than the pattern. -/
theorem drop (h : Window p s w) {n : Nat} (hn : p.length + n ≤ w.length + 1) :
    Window p s (w.drop n) where
  suffix := (List.drop_suffix n w).trans h.suffix
  enough := .inr (by rw [List.length_drop]; omega)
  not_found := h.not_found

end Window

end StreamSearch
