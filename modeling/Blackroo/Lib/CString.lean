import Mathlib.Data.List.Basic

/-!
# Strings in character arrays

A string in an array ends at the first zero.  `text f n i` is the string that starts at place
`i` of the array `f`, looked at for `n` characters: it is shorter than `n` exactly if the zero is
among them.

## Lines of words

A line is cut into words in place: a zero goes over the blanks before the next word when that one
is looked for.  So the last word that there is room for is not ended, and is the rest of the line
(`CommandLine.words`).
-/

namespace CString

/-- A character array.  Its size is kept by whoever uses it. -/
abbrev Chars : Type := Nat → UInt8

/-- The string at a place, as far as `n` characters show it. -/
def text (f : Chars) : (n i : Nat) → List UInt8
  | 0, _ => []
  | n + 1, i => if f i = 0 then [] else f i :: text f n (i + 1)

variable {f g : Chars}

theorem text_succ_of_eq_zero {i : Nat} (h : f i = 0) (n : Nat) : text f (n + 1) i = [] := if_pos h

theorem text_succ_of_ne_zero {i : Nat} (h : f i ≠ 0) (n : Nat) :
    text f (n + 1) i = f i :: text f n (i + 1) := if_neg h

theorem length_text_le (f : Chars) (n i : Nat) : (text f n i).length ≤ n := by
  induction n generalizing i with
  | zero => exact Nat.le_refl 0
  | succ n ih =>
    by_cases h : f i = 0
    · rw [text_succ_of_eq_zero h]
      exact Nat.zero_le _
    · rw [text_succ_of_ne_zero h]
      exact Nat.succ_le_succ (ih (i + 1))

theorem ne_zero_of_mem_text {n i : Nat} {c : UInt8} (hc : c ∈ text f n i) : c ≠ 0 := by
  induction n generalizing i with
  | zero => cases hc
  | succ n ih =>
    by_cases h : f i = 0
    · rw [text_succ_of_eq_zero h] at hc
      cases hc
    · rw [text_succ_of_ne_zero h] at hc
      rcases List.mem_cons.mp hc with rfl | hc
      · exact h
      · exact ih hc

/-- The characters of the array, as many as the string has, are the string. -/
theorem map_range_length_text (f : Chars) (n i : Nat) :
    (List.range (text f n i).length).map (fun j => f (i + j)) = text f n i := by
  induction n generalizing i with
  | zero => rfl
  | succ n ih =>
    by_cases h : f i = 0
    · rw [text_succ_of_eq_zero h]
      rfl
    · rw [text_succ_of_ne_zero h, List.length_cons, List.range_succ_eq_map, List.map_cons,
        List.map_map]
      refine congrArg (f i :: ·) ((List.map_congr_left fun j _ => ?_).trans (ih (i + 1)))
      exact congrArg f (by rw [Nat.add_assoc, Nat.add_comm 1 j])

/-- Looking at fewer characters cuts the string. -/
theorem text_eq_take (f : Chars) {m n : Nat} (h : m ≤ n) (i : Nat) :
    text f m i = (text f n i).take m := by
  induction m generalizing n i with
  | zero => rfl
  | succ m ih =>
    obtain ⟨n, rfl⟩ := Nat.exists_eq_succ_of_ne_zero (show n ≠ 0 by omega)
    by_cases h0 : f i = 0
    · rw [text_succ_of_eq_zero h0, text_succ_of_eq_zero h0, List.take_nil]
    · rw [text_succ_of_ne_zero h0, text_succ_of_ne_zero h0, List.take_succ_cons,
        ih (Nat.le_of_succ_le_succ h)]

/-- Behind its zero nothing belongs to the string, however far one looks. -/
theorem text_eq_text_of_zero {i k m n : Nat} (h0 : f (i + k) = 0) (hm : k ≤ m) (hn : k ≤ n) :
    text f m i = text f n i := by
  induction k generalizing i m n with
  | zero =>
    have hnil : ∀ n, text f n i = [] := by
      intro n
      cases n with
      | zero => rfl
      | succ n => exact text_succ_of_eq_zero h0 n
    rw [hnil m, hnil n]
  | succ k ih =>
    obtain ⟨m, rfl⟩ := Nat.exists_eq_succ_of_ne_zero (show m ≠ 0 by omega)
    obtain ⟨n, rfl⟩ := Nat.exists_eq_succ_of_ne_zero (show n ≠ 0 by omega)
    rw [text, text, ih (by rwa [Nat.add_assoc, Nat.add_comm 1]) (Nat.le_of_succ_le_succ hm)
      (Nat.le_of_succ_le_succ hn)]

/-- The string is as long as there is no zero. -/
theorem le_length_text {i k n : Nat} (h : ∀ j < k, f (i + j) ≠ 0) (hn : k ≤ n) :
    k ≤ (text f n i).length := by
  induction k generalizing i n with
  | zero => exact Nat.zero_le _
  | succ k ih =>
    obtain ⟨n, rfl⟩ := Nat.exists_eq_succ_of_ne_zero (show n ≠ 0 by omega)
    have hi : f i ≠ 0 := h 0 (Nat.succ_pos k)
    rw [text_succ_of_ne_zero hi, List.length_cons]
    refine Nat.succ_le_succ (ih (fun j hj => ?_) (Nat.le_of_succ_le_succ hn))
    rw [Nat.add_assoc, Nat.add_comm 1]
    exact h (j + 1) (Nat.succ_lt_succ hj)

/-- **Characters that have been written into an array**, with a zero behind them: the string is
what comes before the first zero. -/
theorem text_eq_of_list {s : List UInt8} {i : Nat} (hf : ∀ j c, s[j]? = some c → f (i + j) = c)
    (h0 : f (i + s.length) = 0) (n : Nat) : text f n i = (s.takeWhile (· ≠ 0)).take n := by
  induction s generalizing i n with
  | nil =>
    cases n with
    | zero => rfl
    | succ n =>
      have hi : f i = 0 := h0
      rw [text_succ_of_eq_zero hi, List.takeWhile_nil, List.take_nil]
  | cons c s ih =>
    cases n with
    | zero => rfl
    | succ n =>
      have hi : f i = c := hf 0 c rfl
      by_cases hc : c = 0
      · rw [text_succ_of_eq_zero (hi.trans hc), List.takeWhile_cons_of_neg (by simpa using hc),
          List.take_nil]
      · rw [text_succ_of_ne_zero (by rwa [hi]), hi, List.takeWhile_cons_of_pos (by simpa using hc),
          List.take_succ_cons]
        refine congrArg (c :: ·) (ih ?_ ?_ n)
        · intro j d hj
          rw [Nat.add_assoc, Nat.add_comm 1 j]
          exact hf (j + 1) d hj
        · rw [Nat.add_assoc, Nat.add_comm 1]
          exact h0

end CString

namespace CommandLine

/-- A string literal. -/
def ascii (s : String) : List UInt8 := s.toList.map fun c => UInt8.ofNat c.toNat

/-- A space or a tab. -/
def isBlank (c : UInt8) : Bool := c = 32 || c = 9

/-- The words of a line, with room for so many of them. -/
def words : (room : Nat) → List UInt8 → List (List UInt8)
  | 0, _ => []
  | room + 1, line =>
    let p := line.dropWhile isBlank
    if p = [] then []
    else if room = 0 then [p]
    else p.takeWhile (fun c => !isBlank c) :: words room (p.dropWhile fun c => !isBlank c)

end CommandLine
