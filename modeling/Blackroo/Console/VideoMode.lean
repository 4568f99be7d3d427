import Mathlib.Data.List.TakeWhile
import Blackroo.Console.Screen
import Blackroo.Lib.CString

/-!
# The video mode on the command line

`psxvga_setup_mode` looks for `psxvideo=WxH@R` on the kernel command line and sets the geometry of
the console from it.  Its loop stores up to three numbers in `v` and stops at the first one that
is not followed by `x` or `@`; the check behind it looks at all three, as far as the ones before
pass.  So what is not written may be read: `junk` is what was in `v` before, `reads` the places
the check has looked at and `written` how many were written.

The numbers are `int`s, with the sums and products of the loop reduced to 32 bits.

## What goes wrong

The check stops at the first number that fails it.  So nothing is read that was not written if one
of the numbers that are there fails.  Which numbers are there is said without the loop: they are the
runs of digits with one `x` or `@` between two of them, and a run stands for its value in 32 bits
(`NumberAt`).  If none of them fails, the argument has to be well-formed, and in all other cases
`setup_sound_iff` says that something does go wrong: too few numbers, and the next place of `v` is
read; or three that are not separated as they should be or have more text behind them, and they are
taken.  The geometry is in range in any case, which is the type of it.
-/

namespace Blackroo
namespace Console

open CommandLine (ascii)

/-! ## The code -/

/-- `strstr`: the text from the first occurrence on. -/
def strstr (key : List UInt8) : List UInt8 → Option (List UInt8)
  | [] => if key = [] then some [] else none
  | c :: s => if key <+: c :: s then some (c :: s) else strstr key s

def psxvideoKey : List UInt8 := ascii "psxvideo="

def IsDigit (c : UInt8) : Prop := 48 ≤ c ∧ c ≤ 57

instance (c : UInt8) : Decidable (IsDigit c) := inferInstanceAs (Decidable (_ ∧ _))

/-- The loop over the digits of a number, with the text behind it. -/
def readNumber : (v : Int) → List UInt8 → Int × List UInt8
  | v, [] => (v, [])
  | v, c :: p =>
    if IsDigit c then readNumber (Int.bmod (v * 10 + (c.toNat - 48)) (2 ^ 32)) p else (v, c :: p)

/-- The numbers that are stored in `v`, at most `left` of them. -/
def readSlots : (left : Nat) → List UInt8 → List Int
  | 0, _ => []
  | left + 1, p =>
    match readNumber 0 p with
    | (v, c :: p) => if c = 120 ∨ c = 64 then v :: readSlots left p else [v]
    | (v, []) => [v]

/-- The check, with the places of `v` it looks at. -/
def checkSlots (v : Nat → Int) : Bool × List Nat :=
  if v 0 ≥ 256 then
    if v 1 ≥ 200 then (v 2 == 50 || v 2 == 60, [0, 1, 2]) else (false, [0, 1])
  else (false, [0])

/-- `w`, `h` and `rate`, and how they came about. -/
structure Choice where
  w : Int
  h : Int
  rate : Int
  replaced : Bool
  reads : List Nat
  written : Nat
  deriving DecidableEq, Repr

/-- With `CONFIG_VT_CONSOLE_HIRES` or without. -/
def defaultChoice (hires : Bool) : Choice where
  w := if hires then 640 else 320
  h := 240
  rate := 60
  replaced := false
  reads := []
  written := 0

def chooseMode (hires : Bool) (junk : Nat → Int) (cmdline : List UInt8) : Choice :=
  match strstr psxvideoKey cmdline with
  | none => defaultChoice hires
  | some p =>
    let slots := readSlots 3 (p.drop 9)
    let v := fun i => slots.getD i (junk i)
    let (accepted, reads) := checkSlots v
    if accepted then ⟨v 0, v 1, v 2, true, reads, slots.length⟩
    else { defaultChoice hires with reads := reads, written := slots.length }

/-- The `switch` over the width: the bits of the mode and the width that is taken. -/
def widthMode (w : Int) : UInt32 × Int :=
  if w = 256 then (0, 256)
  else if w = 512 then (2, 512)
  else if w = 640 then (3, 640)
  else (1, 320)

/-- The two bounds. -/
def clampInt (lo hi x : Int) : Int :=
  let x := if x > hi then hi else x
  if x < lo then lo else x

theorem clampInt_mem {lo hi : Int} (h : lo ≤ hi) (x : Int) :
    lo ≤ clampInt lo hi x ∧ clampInt lo hi x ≤ hi := by
  simp only [clampInt]
  split_ifs <;> omega

def geometryOf (w h : Int) : Geometry where
  cols := (clampInt 20 maxW (Int.tdiv w fntW - 2)).toNat
  rows := (clampInt 8 maxH (Int.tdiv h fntH)).toNat
  cols_ge := by
    have := (clampInt_mem (show (20 : Int) ≤ maxW by decide) (Int.tdiv w fntW - 2)).1
    omega
  cols_le := by
    have := (clampInt_mem (show (20 : Int) ≤ maxW by decide) (Int.tdiv w fntW - 2)).2
    omega
  rows_ge := by
    have := (clampInt_mem (show (8 : Int) ≤ maxH by decide) (Int.tdiv h fntH)).1
    omega
  rows_le := by
    have := (clampInt_mem (show (8 : Int) ≤ maxH by decide) (Int.tdiv h fntH)).2
    omega

/-- `psxvga_setup_mode`: the mode for `InitGPU` and the geometry. -/
def psxvgaSetupMode (hires : Bool) (junk : Nat → Int) (cmdline : List UInt8) : UInt32 × Geometry :=
  let choice := chooseMode hires junk cmdline
  let (mode, w) := widthMode choice.w
  (mode ||| 0x08000000 ||| (if choice.rate = 50 then 8 else 0), geometryOf w choice.h)

/-- The loops of `psxvga_startup`, over the rows and columns that the driver has before the mode is
set up. -/
def startRows : (count y : Nat) → Vga → Option Vga
  | 0, _, c => some c
  | count + 1, y, c => do startRows count (y + 1) (← zeroCells y 37 0 c)

/-- `psxvga_startup`. -/
def psxvgaStartup (hires : Bool) (junk : Nat → Int) (cmdline : List UInt8) (c : Vga) :
    Option (UInt32 × Geometry × Vga) := do
  let c ← startRows 21 0 c
  let (mode, g) := psxvgaSetupMode hires junk cmdline
  return (mode, g, { c.draw [.cls] with cury := 0, curx := 0, bottom := 0 })

/-! ## What an argument is to look like -/

/-- The argument: the text behind `psxvideo=`, up to a space. -/
def videoArgument (p : List UInt8) : List UInt8 := (p.drop 9).takeWhile (· ≠ 32)

/-- The number that the digits spell. -/
def decimal (digits : List UInt8) : Nat := digits.foldl (fun v c => v * 10 + (c.toNat - 48)) 0

/-- `WxH@R`, with numbers that make sense. -/
structure Spells (arg ws hs rs : List UInt8) : Prop where
  eq : arg = ws ++ 120 :: (hs ++ 64 :: rs)
  width_digits : ∀ c ∈ ws, IsDigit c
  height_digits : ∀ c ∈ hs, IsDigit c
  rate_digits : ∀ c ∈ rs, IsDigit c
  width : 256 ≤ decimal ws
  height : 200 ≤ decimal hs
  rate : decimal rs = 50 ∨ decimal rs = 60

def WellSpelled (arg : List UInt8) : Prop := ∃ ws hs rs, Spells arg ws hs rs

/-- The text begins with these digits, and no more. -/
structure DigitRun (text digits rest : List UInt8) : Prop where
  eq : text = digits ++ rest
  digits : ∀ c ∈ digits, IsDigit c
  rest : ∀ c ∈ rest.head?, ¬ IsDigit c

/-- The number at a place of the argument, as an `int`: the numbers are runs of digits, with an `x`
or an `@` between two of them. -/
inductive NumberAt : (i : Nat) → (text : List UInt8) → Int → Prop
  | first {text digits rest : List UInt8} (h : DigitRun text digits rest) :
      NumberAt 0 text (Int.bmod (decimal digits) (2 ^ 32))
  | next {i : Nat} {text digits rest : List UInt8} {c : UInt8} {v : Int}
      (h : DigitRun text digits (c :: rest)) (hc : c = 120 ∨ c = 64) (hv : NumberAt i rest v) :
      NumberAt (i + 1) text v

/-- The check of the number at a place. -/
def Sane (i : Nat) (v : Int) : Prop :=
  if i = 0 then 256 ≤ v else if i = 1 then 200 ≤ v else v = 50 ∨ v = 60

/-- No place is read that was not written, the default is replaced by a well-formed argument only,
and the geometry is in range. -/
structure SetupSound (hires : Bool) (junk : Nat → Int) (cmdline : List UInt8) : Prop where
  reads : ∀ i ∈ (chooseMode hires junk cmdline).reads, i < (chooseMode hires junk cmdline).written
  replaced : (chooseMode hires junk cmdline).replaced = true →
    ∃ p, strstr psxvideoKey cmdline = some p ∧ WellSpelled (videoArgument p)
  cols : 20 ≤ (psxvgaSetupMode hires junk cmdline).2.cols ∧
    (psxvgaSetupMode hires junk cmdline).2.cols ≤ 80
  rows : 8 ≤ (psxvgaSetupMode hires junk cmdline).2.rows ∧
    (psxvgaSetupMode hires junk cmdline).2.rows ≤ 21

/-! ## The loop -/

theorem readNumber_digits {digits rest : List UInt8} (hd : ∀ c ∈ digits, IsDigit c)
    (hrest : ∀ c ∈ rest.head?, ¬ IsDigit c) (v : Nat) :
    readNumber (Int.bmod v (2 ^ 32)) (digits ++ rest) =
      (Int.bmod (digits.foldl (fun v c => v * 10 + (c.toNat - 48)) v : Nat) (2 ^ 32), rest) := by
  induction digits generalizing v with
  | nil =>
    cases rest with
    | nil => rfl
    | cons c rest => exact if_neg (hrest c rfl)
  | cons c digits ih =>
    have hc := hd c List.mem_cons_self
    have hge : 48 ≤ c.toNat := hc.1
    have hvalue : Int.bmod (Int.bmod v (2 ^ 32) * 10 + (c.toNat - 48)) (2 ^ 32) =
        Int.bmod ((v * 10 + (c.toNat - 48) : Nat) : Int) (2 ^ 32) := by
      rw [← Int.bmod_add_bmod, Int.bmod_mul_bmod, Int.bmod_add_bmod]
      congr 1
      omega
    rw [List.cons_append, readNumber, if_pos hc, hvalue,
      ih (fun d hd' => hd d (List.mem_cons_of_mem c hd')), List.foldl_cons]

namespace DigitRun

variable {text digits rest : List UInt8}

theorem readNumber_eq (h : DigitRun text digits rest) :
    readNumber 0 text = (Int.bmod (decimal digits) (2 ^ 32), rest) := by
  rw [h.eq]
  exact readNumber_digits h.digits h.rest 0

theorem readSlots_sep {c : UInt8} (h : DigitRun text digits (c :: rest)) (hc : c = 120 ∨ c = 64)
    (left : Nat) :
    readSlots (left + 1) text = Int.bmod (decimal digits) (2 ^ 32) :: readSlots left rest := by
  rw [readSlots, h.readNumber_eq]
  exact if_pos hc

theorem readSlots_end (h : DigitRun text digits rest)
    (hrest : ∀ c ∈ rest.head?, ¬ (c = 120 ∨ c = 64)) (left : Nat) :
    readSlots (left + 1) text = [Int.bmod (decimal digits) (2 ^ 32)] := by
  rw [readSlots, h.readNumber_eq]
  cases rest with
  | nil => rfl
  | cons c rest => exact if_neg (hrest c rfl)

/-- Every text begins with such a run, if it is empty. -/
theorem exists_run (text : List UInt8) : ∃ digits rest, DigitRun text digits rest := by
  refine ⟨text.takeWhile fun c => IsDigit c, text.dropWhile fun c => IsDigit c,
    List.takeWhile_append_dropWhile.symm, fun c hc => ?_, fun c hc => ?_⟩
  · simpa using List.mem_takeWhile_imp hc
  · have hnot := List.head?_dropWhile_not (fun c : UInt8 => decide (IsDigit c)) text
    rw [Option.mem_def.mp hc] at hnot
    simpa using hnot

/-- There is one only. -/
theorem unique {digits' rest' : List UInt8} (h : DigitRun text digits rest)
    (h' : DigitRun text digits' rest') :
    Int.bmod (decimal digits) (2 ^ 32) = Int.bmod (decimal digits') (2 ^ 32) ∧ rest = rest' :=
  Prod.mk.inj (h.readNumber_eq.symm.trans h'.readNumber_eq)

end DigitRun

/-- **The loop stores the numbers that are there.** -/
theorem getElem?_readSlots_iff {left i : Nat} {text : List UInt8} {v : Int} :
    (readSlots left text)[i]? = some v ↔ i < left ∧ NumberAt i text v := by
  induction left generalizing i text with
  | zero => simp [readSlots]
  | succ left ih =>
    obtain ⟨digits, rest, hrun⟩ := DigitRun.exists_run text
    by_cases hsep : ∃ c p, rest = c :: p ∧ (c = 120 ∨ c = 64)
    · obtain ⟨c, p, rfl, hc⟩ := hsep
      rw [hrun.readSlots_sep hc]
      cases i with
      | zero =>
        rw [List.getElem?_cons_zero, Option.some_inj]
        constructor
        · rintro rfl
          exact ⟨Nat.succ_pos left, .first hrun⟩
        · rintro ⟨-, hv⟩
          cases hv with
          | first h => exact (hrun.unique h).1
      | succ i =>
        rw [List.getElem?_cons_succ, ih]
        constructor
        · rintro ⟨hi, hv⟩
          exact ⟨Nat.succ_lt_succ hi, .next hrun hc hv⟩
        · rintro ⟨hi, hv⟩
          cases hv with
          | next h _ hv =>
            obtain rfl := (List.cons.inj (hrun.unique h).2).2
            exact ⟨Nat.lt_of_succ_lt_succ hi, hv⟩
    · have hend : ∀ c ∈ rest.head?, ¬ (c = 120 ∨ c = 64) := by
        intro c hc hsep'
        obtain ⟨p, rfl⟩ : ∃ p, rest = c :: p := by
          cases rest with
          | nil => cases hc
          | cons d p => exact ⟨p, by rw [Option.some.inj hc]⟩
        exact hsep ⟨c, p, rfl, hsep'⟩
      rw [hrun.readSlots_end hend]
      cases i with
      | zero =>
        rw [List.getElem?_cons_zero, Option.some_inj]
        constructor
        · rintro rfl
          exact ⟨Nat.succ_pos left, .first hrun⟩
        · rintro ⟨-, hv⟩
          cases hv with
          | first h => exact (hrun.unique h).1
      | succ i =>
        refine iff_of_false (by simp) ?_
        rintro ⟨-, hv⟩
        cases hv with
        | next h hc _ => exact hend _ (by rw [(hrun.unique h).2]; rfl) hc

/-- Three numbers are stored for a well-formed argument. -/
theorem length_readSlots_of_spelled {text : List UInt8}
    (h : WellSpelled (text.takeWhile (· ≠ 32))) : (readSlots 3 text).length = 3 := by
  obtain ⟨ws, hs, rs, hspells⟩ := h
  obtain ⟨rest, htext, hrest⟩ : ∃ rest, text = ws ++ 120 :: (hs ++ 64 :: (rs ++ rest)) ∧
      ∀ c ∈ rest.head?, c = 32 := by
    refine ⟨text.dropWhile (· ≠ 32), ?_, fun c hc => ?_⟩
    · have happend := List.takeWhile_append_dropWhile (p := (· ≠ (32 : UInt8))) (l := text)
      rw [hspells.eq] at happend
      simpa using happend.symm
    · have hnot := List.head?_dropWhile_not (fun c : UInt8 => decide (c ≠ 32)) text
      rw [Option.mem_def.mp hc] at hnot
      simpa using hnot
  have hsep {c : UInt8} (hc : c = 120 ∨ c = 64) {p : List UInt8} :
      ∀ d ∈ (c :: p).head?, ¬ IsDigit d := by
    intro d hd
    obtain rfl := Option.some.inj hd
    rcases hc with rfl | rfl <;> decide
  have hwidth : DigitRun text ws _ := ⟨htext, hspells.width_digits, hsep (.inl rfl)⟩
  have hheight : DigitRun (hs ++ 64 :: (rs ++ rest)) hs _ :=
    ⟨rfl, hspells.height_digits, hsep (.inr rfl)⟩
  have hrate : DigitRun (rs ++ rest) rs rest := by
    refine ⟨rfl, hspells.rate_digits, fun c hc => ?_⟩
    rw [hrest c hc]
    decide
  have hend : ∀ c ∈ rest.head?, ¬ (c = 120 ∨ c = 64) := by
    intro c hc
    rw [hrest c hc]
    decide
  rw [hwidth.readSlots_sep (.inl rfl), hheight.readSlots_sep (.inr rfl), hrate.readSlots_end hend]
  rfl

theorem length_readSlots_le (left : Nat) (text : List UInt8) :
    (readSlots left text).length ≤ left := by
  induction left generalizing text with
  | zero => exact Nat.le_refl 0
  | succ left ih =>
    rw [readSlots]
    split
    · split
      · exact Nat.succ_le_succ (ih _)
      · exact Nat.succ_le_succ (Nat.zero_le _)
    · exact Nat.succ_le_succ (Nat.zero_le _)

/-! ## The check -/

theorem checkSlots_accepts_iff (v : Nat → Int) :
    (checkSlots v).1 = true ↔ ∀ i ≤ 2, Sane i (v i) := by
  constructor
  · intro h i hi
    obtain rfl | rfl | rfl : i = 0 ∨ i = 1 ∨ i = 2 := by omega
    all_goals
      simp only [checkSlots] at h
      split_ifs at h with h₀ h₁
      simp_all [Sane]
  · intro h
    have h₀ : v 0 ≥ 256 := h 0 (by decide)
    have h₁ : v 1 ≥ 200 := h 1 (by decide)
    have h₂ : v 2 = 50 ∨ v 2 = 60 := h 2 (by decide)
    simp [checkSlots, h₀, h₁, h₂]

/-- A place is looked at when all before it pass. -/
theorem mem_checkSlots_iff (v : Nat → Int) (i : Nat) :
    i ∈ (checkSlots v).2 ↔ i ≤ 2 ∧ ∀ j < i, Sane j (v j) := by
  have hsane₀ : Sane 0 (v 0) ↔ v 0 ≥ 256 := Iff.rfl
  have hsane₁ : Sane 1 (v 1) ↔ v 1 ≥ 200 := Iff.rfl
  constructor
  · intro hi
    simp only [checkSlots] at hi
    split_ifs at hi with h₀ h₁
    · have hle : i ≤ 2 := by
        have : i = 0 ∨ i = 1 ∨ i = 2 := by simpa using hi
        omega
      refine ⟨hle, fun j hj => ?_⟩
      obtain rfl | rfl : j = 0 ∨ j = 1 := by omega
      · exact h₀
      · exact h₁
    · have hle : i ≤ 1 := by
        have : i = 0 ∨ i = 1 := by simpa using hi
        omega
      refine ⟨Nat.le_succ_of_le hle, fun j hj => ?_⟩
      obtain rfl : j = 0 := by omega
      exact h₀
    · obtain rfl : i = 0 := by simpa using hi
      exact ⟨Nat.zero_le 2, fun j hj => absurd hj (Nat.not_lt_zero j)⟩
  · rintro ⟨hi, hbefore⟩
    simp only [checkSlots]
    split_ifs with h₀ h₁
    · simp only [List.mem_cons, List.not_mem_nil, or_false]
      omega
    · have : i ≠ 2 := fun h2 => h₁ (hsane₁.mp (hbefore 1 (by omega)))
      simp only [List.mem_cons, List.not_mem_nil, or_false]
      omega
    · have : i = 0 := by
        by_contra hne
        exact h₀ (hsane₀.mp (hbefore 0 (by omega)))
      simp [this]

/-- The check of what was stored, with junk behind it: no more is looked at and nothing bad is
accepted, exactly if one of the stored numbers fails or the argument is good. -/
theorem checkSlots_iff {slots : List Int} (junk : Nat → Int) {good : Prop}
    (hle : slots.length ≤ 3) (hgood : good → slots.length = 3) :
    ((∀ i ∈ (checkSlots fun i => slots.getD i (junk i)).2, i < slots.length) ∧
      ((checkSlots fun i => slots.getD i (junk i)).1 = true → good)) ↔
    (∃ i v, slots[i]? = some v ∧ ¬ Sane i v) ∨ good := by
  have hstored {i : Nat} {v : Int} (h : slots[i]? = some v) : slots.getD i (junk i) = v := by
    rw [List.getD_eq_getElem?_getD, h, Option.getD_some]
  simp only [mem_checkSlots_iff, checkSlots_accepts_iff]
  constructor
  · rintro ⟨hreads, haccept⟩
    by_contra hnot
    simp only [not_or, not_exists, not_and, not_not] at hnot
    have hsane : ∀ i < slots.length, Sane i (slots.getD i (junk i)) := by
      intro i hi
      rw [hstored (List.getElem?_eq_getElem hi)]
      exact hnot.1 i _ (List.getElem?_eq_getElem hi)
    -- the place behind the last number stored would be the next one
    have hthree : slots.length = 3 := by
      by_contra hne
      exact absurd (hreads slots.length ⟨by omega, hsane⟩) (Nat.lt_irrefl _)
    exact hnot.2 (haccept fun i hi => hsane i (by omega))
  · rintro (⟨i, v, hi, hv⟩ | hgood')
    · have hlt : i < slots.length := (List.getElem?_eq_some_iff.mp hi).1
      rw [← hstored hi] at hv
      refine ⟨fun k hk => ?_, fun hall => absurd (hall i (by omega)) hv⟩
      by_contra hge
      exact hv (hk.2 i (by omega))
    · exact ⟨fun i hi => by have := hgood hgood'; omega, fun _ => hgood'⟩

/-- What the check has looked at and what came of it. -/
theorem chooseMode_of_key (hires : Bool) (junk : Nat → Int) {cmdline p : List UInt8}
    (h : strstr psxvideoKey cmdline = some p) :
    (chooseMode hires junk cmdline).reads =
        (checkSlots fun i => (readSlots 3 (p.drop 9)).getD i (junk i)).2 ∧
      (chooseMode hires junk cmdline).written = (readSlots 3 (p.drop 9)).length ∧
      (chooseMode hires junk cmdline).replaced =
        (checkSlots fun i => (readSlots 3 (p.drop 9)).getD i (junk i)).1 := by
  rw [chooseMode, h]
  rcases hcheck : checkSlots fun i => (readSlots 3 (p.drop 9)).getD i (junk i) with
    ⟨accepted, reads⟩
  simp only [hcheck]
  cases accepted with
  | true => exact ⟨rfl, rfl, rfl⟩
  | false => exact ⟨rfl, rfl, rfl⟩

/-- **When the mode is set up as it should be**: there is no `psxvideo=` on the command line, or
one of the numbers that are there fails its check, or the argument is well-formed. -/
theorem setup_sound_iff (hires : Bool) (junk : Nat → Int) (cmdline : List UInt8) :
    SetupSound hires junk cmdline ↔
      ∀ p, strstr psxvideoKey cmdline = some p →
        (∃ i < 3, ∃ v, NumberAt i (p.drop 9) v ∧ ¬ Sane i v) ∨ WellSpelled (videoArgument p) := by
  have hgeometry (g : Geometry) : (20 ≤ g.cols ∧ g.cols ≤ 80) ∧ (8 ≤ g.rows ∧ g.rows ≤ 21) :=
    ⟨⟨g.cols_ge, g.cols_le⟩, g.rows_ge, g.rows_le⟩
  cases hkey : strstr psxvideoKey cmdline with
  | none =>
    have hchoice : chooseMode hires junk cmdline = defaultChoice hires := by
      rw [chooseMode, hkey]
    refine iff_of_true ⟨?_, ?_, (hgeometry _).1, (hgeometry _).2⟩ (fun p hp => (nomatch hp))
    · rw [hchoice]
      exact fun i hi => (nomatch hi)
    · rw [hchoice]
      exact fun h => (nomatch h)
  | some p =>
    obtain ⟨hreads, hwritten, hreplaced⟩ := chooseMode_of_key hires junk hkey
    have hthree : WellSpelled (videoArgument p) → (readSlots 3 (p.drop 9)).length = 3 :=
      length_readSlots_of_spelled
    have hcheck := checkSlots_iff junk (length_readSlots_le 3 (p.drop 9)) hthree
    simp only [getElem?_readSlots_iff] at hcheck
    have hright : (∀ q, some p = some q → (∃ i < 3, ∃ v, NumberAt i (q.drop 9) v ∧ ¬ Sane i v) ∨
        WellSpelled (videoArgument q)) ↔
        (∃ i v, (i < 3 ∧ NumberAt i (p.drop 9) v) ∧ ¬ Sane i v) ∨
          WellSpelled (videoArgument p) := by
      constructor
      · intro h
        refine (h p rfl).imp_left ?_
        rintro ⟨i, hi, v, hv, hbad⟩
        exact ⟨i, v, ⟨hi, hv⟩, hbad⟩
      · rintro h q hq
        obtain rfl := Option.some.inj hq
        refine h.imp_left ?_
        rintro ⟨i, v, ⟨hi, hv⟩, hbad⟩
        exact ⟨i, hi, v, hv, hbad⟩
    rw [hright]
    refine Iff.trans ⟨fun h => ?_, fun h => ?_⟩ hcheck
    · refine ⟨fun i hi => ?_, fun haccept => ?_⟩
      · rw [← hwritten]
        exact h.reads i (hreads ▸ hi)
      · obtain ⟨q, hq, hspelled⟩ := h.replaced (hreplaced.trans haccept)
        obtain rfl := Option.some.inj (hkey.symm.trans hq)
        exact hspelled
    · refine ⟨fun i hi => ?_, fun haccept => ?_, (hgeometry _).1, (hgeometry _).2⟩
      · rw [hwritten]
        exact h.1 i (hreads ▸ hi)
      · exact ⟨p, hkey, h.2 (hreplaced.symm.trans haccept)⟩

/-- The number is not followed by anything, and the next one is looked at. -/
theorem width_alone_reads_junk : ¬ SetupSound false (fun _ => 0) (ascii "psxvideo=640") :=
  fun h => absurd h.reads (by decide)

/-! ## The start -/

theorem startRows_zero (count : Nat) {y : Nat} (hy : y + count ≤ maxH) {c : Vga}
    (hc : c.scrbuf = fun _ _ => 0) :
    ∃ c', startRows count y c = some c' ∧ c'.scrbuf = fun _ _ => 0 := by
  induction count generalizing y c with
  | zero => exact ⟨c, rfl, hc⟩
  | succ count ih =>
    rw [startRows, zeroCells_eq (by omega) 37 (by decide)]
    refine ih (by omega) ?_
    funext z x
    simp only [hc, ite_self]

/-- **The console starts blank**, in whatever geometry the command line asks for, and ready for all
that is done to it. -/
theorem startup_blank (hires : Bool) (junk : Nat → Int) (cmdline : List UInt8) {c : Vga}
    (hc : c.scrbuf = fun _ _ => 0) :
    ∃ mode g c', psxvgaStartup hires junk cmdline c = some (mode, g, c') ∧ c'.Ok g ∧
      c'.grid g = fun _ _ => 0 := by
  obtain ⟨c', h, hzero⟩ := startRows_zero 21 (y := 0) (by decide) hc
  rw [psxvgaStartup, h]
  have hok := filledVga_ok (psxvgaSetupMode hires junk cmdline).2 0
  refine ⟨(psxvgaSetupMode hires junk cmdline).1, (psxvgaSetupMode hires junk cmdline).2, _, rfl,
    ⟨hok.bottom_lt, hok.cury_lt, hok.curx_lt⟩, ?_⟩
  funext y x
  show c'.scrbuf _ _ = 0
  rw [hzero]

end Console
end Blackroo
