import Blackroo.Console.Screen

/-!
# Clearing a rectangle

`psxvga_clear` passes a row times the number of columns where `psxvga_memsetw` takes a row, and
`psxvga_memsetw` writes the same cell again and again.  So it writes into the first column of the
rectangle only, and there into the rows whose number is one of the rectangle times the number of
columns (`clear_keeps`).

Row 0 is its own product.  The product of any other row is at least the width of the screen, and
mostly below the screen, where `psxvga_writew2` writes nothing.  So no access leaves the array and
nothing tells that the row was wrong: the cells keep what they had.

## When it is right all the same

A rectangle is cleared if it is empty, or if it is one cell of the first row (`clears_cell`).  In
every other rectangle there is a cell that no write gets to.  It is one in the second column, if
there is one; else it is the uppermost one below row 0, which is no product of a row above it.  On a
screen full of letters that cell still has its letter (`not_clears_letters`).  `clear_iff` puts the
two together, for every rectangle on the screen.
-/

namespace Blackroo
namespace Console

variable {g : Geometry} {c : Vga}

/-- A rectangle inside the screen. -/
structure Rect (g : Geometry) where
  sy : Nat
  sx : Nat
  height : Nat
  width : Nat
  rows_le : sy + height ≤ g.rows
  cols_le : sx + width ≤ g.cols

/-- The cell is in the rectangle. -/
def Rect.Mem (r : Rect g) (y : Fin g.rows) (x : Fin g.cols) : Prop :=
  (r.sy ≤ y ∧ y < r.sy + r.height) ∧ r.sx ≤ x ∧ x < r.sx + r.width

/-- The rectangle is cleared, in the buffer and on the display, and nothing else happens. -/
def Clears (g : Geometry) (r : Rect g) (c : Vga) : Prop :=
  ∃ c', psxvgaClear g r.sy r.sx r.height r.width c = some c' ∧ ∀ y x,
    (r.Mem y x → ¬ Visible (c'.grid g y x) ∧ LooksBlank (display c'.gpu y x)) ∧
    (¬ r.Mem y x → c'.grid g y x = c.grid g y x ∧ display c'.gpu y x = display c.gpu y x)

/-! ## What is left alone -/

/-- A state that differs from `c` in the cells with `P` only. -/
structure ChangesOnly (g : Geometry) (P : Nat → Nat → Prop) (c c' : Vga) : Prop where
  bottom : c'.bottom = c.bottom
  grid : ∀ (y : Fin g.rows) (x : Fin g.cols), ¬ P y x → c'.grid g y x = c.grid g y x

theorem ChangesOnly.refl (g : Geometry) (P : Nat → Nat → Prop) (c : Vga) : ChangesOnly g P c c :=
  ⟨rfl, fun _ _ _ => rfl⟩

theorem ChangesOnly.trans {P : Nat → Nat → Prop} {c' c'' : Vga} (h : ChangesOnly g P c c')
    (h' : ChangesOnly g P c' c'') : ChangesOnly g P c c'' :=
  ⟨h'.bottom.trans h.bottom, fun y x hP => (h'.grid y x hP).trans (h.grid y x hP)⟩

theorem ChangesOnly.mono {P Q : Nat → Nat → Prop} {c' : Vga} (h : ChangesOnly g P c c')
    (hPQ : ∀ y x, P y x → Q y x) : ChangesOnly g Q c c' :=
  ⟨h.bottom, fun y x hQ => h.grid y x fun hP => hQ (hPQ _ _ hP)⟩

theorem writew2_changesOnly (hc : c.bottom < g.rows) (val : UInt32) (y x : Nat) :
    ∃ c', psxvgaWritew2 g val y x c = some c' ∧
      ChangesOnly g (fun y' x' => y' = y ∧ x' = x) c c' := by
  by_cases hin : y < g.rows ∧ x < g.cols
  · obtain ⟨c', h, hshow⟩ := writew2_eq hc val ⟨y, hin.1⟩ ⟨x, hin.2⟩
    refine ⟨c', h, hshow.bottom, fun y' x' hne => ?_⟩
    rw [hshow.grid, Grid.write_apply, if_neg]
    rintro ⟨rfl, rfl⟩
    exact hne ⟨rfl, rfl⟩
  · exact ⟨c, if_neg hin, .refl g _ c⟩

theorem memsetw_changesOnly (sx sy val : UInt16) (count : Nat) (hc : c.bottom < g.rows) :
    ∃ c', psxvgaMemsetw g sx sy val count c = some c' ∧
      ChangesOnly g (fun y x => y = sy.toNat ∧ x = sx.toNat) c c' := by
  induction count generalizing c with
  | zero => exact ⟨c, rfl, .refl g _ c⟩
  | succ count ih =>
    obtain ⟨c₁, h₁, hch₁⟩ := writew2_changesOnly hc val.toUInt32 sy.toNat sx.toNat
    obtain ⟨c', h', hch'⟩ := ih (hch₁.bottom ▸ hc)
    refine ⟨c', ?_, hch₁.trans hch'⟩
    rw [psxvgaMemsetw, h₁]
    exact h'

theorem clearRows_changesOnly (sy sx width count y : Nat) (hc : c.bottom < g.rows) :
    ∃ c', clearRows g sy sx width count y c = some c' ∧ ChangesOnly g (fun y' x' =>
      (∃ j, y ≤ j ∧ j < y + count ∧ y' = (sy + j) * g.cols % 2 ^ 16) ∧ x' = sx % 2 ^ 16) c c' := by
  induction count generalizing c y with
  | zero => exact ⟨c, rfl, .refl g _ c⟩
  | succ count ih =>
    obtain ⟨c₁, h₁, hch₁⟩ :=
      memsetw_changesOnly (UInt16.ofNat sx) (UInt16.ofNat ((sy + y) * g.cols)) 32 width hc
    obtain ⟨c', h', hch'⟩ := ih (y + 1) (hch₁.bottom ▸ hc)
    refine ⟨c', ?_, ChangesOnly.trans (hch₁.mono ?_) (hch'.mono ?_)⟩
    · rw [clearRows, h₁]
      exact h'
    · rintro y' x' ⟨hy, hx⟩
      exact ⟨⟨y, Nat.le_refl y, by omega, hy⟩, hx⟩
    · rintro y' x' ⟨⟨j, hj, hj', hy⟩, hx⟩
      exact ⟨⟨j, by omega, by omega, hy⟩, hx⟩

/-- **What the code leaves alone**: all columns but the first of the rectangle, and in that one all
rows but those whose number is one of the rectangle times the number of columns. -/
theorem clear_keeps (r : Rect g) (hc : c.bottom < g.rows) :
    ∃ c', psxvgaClear g r.sy r.sx r.height r.width c = some c' ∧
      ∀ (y : Fin g.rows) (x : Fin g.cols),
        ¬ ((∃ j < r.height, (y : Nat) = (r.sy + j) * g.cols) ∧ (x : Nat) = r.sx) →
        c'.grid g y x = c.grid g y x := by
  have hrows := g.rows_le
  have hcols := g.cols_le
  have hr := r.rows_le
  have hsx := r.cols_le
  obtain ⟨c', h, hch⟩ := clearRows_changesOnly r.sy r.sx r.width r.height 0 hc
  refine ⟨c', ?_, fun y x hne => hch.grid y x ?_⟩
  · rw [psxvgaClear, if_neg (by omega)]
    exact h
  · rintro ⟨⟨j, -, hj, hy⟩, hx⟩
    have hsmall : (r.sy + j) * g.cols < 2 ^ 16 := by
      have h₁ : r.sy + j ≤ 21 := by
        have : maxH = 21 := rfl
        omega
      have h₂ : g.cols ≤ 80 := hcols
      calc (r.sy + j) * g.cols ≤ 21 * 80 := Nat.mul_le_mul h₁ h₂
        _ < 2 ^ 16 := by decide
    refine hne ⟨⟨j, by omega, ?_⟩, ?_⟩
    · rw [hy, Nat.mod_eq_of_lt hsmall]
    · rw [hx, Nat.mod_eq_of_lt]
      have : maxW = 80 := rfl
      omega

/-! ## The display -/

theorem display_draw (c : Vga) (ops : List Gpu) :
    display (c.draw ops).gpu = ops.foldl Gpu.paint (display c.gpu) := by
  rw [display, Vga.draw, List.foldl_append]
  rfl

theorem paint_cellLine (d : Display) {y x : Nat} (hx : x < maxW) (col : UInt32) (y' x' : Nat) :
    Gpu.paint d (cellLine y x col) y' x' = if y' = y ∧ x' = x then [.block col] else d y' x' := by
  have hW : maxW = 80 := rfl
  have hcovers : Covers (((y * fntH) <<< 16) + x * fntW) ((fntH <<< 16) + fntW) y' x' ↔
      y' = y ∧ x' = x := by
    simp only [Covers, fntH, fntW, Nat.shiftLeft_eq]
    omega
  rw [cellLine, Gpu.paint]
  simp only [hcovers]

theorem paint_cellPrint (d : Display) (y x : Nat) (val : UInt32) (y' x' : Nat) :
    Gpu.paint d (cellPrint y x val) y' x' =
      if y' = y ∧ x' = x then d y' x' ++ [.glyph val.toUInt8] else d y' x' := by
  have hplace : x * fntW = x' * fntW ∧ y * fntH = y' * fntH ↔ y' = y ∧ x' = x := by
    simp only [fntH, fntW]
    omega
  rw [cellPrint, Gpu.paint]
  simp only [hplace]

/-! ## The rectangles that are cleared -/

theorem clears_of_clear_eq {r : Rect g} (hnone : ∀ y x, ¬ r.Mem y x)
    (h : psxvgaClear g r.sy r.sx r.height r.width c = some c) : Clears g r c :=
  ⟨c, h, fun y x => ⟨fun hmem => absurd hmem (hnone y x), fun _ => ⟨rfl, rfl⟩⟩⟩

theorem clearRows_width_zero (sy sx count y : Nat) (c : Vga) :
    clearRows g sy sx 0 count y c = some c := by
  induction count generalizing y with
  | zero => rfl
  | succ count ih => exact ih (y + 1)

/-- A write of a space blanks its cell. -/
theorem writew2_space (hc : c.bottom < g.rows) (y : Fin g.rows) (x : Fin g.cols) :
    ∃ c', psxvgaWritew2 g 32 y x c = some c' ∧ ∀ y' x',
      (y' = y ∧ x' = x → ¬ Visible (c'.grid g y' x') ∧ LooksBlank (display c'.gpu y' x')) ∧
      (¬ (y' = y ∧ x' = x) →
        c'.grid g y' x' = c.grid g y' x' ∧ display c'.gpu y' x' = display c.gpu y' x') := by
  have hxW := g.lt_maxW x.isLt
  rw [psxvgaWritew2, if_pos ⟨y.isLt, x.isLt⟩, Ring.slot_eq_mod hc y.isLt,
    put_eq _ (g.mod_lt_maxH _) hxW]
  refine ⟨_, rfl, fun y' x' => ?_⟩
  have hgrid : ((c.draw [cellLine y x black, cellPrint y x 32]).store ((y + c.bottom) % g.rows) x
      32).grid g y' x' = if y' = y ∧ x' = x then 32 else c.grid g y' x' := by
    rw [← Grid.write_apply]
    exact congrFun (congrFun (grid_store g (c.draw _) 32 y x) y') x'
  have hdisplay : display (c.draw [cellLine y x black, cellPrint y x 32]).gpu y' x' =
      if (y' : Nat) = y ∧ (x' : Nat) = x then [.block black, .glyph 32] else
        display c.gpu y' x' := by
    rw [display_draw, List.foldl_cons, List.foldl_cons, List.foldl_nil, paint_cellPrint,
      paint_cellLine _ hxW]
    by_cases hin : (y' : Nat) = y ∧ (x' : Nat) = x
    · rw [if_pos hin, if_pos hin, if_pos hin]
      rfl
    · rw [if_neg hin, if_neg hin, if_neg hin]
  constructor
  · rintro ⟨rfl, rfl⟩
    constructor
    · rw [hgrid, if_pos ⟨rfl, rfl⟩]
      decide
    · show LooksBlank (display (c.draw _).gpu y' x')
      rw [hdisplay, if_pos ⟨rfl, rfl⟩]
      decide
  · intro hne
    constructor
    · rw [hgrid, if_neg hne]
    · show display (c.draw _).gpu y' x' = _
      rw [hdisplay, if_neg]
      rintro ⟨hy, hx⟩
      exact hne ⟨Fin.ext hy, Fin.ext hx⟩

/-- A single cell of the first row. -/
theorem clears_cell {r : Rect g} (hsy : r.sy = 0) (hh : r.height = 1) (hw : r.width = 1)
    (hc : c.bottom < g.rows) : Clears g r c := by
  have hW : maxW = 80 := rfl
  have hcols := g.cols_le
  have hlt := r.cols_le
  have hpos : 0 < g.rows := Nat.lt_of_lt_of_le (Nat.succ_pos 7) g.rows_ge
  have hsx : r.sx < g.cols := by omega
  obtain ⟨c', h, hcells⟩ := writew2_space hc ⟨0, hpos⟩ ⟨r.sx, hsx⟩
  have hmem (y : Fin g.rows) (x : Fin g.cols) : r.Mem y x ↔ y = ⟨0, hpos⟩ ∧ x = ⟨r.sx, hsx⟩ := by
    rw [Rect.Mem, Fin.ext_iff, Fin.ext_iff]
    simp only
    omega
  have harg : (UInt16.ofNat r.sx).toNat = r.sx := Nat.mod_eq_of_lt (by omega)
  refine ⟨c', ?_, fun y x => ?_⟩
  · rw [psxvgaClear, if_neg (by omega), hsy, hh, hw, clearRows, psxvgaMemsetw, harg]
    show ((psxvgaWritew2 g 32 ((0 + 0) * g.cols % 2 ^ 16) r.sx c).bind _).bind _ = _
    rw [Nat.zero_mul, Nat.zero_mod, h]
    rfl
  · rw [hmem]
    exact hcells y x

/-- A screen full of letters, of which one in the rectangle is left. -/
theorem not_clears_letters (r : Rect g) (hh : r.height ≠ 0) (hw : r.width ≠ 0)
    (hmore : ¬ (r.sy = 0 ∧ r.height = 1 ∧ r.width = 1)) : ¬ Clears g r (filledVga 65) := by
  have hrows := r.rows_le
  have hcols := r.cols_le
  have hge := g.cols_ge
  -- the second cell of the first row, or else the first cell of another row
  obtain ⟨y, x, hmem, hleft⟩ : ∃ (y : Fin g.rows) (x : Fin g.cols), r.Mem y x ∧
      ¬ ((∃ j < r.height, (y : Nat) = (r.sy + j) * g.cols) ∧ (x : Nat) = r.sx) := by
    by_cases hw1 : r.width = 1
    · have hrow (y : Nat) (hy : 0 < y) : ¬ ∃ j, y ≤ r.sy + j ∧ y = (r.sy + j) * g.cols := by
        rintro ⟨j, hle, heq⟩
        have hmul : (r.sy + j) * 20 ≤ (r.sy + j) * g.cols := Nat.mul_le_mul_left _ hge
        omega
      by_cases hsy : r.sy = 0
      · refine ⟨⟨1, by omega⟩, ⟨r.sx, by omega⟩, ⟨⟨by simp only; omega, by simp only; omega⟩,
          Nat.le_refl _, by simp only; omega⟩, ?_⟩
        rintro ⟨⟨j, -, heq⟩, -⟩
        have hj : r.sy + j ≠ 0 := by
          intro h0
          rw [h0, Nat.zero_mul] at heq
          exact absurd heq Nat.one_ne_zero
        exact hrow 1 Nat.one_pos ⟨j, by omega, heq⟩
      · refine ⟨⟨r.sy, by omega⟩, ⟨r.sx, by omega⟩, ⟨⟨Nat.le_refl _, by simp only; omega⟩,
          Nat.le_refl _, by simp only; omega⟩, ?_⟩
        rintro ⟨⟨j, -, heq⟩, -⟩
        exact hrow r.sy (by omega) ⟨j, Nat.le_add_right _ _, heq⟩
    · refine ⟨⟨r.sy, by omega⟩, ⟨r.sx + 1, by omega⟩, ⟨⟨Nat.le_refl _, by simp only; omega⟩,
        Nat.le_succ _, by simp only; omega⟩, ?_⟩
      rintro ⟨-, heq⟩
      exact absurd heq (Nat.succ_ne_self _)
  rintro ⟨c', h, hcells⟩
  obtain ⟨c'', h'', hkeep⟩ := clear_keeps r (filledVga_ok g 65).bottom_lt
  obtain rfl := Option.some.inj (h.symm.trans h'')
  refine ((hcells y x).1 hmem).1 ?_
  rw [hkeep y x hleft]
  exact (show Visible 65 by decide)

/-- **`psxvga_clear` clears a rectangle**, whatever is on the screen, exactly if the rectangle is
empty or a single cell of the first row. -/
theorem clear_iff (g : Geometry) (r : Rect g) :
    (∀ c, c.bottom < g.rows → Clears g r c) ↔
      r.height = 0 ∨ r.width = 0 ∨ (r.sy = 0 ∧ r.height = 1 ∧ r.width = 1) := by
  have hrows := r.rows_le
  constructor
  · intro hall
    by_contra hnot
    simp only [not_or] at hnot
    exact not_clears_letters r hnot.1 hnot.2.1 hnot.2.2 (hall _ (filledVga_ok g 65).bottom_lt)
  · rintro (hh | hw | ⟨hsy, hh, hw⟩) c hc
    · refine clears_of_clear_eq (fun y x hmem => ?_) ?_
      · have := hmem.1
        omega
      · rw [psxvgaClear, if_neg (by omega), hh]
        rfl
    · refine clears_of_clear_eq (fun y x hmem => ?_) ?_
      · have := hmem.2
        omega
      · rw [psxvgaClear, if_neg (by omega), hw, clearRows_width_zero]
    · exact clears_cell hsy hh hw hc

/-- The whole screen. -/
def wholeScreen (g : Geometry) : Rect g where
  sy := 0
  sx := 0
  height := g.rows
  width := g.cols
  rows_le := by rw [Nat.zero_add]
  cols_le := by rw [Nat.zero_add]

/-- The screen is full of letters and is cleared: they stay. -/
theorem letters_not_cleared :
    ¬ Clears smallGeometry (wholeScreen smallGeometry) (filledVga 65) :=
  not_clears_letters _ (by decide) (by decide) (by decide)

end Console
end Blackroo
