import Mathlib.Data.List.ProdSigma
import Mathlib.Data.List.FinRange
import Blackroo.Console.Psxcon

/-!
# The rotating buffer is a screen

Every operation of the driver is one of the plain screen, and keeps the buffer in order:
`writew2_eq` for a character, `putcs_eq` for a line of them, `scroll_eq` for a scroll.  The loop
of the scroll is described by the rows it sets to zero (`zeroRows_eq`); that these are the rows
which `psxvga_bottom` moves past is `Ring.view_shift`.

`printscreen_eq` is the redrawing.  Its two loops run through the buffer from `psxvga_bottom` to
the end and from the beginning to `psxvga_bottom`, and are one loop through the screen.

A scroll does not move a single cell: the row that was the first becomes the last one, and has to be
blank before it is seen again.  So what is on the screen is a view of the buffer that depends on
`psxvga_bottom` (`Vga.grid`), and the lemmas are stated about the view.  `ring_refines_screen` is
the induction over a sequence of operations; it also has that no index leaves the buffer, which is
part of every step because the functions of the model return nothing if one does.
-/

namespace Blackroo
namespace Console

variable {g : Geometry} {c : Vga}

/-- The variables are in range. -/
structure Vga.Ok (g : Geometry) (c : Vga) : Prop where
  bottom_lt : c.bottom < g.rows
  cury_lt : c.cury < g.rows
  curx_lt : c.curx < g.cols

theorem Geometry.mod_lt_maxH (g : Geometry) (i : Nat) : i % g.rows < maxH :=
  Nat.lt_of_lt_of_le (Nat.mod_lt i (by have := g.rows_ge; omega)) g.rows_le

theorem Geometry.lt_maxW (g : Geometry) {x : Nat} (hx : x < g.cols) : x < maxW :=
  Nat.lt_of_lt_of_le hx g.cols_le

theorem put_eq {y x : Nat} (c : Vga) (hy : y < maxH) (hx : x < maxW) (val : UInt32) :
    c.put y x val = some (c.store y x val) := if_pos ⟨hy, hx⟩

theorem get_eq {y x : Nat} (c : Vga) (hy : y < maxH) (hx : x < maxW) :
    c.get y x = some (c.scrbuf y x) := if_pos ⟨hy, hx⟩

@[simp] theorem grid_draw (g : Geometry) (c : Vga) (ops : List Gpu) :
    (c.draw ops).grid g = c.grid g := rfl

/-! ## Characters -/

/-- A cell of the buffer after a write. -/
theorem store_scrbuf (c : Vga) (y x : Nat) (val : UInt32) (z x' : Nat) :
    (c.store y x val).scrbuf z x' = if z = y ∧ x' = x then val else c.scrbuf z x' := by
  show Function.update c.scrbuf y (Function.update (c.scrbuf y) x val) z x' = _
  by_cases hz : z = y
  · subst hz
    rw [Function.update_self]
    by_cases hx : x' = x
    · subst hx
      rw [Function.update_self, if_pos ⟨rfl, rfl⟩]
    · rw [Function.update_of_ne hx, if_neg fun h => hx h.2]
  · rw [Function.update_of_ne hz, if_neg fun h => hz h.1]

theorem Grid.write_apply (s : Grid g) (val : UInt32) (y y' : Fin g.rows) (x x' : Fin g.cols) :
    s.write val y x y' x' = if y' = y ∧ x' = x then val else s y' x' := by
  by_cases hy : y' = y
  · subst hy
    rw [Grid.write, Function.update_self]
    by_cases hx : x' = x
    · subst hx
      rw [Function.update_self, if_pos ⟨rfl, rfl⟩]
    · rw [Function.update_of_ne hx, if_neg fun h => hx h.2]
  · rw [Grid.write, Function.update_of_ne hy, if_neg fun h => hy h.1]

/-- A write at the place of a cell. -/
theorem grid_store (g : Geometry) (c : Vga) (val : UInt32) (y : Fin g.rows) (x : Fin g.cols) :
    (c.store ((y + c.bottom) % g.rows) x val).grid g = (c.grid g).write val y x := by
  ext y' x'
  have hplace : (y' + c.bottom) % g.rows = (y + c.bottom) % g.rows ↔ y' = y :=
    ⟨fun h => Fin.ext (Ring.add_mod_inj y'.isLt y.isLt h), fun h => by rw [h]⟩
  rw [Vga.grid, Ring.view, store_scrbuf, Grid.write_apply]
  simp only [Vga.store, hplace, ← Fin.ext_iff]
  rfl

/-- A state that shows this screen, with the variables of `c` but for the buffer. -/
structure Shows (g : Geometry) (c : Vga) (s : Grid g) (c' : Vga) : Prop where
  grid : c'.grid g = s
  bottom : c'.bottom = c.bottom
  cury : c'.cury = c.cury
  curx : c'.curx = c.curx

theorem Shows.ok {s : Grid g} {c' : Vga} (h : Shows g c s c') (hc : c.Ok g) : c'.Ok g where
  bottom_lt := h.bottom ▸ hc.bottom_lt
  cury_lt := h.cury ▸ hc.cury_lt
  curx_lt := h.curx ▸ hc.curx_lt

theorem Shows.trans {s s' : Grid g} {c' c'' : Vga} (h : Shows g c s c') (h' : Shows g c' s' c'') :
    Shows g c s' c'' where
  grid := h'.grid
  bottom := h'.bottom.trans h.bottom
  cury := h'.cury.trans h.cury
  curx := h'.curx.trans h.curx

theorem writew2_eq (hc : c.bottom < g.rows) (val : UInt32) (y : Fin g.rows) (x : Fin g.cols) :
    ∃ c', psxvgaWritew2 g val y x c = some c' ∧ Shows g c ((c.grid g).write val y x) c' := by
  have hlt := g.mod_lt_maxH (y + c.bottom)
  rw [psxvgaWritew2, if_pos ⟨y.isLt, x.isLt⟩, Ring.slot_eq_mod hc y.isLt,
    put_eq _ hlt (g.lt_maxW x.isLt)]
  exact ⟨_, rfl, grid_store g (c.draw _) val y x, rfl, rfl, rfl⟩

/-- Beyond the end of the row nothing is written. -/
theorem writew2_of_le {val : UInt32} {y x : Nat} (hx : g.cols ≤ x) :
    psxvgaWritew2 g val y x c = some c := if_neg fun h => Nat.not_lt.mpr hx h.2

theorem Grid.writeRow_nil (s : Grid g) (y : Fin g.rows) (x : Nat) : s.writeRow [] y x = s := by
  rw [Grid.writeRow]
  simp

theorem Grid.writeRow_of_le (s : Grid g) (vals : List UInt16) (y : Fin g.rows) {x : Nat}
    (hx : g.cols ≤ x) : s.writeRow vals y x = s := by
  have hrow : (fun x' : Fin g.cols => if x ≤ (x' : Nat) then
      (vals[(x' : Nat) - x]?.map UInt16.toUInt32).getD (s y x') else s y x') = s y := by
    ext x'
    have := x'.isLt
    rw [if_neg (by omega)]
  rw [Grid.writeRow, hrow, Function.update_eq_self]

/-- The first character, then the others. -/
theorem Grid.writeRow_cons (s : Grid g) (val : UInt16) (vals : List UInt16) (y : Fin g.rows)
    (x : Fin g.cols) :
    s.writeRow (val :: vals) y x = (s.write val.toUInt32 y x).writeRow vals y (x + 1) := by
  ext y' x'
  by_cases hy : y' = y
  · subst hy
    simp only [Grid.writeRow, Grid.write, Function.update_self]
    rcases Nat.lt_trichotomy (x' : Nat) x with hlt | heq | hgt
    · rw [if_neg (by omega), if_neg (by omega), Function.update_of_ne (Fin.ne_of_lt hlt)]
    · obtain rfl := Fin.ext heq
      rw [if_pos (Nat.le_refl _), if_neg (by omega), Nat.sub_self, Function.update_self]
      rfl
    · have hsub : (x' : Nat) - x = (x' - (x + 1)) + 1 := by omega
      rw [if_pos (by omega), if_pos (by omega), hsub, List.getElem?_cons_succ,
        Function.update_of_ne (Fin.ne_of_gt hgt)]
  · simp only [Grid.writeRow, Grid.write, Function.update_of_ne hy]

theorem putcs_eq (vals : List UInt16) (hc : c.bottom < g.rows) (y : Fin g.rows) (x : Nat) :
    ∃ c', psxvgaPutcs g vals y x c = some c' ∧ Shows g c ((c.grid g).writeRow vals y x) c' := by
  induction vals generalizing c x with
  | nil => exact ⟨c, rfl, (Grid.writeRow_nil _ y x).symm, rfl, rfl, rfl⟩
  | cons val vals ih =>
    rw [psxvgaPutcs]
    by_cases hx : x < g.cols
    · obtain ⟨c₁, h₁, hshow₁⟩ := writew2_eq hc val.toUInt32 y ⟨x, hx⟩
      obtain ⟨c', h', hshow'⟩ := ih (hshow₁.bottom ▸ hc) (x + 1)
      refine ⟨c', ?_, ?_⟩
      · show (psxvgaWritew2 g val.toUInt32 y x c).bind _ = _
        rw [h₁]
        exact h'
      · rw [hshow₁.grid] at hshow'
        rw [Grid.writeRow_cons _ val vals y ⟨x, hx⟩]
        exact hshow₁.trans hshow'
    · have hle : g.cols ≤ x := Nat.not_lt.mp hx
      obtain ⟨c', h', hshow'⟩ := ih hc (x + 1)
      rw [writew2_of_le hle]
      refine ⟨c', h', ?_⟩
      rw [Grid.writeRow_of_le _ _ y (Nat.le_succ_of_le hle)] at hshow'
      rwa [Grid.writeRow_of_le _ _ y hle]

/-! ## Scrolling -/

theorem zeroCells_eq {y : Nat} (hy : y < maxH) (count : Nat) {x : Nat} (hx : x + count ≤ maxW)
    (c : Vga) : zeroCells y count x c =
      some { c with
        scrbuf := fun z x' => if z = y ∧ x ≤ x' ∧ x' < x + count then 0 else c.scrbuf z x' } := by
  induction count generalizing x c with
  | zero =>
    rw [zeroCells]
    congr 1
    ext1
    · funext z x'
      exact (if_neg (by omega)).symm
    all_goals rfl
  | succ count ih =>
    rw [zeroCells, put_eq c hy (by omega)]
    show zeroCells y count (x + 1) _ = _
    rw [ih (by omega)]
    congr 1
    ext1
    · funext z x'
      simp only [store_scrbuf]
      split_ifs <;> first | rfl | omega
    all_goals rfl

/-- The rows that the loop of the scroll goes through: `count` of them, from `y` on and around. -/
def InRows (g : Geometry) (count y z : Nat) : Prop := ∃ i < count, z = (y + i) % g.rows

open Classical in
/-- The loop sets these rows to zero, as far as the screen is wide. -/
theorem zeroRows_eq (count : Nat) {y : Nat} (hy : y ≤ g.rows) (c : Vga) :
    zeroRows g count y c =
      some { c with
        scrbuf := fun z x => if InRows g count y z ∧ x < g.cols then 0 else c.scrbuf z x } := by
  have hrows := g.rows_ge
  induction count generalizing y c with
  | zero =>
    rw [zeroRows]
    congr 1
    ext1
    · funext z x
      refine (if_neg ?_).symm
      rintro ⟨⟨i, hi, -⟩, -⟩
      omega
    all_goals rfl
  | succ count ih =>
    have hwrap : (if y ≥ g.rows then 0 else y) = y % g.rows := by
      split
      · rw [show y = g.rows by omega, Nat.mod_self]
      · rw [Nat.mod_eq_of_lt (by omega)]
    have hlt := g.mod_lt_maxH y
    have hle : y % g.rows + 1 ≤ g.rows := Nat.mod_lt y (by omega)
    rw [zeroRows, hwrap]
    show (zeroCells (y % g.rows) g.cols 0 c).bind _ = _
    rw [zeroCells_eq hlt g.cols (by have := g.cols_le; omega)]
    show zeroRows g count (y % g.rows + 1) _ = _
    rw [ih hle]
    have hin (z : Nat) : InRows g (count + 1) y z ↔
        z = y % g.rows ∨ InRows g count (y % g.rows + 1) z := by
      have hshift (i : Nat) : (y % g.rows + 1 + i) % g.rows = (y + (i + 1)) % g.rows := by
        rw [Nat.add_assoc, Nat.mod_add_mod, Nat.add_comm 1]
      constructor
      · rintro ⟨i, hi, rfl⟩
        cases i with
        | zero => exact .inl rfl
        | succ i => exact .inr ⟨i, by omega, (hshift i).symm⟩
      · rintro (rfl | ⟨i, hi, rfl⟩)
        · exact ⟨0, by omega, rfl⟩
        · exact ⟨i + 1, by omega, hshift i⟩
    congr 1
    ext1
    · funext z x
      simp only [hin, Nat.zero_le, Nat.zero_add, true_and]
      by_cases hx : x < g.cols
      · by_cases h₁ : InRows g count (y % g.rows + 1) z
        · simp [h₁, hx]
        · by_cases h₂ : z = y % g.rows
          · simp [h₂, hx]
          · simp [h₁, h₂]
      · simp [hx]
    all_goals rfl

/-! ## Redrawing -/

/-- There is something to draw in a cell with this value. -/
def Visible (val : UInt32) : Prop := val ≠ 0 ∧ val ≠ 32

instance (val : UInt32) : Decidable (Visible val) := inferInstanceAs (Decidable (_ ∧ _))

/-- What is drawn for these cells of the row `z` of the buffer, on the row `y` of the screen. -/
def rowPrints (buf : Nat → Nat → UInt32) (z y : Nat) (xs : List Nat) : List Gpu :=
  (xs.filter fun x => Visible (buf z x)).map fun x => cellPrint y x (buf z x)

theorem draw_nil (c : Vga) : c.draw [] = c := by
  rw [Vga.draw, List.append_nil]

theorem draw_draw (c : Vga) (ops ops' : List Gpu) :
    (c.draw ops).draw ops' = c.draw (ops ++ ops') := by
  rw [Vga.draw, Vga.draw, Vga.draw, List.append_assoc]

theorem printCells_eq {z : Nat} (hz : z < maxH) (y count : Nat) {x : Nat} (hx : x + count ≤ maxW)
    (c : Vga) :
    printCells z y count x c = some (c.draw (rowPrints c.scrbuf z y (List.range' x count))) := by
  induction count generalizing x c with
  | zero => exact congrArg some (draw_nil c).symm
  | succ count ih =>
    rw [printCells, get_eq c hz (by omega)]
    show printCells z y count (x + 1) (if Visible (c.scrbuf z x) then _ else c) = _
    rw [List.range'_succ, rowPrints, List.filter_cons]
    by_cases hv : Visible (c.scrbuf z x)
    · rw [if_pos hv, if_pos (decide_eq_true hv), ih (by omega), draw_draw]
      rfl
    · rw [if_neg hv, if_neg (by simpa using hv), ih (by omega)]
      rfl

/-- A loop of the redrawing, where the rows of the buffer are those of the screen. -/
theorem printRows_eq (count : Nat) {z y : Nat} (c : Vga)
    (hz : ∀ i < count, (y + i + c.bottom) % g.rows = z + i) :
    printRows g count z y c = some (c.draw ((List.range' y count).flatMap fun y =>
      rowPrints c.scrbuf ((y + c.bottom) % g.rows) y (List.range g.cols))) := by
  induction count generalizing z y c with
  | zero => exact congrArg some (draw_nil c).symm
  | succ count ih =>
    have h0 := hz 0 (Nat.succ_pos count)
    have hlt : z < maxH := by
      rw [← Nat.add_zero z, ← h0]
      exact g.mod_lt_maxH _
    have hcols : 0 + g.cols ≤ maxW := by
      rw [Nat.zero_add]
      exact g.cols_le
    have hz' : ∀ i < count, (y + 1 + i + c.bottom) % g.rows = z + 1 + i := by
      intro i hi
      rw [Nat.add_assoc y, Nat.add_assoc z, Nat.add_comm 1 i]
      exact hz (i + 1) (Nat.succ_lt_succ hi)
    rw [printRows, printCells_eq hlt y g.cols hcols]
    show printRows g count (z + 1) (y + 1) _ = _
    rw [ih (c.draw _) hz', draw_draw, List.range'_succ, List.flatMap_cons, ← List.range_eq_range']
    rw [Nat.add_zero, Nat.add_zero] at h0
    rw [h0]
    rfl

/-- The whole screen is drawn, row by row. -/
theorem printscreen_rows (hc : c.bottom < g.rows) :
    psxvgaPrintscreen g c = some (c.draw (.cls :: (List.range g.rows).flatMap fun y =>
      rowPrints c.scrbuf ((y + c.bottom) % g.rows) y (List.range g.cols))) := by
  have htop : ∀ i < g.rows - c.bottom, (0 + i + c.bottom) % g.rows = c.bottom + i := by
    intro i hi
    rw [Nat.mod_eq_of_lt (by omega)]
    omega
  have hbottom : ∀ i < c.bottom, (g.rows - c.bottom + i + c.bottom) % g.rows = 0 + i := by
    intro i hi
    rw [show g.rows - c.bottom + i + c.bottom = i + g.rows by omega, Nat.add_mod_right,
      Nat.mod_eq_of_lt (by omega), Nat.zero_add]
  have hrange : List.range g.rows =
      List.range' 0 (g.rows - c.bottom) ++ List.range' (g.rows - c.bottom) c.bottom := by
    have happend := List.range'_append_1 (s := 0) (m := g.rows - c.bottom) (n := c.bottom)
    rw [Nat.zero_add, Nat.sub_add_cancel (Nat.le_of_lt hc)] at happend
    rw [happend, List.range_eq_range']
  rw [psxvgaPrintscreen]
  show (printRows g (g.rows - c.bottom) c.bottom 0 (c.draw [.cls])).bind _ = _
  rw [printRows_eq (g.rows - c.bottom) (c.draw [.cls]) htop]
  show printRows g c.bottom 0 (g.rows - c.bottom) _ = _
  rw [printRows_eq c.bottom (z := 0) ((c.draw [.cls]).draw _) hbottom, draw_draw, draw_draw, hrange,
    List.flatMap_append]
  rfl

/-- The cells in which there is something to draw, each of them once. -/
def visibleCells (s : Grid g) : List (Fin g.rows × Fin g.cols) :=
  (List.finRange g.rows ×ˢ List.finRange g.cols).filter fun p => Visible (s p.1 p.2)

theorem nodup_visibleCells (s : Grid g) : (visibleCells s).Nodup :=
  ((List.nodup_finRange _).product (List.nodup_finRange _)).filter _

theorem mem_visibleCells (s : Grid g) (y : Fin g.rows) (x : Fin g.cols) :
    (y, x) ∈ visibleCells s ↔ Visible (s y x) := by
  rw [visibleCells, List.mem_filter, List.mem_product]
  simp

theorem map_visibleCells (g : Geometry) (c : Vga) :
    (visibleCells (c.grid g)).map (fun p => cellPrint p.1 p.2 (c.grid g p.1 p.2)) =
      (List.range g.rows).flatMap fun y =>
        rowPrints c.scrbuf ((y + c.bottom) % g.rows) y (List.range g.cols) := by
  have hrow (y : Fin g.rows) :
      rowPrints c.scrbuf ((y + c.bottom) % g.rows) y (List.range g.cols) =
        ((List.finRange g.cols).filter fun x => Visible (c.grid g y x)).map fun x : Fin g.cols =>
          cellPrint y x (c.grid g y x) := by
    rw [rowPrints, ← List.map_coe_finRange_eq_range, List.filter_map, List.map_map]
    rfl
  have hrows : (List.range g.rows).flatMap (fun y =>
      rowPrints c.scrbuf ((y + c.bottom) % g.rows) y (List.range g.cols)) =
      (List.finRange g.rows).flatMap fun y =>
        ((List.finRange g.cols).filter fun x => Visible (c.grid g y x)).map fun x : Fin g.cols =>
          cellPrint y x (c.grid g y x) := by
    rw [← List.map_coe_finRange_eq_range (n := g.rows), List.flatMap_map]
    simp only [hrow]
  rw [hrows]
  show (((List.finRange g.rows).flatMap fun y => (List.finRange g.cols).map (Prod.mk y)).filter
    _).map _ = _
  rw [List.filter_flatMap, List.map_flatMap]
  refine congrArg (fun f => (List.finRange g.rows).flatMap f) (funext fun y => ?_)
  rw [List.filter_map, List.map_map]
  rfl

/-- **The redrawing** draws the cells of the screen in which there is something, each of them once
and in its place. -/
theorem printscreen_eq (hc : c.bottom < g.rows) :
    psxvgaPrintscreen g c = some (c.draw (.cls :: (visibleCells (c.grid g)).map fun p =>
      cellPrint p.1 p.2 (c.grid g p.1 p.2))) := by
  rw [printscreen_rows hc, map_visibleCells]

/-! ## Runs -/

theorem scroll_eq (hc : c.Ok g) {count : Nat} (hcount : count ≤ g.rows) :
    ∃ c', psxvgaScroll g .up count c = some c' ∧ c'.Ok g ∧
      c'.grid g = (c.grid g).scrollUp count := by
  classical
  have hbottom : (if c.bottom + count ≥ g.rows then c.bottom + count - g.rows
    else c.bottom + count) =
      (c.bottom + count) % g.rows := by
    have hlt := hc.bottom_lt
    by_cases heq : count = g.rows
    · subst heq
      rw [if_pos (by omega), Nat.add_mod_right, Nat.mod_eq_of_lt hlt, Nat.add_sub_cancel]
    · have hslot := Ring.slot_eq_mod (show count < g.rows by omega) hlt
      exact hslot
  let zeroed : Vga :=
    { c with
      scrbuf := fun z x => if InRows g count c.bottom z ∧ x < g.cols then 0 else c.scrbuf z x
      bottom := (c.bottom + count) % g.rows }
  have hlt : zeroed.bottom < g.rows := Nat.mod_lt _ (Nat.zero_lt_of_lt hc.bottom_lt)
  have hscroll : psxvgaScroll g .up count c = psxvgaPrintscreen g zeroed := by
    show (zeroRows g count c.bottom c).bind _ = _
    rw [zeroRows_eq count (Nat.le_of_lt hc.bottom_lt) c]
    show psxvgaPrintscreen g { c with scrbuf := _, bottom := ite _ _ _ } = _
    rw [hbottom]
  rw [hscroll, printscreen_eq hlt]
  refine ⟨_, rfl, ⟨hlt, hc.cury_lt, hc.curx_lt⟩, ?_⟩
  funext y x
  have hover : ∀ i < count, zeroed.scrbuf ((c.bottom + i) % g.rows) x = 0 :=
    fun i hi => if_pos ⟨⟨i, hi, rfl⟩, x.isLt⟩
  have hkeep : ∀ z < g.rows, (∀ i < count, z ≠ (c.bottom + i) % g.rows) →
      zeroed.scrbuf z x = c.scrbuf z x := by
    intro z _ hz
    refine if_neg ?_
    rintro ⟨⟨i, hi, rfl⟩, -⟩
    exact hz i hi rfl
  exact @Ring.view_shift UInt32 g.rows c.bottom count hcount (fun z => c.scrbuf z x)
    (fun z => zeroed.scrbuf z x) 0 hover hkeep y

theorem cursor_eq (hc : c.Ok g) (y : Fin g.rows) (x : Fin g.cols) :
    ∃ c', psxvgaCursor g y x c = some c' ∧ c'.Ok g ∧ c'.grid g = c.grid g := by
  have hget : c.get (Ring.slot g.rows c.bottom c.cury) c.curx =
      some (c.scrbuf ((c.cury + c.bottom) % g.rows) c.curx) := by
    rw [Ring.slot_eq_mod hc.bottom_lt hc.cury_lt]
    exact get_eq c (g.mod_lt_maxH _) (g.lt_maxW hc.curx_lt)
  rw [psxvgaCursor, hget]
  exact ⟨_, rfl, ⟨hc.bottom_lt, y.isLt, x.isLt⟩, rfl⟩

/-- One operation. -/
theorem apply_eq (hc : c.Ok g) (op : ScreenOp g) :
    ∃ c', c.apply g op = some c' ∧ c'.Ok g ∧ c'.grid g = (c.grid g).apply op := by
  cases op with
  | putc val y x =>
    obtain ⟨c', h, hshow⟩ := writew2_eq hc.bottom_lt val y x
    exact ⟨c', h, hshow.ok hc, hshow.grid⟩
  | putcs vals y x =>
    obtain ⟨c', h, hshow⟩ := putcs_eq vals hc.bottom_lt y x
    exact ⟨c', h, hshow.ok hc, hshow.grid⟩
  | cursor y x => exact cursor_eq hc y x
  | scroll count _ hle => exact scroll_eq hc hle

theorem run_eq (ops : List (ScreenOp g)) (hc : c.Ok g) :
    ∃ c', ops.foldlM (Vga.apply g) c = some c' ∧ c'.Ok g ∧
      c'.grid g = ops.foldl Grid.apply (c.grid g) := by
  induction ops generalizing c with
  | nil => exact ⟨c, rfl, hc, rfl⟩
  | cons op ops ih =>
    obtain ⟨c₁, h₁, hok, hgrid⟩ := apply_eq hc op
    obtain ⟨c', h', hok', hgrid'⟩ := ih hok
    refine ⟨c', ?_, hok', ?_⟩
    · rw [List.foldlM_cons, h₁]
      exact h'
    · rw [hgrid', hgrid, List.foldl_cons]

/-- **The rotating buffer is a plain screen.**  Whatever is written to the screen and however it is
scrolled, no access leaves the array, `psxvga_bottom` stays a row of the screen, and the buffer
read from that row on is the screen on which all this was done in place.  The redrawing draws
exactly the cells that are neither zero nor a space, each of them once, in its place. -/
theorem ring_refines_screen (g : Geometry) (c : Vga) (hc : c.Ok g) (ops : List (ScreenOp g)) :
    ∃ c', ops.foldlM (Vga.apply g) c = some c' ∧ c'.bottom < g.rows ∧
      (∀ (y : Fin g.rows) (x : Fin g.cols), c'.scrbuf ((y + c'.bottom) % g.rows) x =
        ops.foldl Grid.apply (c.grid g) y x) ∧
      ∃ drawn : List (Fin g.rows × Fin g.cols), drawn.Nodup ∧
        (∀ y x, (y, x) ∈ drawn ↔ ops.foldl Grid.apply (c.grid g) y x ≠ 0 ∧
          ops.foldl Grid.apply (c.grid g) y x ≠ 32) ∧
        psxvgaPrintscreen g c' = some (c'.draw (.cls :: drawn.map fun p =>
          cellPrint p.1 p.2 (ops.foldl Grid.apply (c.grid g) p.1 p.2))) := by
  obtain ⟨c', hrun, hok, hgrid⟩ := run_eq ops hc
  refine ⟨c', hrun, hok.bottom_lt, fun y x => ?_, visibleCells (c'.grid g), nodup_visibleCells _,
    fun y x => ?_, ?_⟩
  · rw [← hgrid]
    rfl
  · rw [mem_visibleCells, hgrid]
    rfl
  · rw [printscreen_eq hok.bottom_lt, hgrid]

/-- A screen of 320 × 240 pixels. -/
def smallGeometry : Geometry where
  cols := 38
  rows := 20
  cols_ge := by decide
  cols_le := by decide
  rows_ge := by decide
  rows_le := by decide

/-- The driver with the same value in all cells. -/
def filledVga (val : UInt32) : Vga where
  scrbuf := fun _ _ => val
  bottom := 0
  cury := 0
  curx := 0
  gpu := []

theorem filledVga_ok (g : Geometry) (val : UInt32) : (filledVga val).Ok g where
  bottom_lt := Nat.lt_of_lt_of_le (Nat.succ_pos 7) g.rows_ge
  cury_lt := Nat.lt_of_lt_of_le (Nat.succ_pos 7) g.rows_ge
  curx_lt := Nat.lt_of_lt_of_le (Nat.succ_pos 19) g.cols_ge

/-- A letter in the second row is in the first after a scroll. -/
def letterScrolled : List (ScreenOp smallGeometry) :=
  [.putc 65 ⟨1, by decide⟩ ⟨4, by decide⟩, .scroll 1 (by decide) (by decide)]

theorem ring_refines_screen_letter :
    (filledVga 0).Ok smallGeometry ∧
      ∃ c', letterScrolled.foldlM (Vga.apply smallGeometry) (filledVga 0) = some c' ∧
        c'.bottom < 20 ∧ c'.scrbuf (c'.bottom % 20) 4 = 65 := by
  obtain ⟨c', hrun, hlt, hcells, -⟩ :=
    ring_refines_screen smallGeometry (filledVga 0) (filledVga_ok _ 0) letterScrolled
  refine ⟨filledVga_ok _ 0, c', hrun, hlt, ?_⟩
  have hcell := hcells ⟨0, by decide⟩ ⟨4, by decide⟩
  rw [Nat.zero_add] at hcell
  exact hcell.trans (by decide)

end Console
end Blackroo
