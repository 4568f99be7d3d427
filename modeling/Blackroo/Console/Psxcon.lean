import Mathlib.Data.List.Range
import Blackroo.Lib.Ring

/-!
# The console on the GPU

`psxcon.c`: a text screen of up to 21 rows of 80 columns.  What stands on the screen is kept in
`psxvga_scrbuf`, which is not moved when the screen scrolls: `psxvga_bottom` is the row of the
buffer that the screen begins with, and every function wraps around the end of the buffer by hand.

The first half of the module is the code.  An access outside of the 21 × 80 array is an outcome of
its own, `none`.  What is drawn is the list of calls of the three routines that draw, `cls`,
`line` and `print2`, in pixels, and `Display` says what these leave in each cell of the screen.

The second half is a plain screen: a grid of cells that is written in place and scrolled by moving
its rows (`Grid`).
-/

namespace Blackroo
namespace Console

/-! ## The code -/

/-- `PSXVGA_MAX_W`. -/
def maxW : Nat := 80

/-- `PSXVGA_MAX_H`. -/
def maxH : Nat := 21

/-- `PSXVGA_FNT_W`. -/
def fntW : Nat := 8

/-- `PSXVGA_FNT_H`. -/
def fntH : Nat := 12

/-- `psxvga_cols` and `psxvga_rows`, as `psxvga_setup_mode` leaves them. -/
structure Geometry where
  cols : Nat
  rows : Nat
  cols_ge : 20 ≤ cols
  cols_le : cols ≤ maxW
  rows_ge : 8 ≤ rows
  rows_le : rows ≤ maxH

/-- The routines that draw.  The arguments of `line` are packed, the vertical one in the upper
half. -/
inductive Gpu where
  | cls
  | line (xy hw : Nat) (col : UInt32)
  | print2 (x y : Nat) (c : UInt8)
  deriving DecidableEq, Repr

/-- The variables of the driver, and what it has drawn. -/
@[ext]
structure Vga where
  scrbuf : Nat → Nat → UInt32
  bottom : Nat
  cury : Nat
  curx : Nat
  gpu : List Gpu

namespace Vga

def get (c : Vga) (y x : Nat) : Option UInt32 :=
  if y < maxH ∧ x < maxW then some (c.scrbuf y x) else none

def store (c : Vga) (y x : Nat) (val : UInt32) : Vga :=
  { c with scrbuf := Function.update c.scrbuf y (Function.update (c.scrbuf y) x val) }

def put (c : Vga) (y x : Nat) (val : UInt32) : Option Vga :=
  if y < maxH ∧ x < maxW then some (c.store y x val) else none

def draw (c : Vga) (ops : List Gpu) : Vga := { c with gpu := c.gpu ++ ops }

end Vga

/-- The background of a cell. -/
def black : UInt32 := 0x000100

/-- The block that is the cursor. -/
def orange : UInt32 := 0x1122FF

/-- `line` on a cell. -/
def cellLine (y x : Nat) (col : UInt32) : Gpu :=
  .line (((y * fntH) <<< 16) + x * fntW) ((fntH <<< 16) + fntW) col

/-- `print2` in a cell. -/
def cellPrint (y x : Nat) (val : UInt32) : Gpu := .print2 (x * fntW) (y * fntH) val.toUInt8

section Driver

variable (g : Geometry)

/-- `psxvga_writew2`. -/
def psxvgaWritew2 (val : UInt32) (y x : Nat) (c : Vga) : Option Vga :=
  if y < g.rows ∧ x < g.cols then
    (c.draw [cellLine y x black, cellPrint y x val]).put (Ring.slot g.rows c.bottom y) x val
  else some c

/-- A row of `psxvga_printscreen`: `count` cells of the row `z` of the buffer, on the row `y` of
the screen. -/
def printCells (z y : Nat) : (count x : Nat) → Vga → Option Vga
  | 0, _, c => some c
  | count + 1, x, c => do
      let val ← c.get z x
      printCells z y count (x + 1) (if val ≠ 0 ∧ val ≠ 32 then c.draw [cellPrint y x val] else c)

/-- A loop of `psxvga_printscreen`. -/
def printRows : (count z y : Nat) → Vga → Option Vga
  | 0, _, _, c => some c
  | count + 1, z, y, c => do printRows count (z + 1) (y + 1) (← printCells z y g.cols 0 c)

/-- `psxvga_printscreen`. -/
def psxvgaPrintscreen (c : Vga) : Option Vga := do
  let top := c.bottom
  let c ← printRows g (g.rows - top) top 0 (c.draw [.cls])
  printRows g top 0 (g.rows - top) c

/-- `psxvga_memsetw`, on arguments of 16 bits. -/
def psxvgaMemsetw (sx sy : UInt16) (val : UInt16) : (count : Nat) → Vga → Option Vga
  | 0, c => some c
  | count + 1, c => do
      psxvgaMemsetw sx sy val count (← psxvgaWritew2 g val.toUInt32 sy.toNat sx.toNat c)

/-- The loop of `psxvga_clear`, from the row `y` on. -/
def clearRows (sy sx width : Nat) : (count y : Nat) → Vga → Option Vga
  | 0, _, c => some c
  | count + 1, y, c => do
      let c ← psxvgaMemsetw g (UInt16.ofNat sx) (UInt16.ofNat ((sy + y) * g.cols)) 32 width c
      clearRows sy sx width count (y + 1) c

/-- `psxvga_clear`. -/
def psxvgaClear (sy sx height width : Nat) (c : Vga) : Option Vga :=
  if sy > g.rows then some c else clearRows g sy sx width height 0 c

/-- `psxvga_putc`. -/
def psxvgaPutc (val : UInt32) (ypos xpos : Nat) (c : Vga) : Option Vga :=
  psxvgaWritew2 g val ypos xpos c

/-- `psxvga_putcs`. -/
def psxvgaPutcs : List UInt16 → (ypos xpos : Nat) → Vga → Option Vga
  | [], _, _, c => some c
  | val :: s, ypos, xpos, c => do
      psxvgaPutcs s ypos (xpos + 1) (← psxvgaWritew2 g val.toUInt32 ypos xpos c)

/-- `psxvga_cursor`: the cell it leaves is drawn again, and it is drawn at its new place. -/
def psxvgaCursor (y x : Nat) (c : Vga) : Option Vga := do
  let val ← c.get (Ring.slot g.rows c.bottom c.cury) c.curx
  let c := c.draw [cellLine c.cury c.curx black, cellPrint c.cury c.curx val, cellLine y x orange]
  return { c with cury := y, curx := x }

/-- Cells of a row of the buffer are set to zero. -/
def zeroCells (y : Nat) : (count x : Nat) → Vga → Option Vga
  | 0, _, c => some c
  | count + 1, x, c => do zeroCells y count (x + 1) (← c.put y x 0)

/-- The loop of `psxvga_scroll`. -/
def zeroRows : (count y : Nat) → Vga → Option Vga
  | 0, _, c => some c
  | count + 1, y, c => do
      let y := if y ≥ g.rows then 0 else y
      zeroRows count (y + 1) (← zeroCells y g.cols 0 c)

/-- `SM_UP` and `SM_DOWN`. -/
inductive Dir where
  | up
  | down
  deriving DecidableEq, Repr

/-- `psxvga_scroll`.  It does not look at the rows it is asked to scroll. -/
def psxvgaScroll (dir : Dir) (count : Nat) (c : Vga) : Option Vga := do
  match dir with
  | .up =>
    let c ← zeroRows g count c.bottom c
    let bottom := c.bottom + count
    psxvgaPrintscreen g { c with bottom := if bottom ≥ g.rows then bottom - g.rows else bottom }
  | .down => psxvgaPrintscreen g c

end Driver

/-! ## The display -/

/-- What can be in a cell: a block in one colour, or a character over what was there. -/
inductive Mark where
  | block (col : UInt32)
  | glyph (c : UInt8)
  deriving DecidableEq, Repr

/-- What has been drawn in each cell since it was last covered. -/
abbrev Display : Type := Nat → Nat → List Mark

/-- The rectangle of `line` covers the cell. -/
def Covers (xy hw y x : Nat) : Prop :=
  xy % 2 ^ 16 ≤ x * fntW ∧ (x + 1) * fntW ≤ xy % 2 ^ 16 + hw % 2 ^ 16 ∧
    xy / 2 ^ 16 ≤ y * fntH ∧ (y + 1) * fntH ≤ xy / 2 ^ 16 + hw / 2 ^ 16

instance (xy hw y x : Nat) : Decidable (Covers xy hw y x) :=
  inferInstanceAs (Decidable (_ ∧ _ ∧ _ ∧ _))

/-- What a call leaves in the cells. -/
def Gpu.paint (d : Display) : Gpu → Display
  | .cls, _, _ => []
  | .line xy hw col, y, x => if Covers xy hw y x then [.block col] else d y x
  | .print2 px py c, y, x => if px = x * fntW ∧ py = y * fntH then d y x ++ [.glyph c] else d y x

/-- The display after these calls. -/
def display (ops : List Gpu) : Display := ops.foldl Gpu.paint fun _ _ => []

/-- Nothing can be seen in the cell. -/
def LooksBlank (marks : List Mark) : Prop := ∀ m ∈ marks, m = .block black ∨ m = .glyph 32

instance (marks : List Mark) : Decidable (LooksBlank marks) :=
  inferInstanceAs (Decidable (∀ m ∈ marks, _))

/-! ## A plain screen -/

/-- The cells of a screen. -/
abbrev Grid (g : Geometry) : Type := Fin g.rows → Fin g.cols → UInt32

namespace Grid

variable {g : Geometry}

/-- A character in its place. -/
def write (s : Grid g) (val : UInt32) (y : Fin g.rows) (x : Fin g.cols) : Grid g :=
  Function.update s y (Function.update (s y) x val)

/-- Characters from a place on, as far as the row goes. -/
def writeRow (s : Grid g) (vals : List UInt16) (y : Fin g.rows) (x : Nat) : Grid g :=
  Function.update s y fun x' =>
    if x ≤ x' then (vals[x' - x]?.map UInt16.toUInt32).getD (s y x') else s y x'

/-- All rows move up by `count`; the ones at the bottom are blank. -/
def scrollUp (s : Grid g) (count : Nat) : Grid g := fun y x =>
  if h : y + count < g.rows then s ⟨y + count, h⟩ x else 0

end Grid

/-- What is done to a screen, inside of it. -/
inductive ScreenOp (g : Geometry) where
  | putc (val : UInt32) (y : Fin g.rows) (x : Fin g.cols)
  | putcs (vals : List UInt16) (y : Fin g.rows) (x : Fin g.cols)
  | cursor (y : Fin g.rows) (x : Fin g.cols)
  | scroll (count : Nat) (pos : 1 ≤ count) (le : count ≤ g.rows)

/-- On the plain screen. -/
def Grid.apply {g : Geometry} (s : Grid g) : ScreenOp g → Grid g
  | .putc val y x => s.write val y x
  | .putcs vals y x => s.writeRow vals y x
  | .cursor _ _ => s
  | .scroll count _ _ => s.scrollUp count

/-- By the driver. -/
def Vga.apply (g : Geometry) (c : Vga) : ScreenOp g → Option Vga
  | .putc val y x => psxvgaPutc g val y x c
  | .putcs vals y x => psxvgaPutcs g vals y x c
  | .cursor y x => psxvgaCursor g y x c
  | .scroll count _ _ => psxvgaScroll g .up count c

/-- What the buffer shows of row `y` stands in its row `(y + psxvga_bottom) % rows`. -/
def Vga.grid (g : Geometry) (c : Vga) : Grid g := fun y x =>
  Ring.view g.rows c.bottom (fun z => c.scrbuf z x) y

end Console
end Blackroo
