import Mathlib.Algebra.Group.Nat.Defs
import Mathlib.Data.List.DropRight
import Blackroo.Lib.CString

/-!
# The line editor

`edit` of `brsh` keeps a file in a fixed array of 128 lines of 128 characters, `ed_buf`, moves
lines by copying them, and reads commands and text into one more array, `line`.

The first half of the module is the code.  Every access to one of the arrays is checked
(`Editor.get`, `Editor.put`, `Editor.lineAt`, `Editor.putLine`), and one outside of them is an
outcome of its own, `none`.  The editor stops at every `read`, so it is a machine that takes one
`Typed` line after the other; `Mode` says at which of its four calls of `read` it waits.

The second half says what the editor is for, in terms of a list of lines (`Doc`).

A `Doc` has no array and no copies.  Its commands are those of a list: a line is deleted, inserted
or replaced, and what does not fit is cut when it is typed or loaded (`cut`, `linesOf`).
`Editor.Holds` is what it means for the buffer to hold a list of lines, and `Brsh.EditorLines`
proves that every turn of the editor keeps the two together.
-/

namespace Blackroo
namespace Brsh
namespace Ed

open CString

/-! ## The arrays -/

/-- `ED_LINES`. -/
def edLines : Nat := 128

/-- `ED_COLS`. -/
def edCols : Nat := 128

/-- The size of `line`. -/
def lineSize : Nat := edCols + 32

/-- The `read` at which the editor waits: for a command, for a line to append, for the text of a
line inserted or replaced; or it has ended. -/
inductive Mode where
  | command
  | append
  | insertText (k : Nat)
  | replaceText (k : Nat)
  | ended
  deriving DecidableEq, Repr

structure Editor where
  edBuf : Nat → Chars
  edN : Nat
  line : Chars
  dirty : Bool
  mode : Mode

namespace Editor

def get (e : Editor) (r c : Nat) : Option UInt8 :=
  if r < edLines ∧ c < edCols then some (e.edBuf r c) else none

def put (e : Editor) (r c : Nat) (x : UInt8) : Option Editor :=
  if r < edLines ∧ c < edCols then
    some { e with edBuf := Function.update e.edBuf r (Function.update (e.edBuf r) c x) }
  else none

def lineAt (e : Editor) (i : Nat) : Option UInt8 := if i < lineSize then some (e.line i) else none

def putLine (e : Editor) (i : Nat) (x : UInt8) : Option Editor :=
  if i < lineSize then some { e with line := Function.update e.line i x } else none

end Editor

/-! ## Copying and measuring -/

/-- The loop of `scopy` into the line `d` of the buffer, with room for `left` more characters. -/
def scopyLoop (d : Nat) (s : Editor → Nat → Option UInt8) : (left i : Nat) → Editor → Option Editor
  | 0, i, e => do
      let _ ← s e i
      e.put d i 0
  | left + 1, i, e => do
      let c ← s e i
      if c ≠ 0 then scopyLoop d s left (i + 1) (← e.put d i c) else e.put d i 0

/-- `scopy (ed_buf[d], s, ED_COLS)`. -/
def scopy (d : Nat) (s : Editor → Nat → Option UInt8) (e : Editor) : Option Editor :=
  scopyLoop d s (edCols - 1) 0 e

/-- `slen (ed_buf[r])`.  A line without a zero is read beyond its end. -/
def slenLoop (e : Editor) (r : Nat) : (left i : Nat) → Option Nat
  | 0, _ => none
  | left + 1, i => do
      let c ← e.get r i
      if c = 0 then some i else slenLoop e r left (i + 1)

def slen (e : Editor) (r : Nat) : Option Nat := slenLoop e r (edCols + 1) 0

/-- The loops of `ed_save` and `ed_list`: every line is measured and written. -/
def writeLines (e : Editor) : (count r : Nat) → Option Unit
  | 0, _ => some ()
  | count + 1, r => do
      let _ ← slen e r
      writeLines e count (r + 1)

/-! ## Loading -/

/-- The end of a line of the file. -/
def endLine (e : Editor) (col : Nat) : Option Editor := do
  let e ← e.put e.edN col 0
  return { e with edN := e.edN + 1 }

/-- The loop of `ed_load`, over what is left of the file. -/
def edLoadLoop : List UInt8 → (col : Nat) → Editor → Option Editor
  | [], col, e => if col > 0 then endLine e col else some e
  | c :: file, col, e =>
    if c = 13 then edLoadLoop file col e
    else if c = 10 ∨ col ≥ edCols - 1 then do
      let e ← endLine e col
      if e.edN ≥ edLines then some e
      else
        let e ← e.put e.edN 0 0
        if c ≠ 10 then edLoadLoop file 1 (← e.put e.edN 0 c) else edLoadLoop file 0 e
    else do edLoadLoop file (col + 1) (← e.put e.edN col c)

/-- `ed_load`, with nothing for a file that cannot be opened. -/
def edLoad (file : Option (List UInt8)) (e : Editor) : Option Editor := do
  let e ← { e with edN := 0 }.put 0 0 0
  match file with
  | none => some e
  | some file => edLoadLoop file 0 e

/-! ## Reading a line -/

/-- What one `read` returns, nothing at the end of the input, and whether a write of the file
would succeed then. -/
structure Typed where
  bytes : List UInt8
  length_le : bytes.length ≤ lineSize - 1
  ne_zero : ∀ c ∈ bytes, c ≠ 0
  saves : Bool

/-- The characters of a `read` in `line`. -/
def Editor.receive (e : Editor) (bytes : List UInt8) : Editor :=
  { e with line := fun i => bytes.getD i (e.line i) }

/-- The loop that takes line ends off the first `n` characters. -/
def stripLoop (e : Editor) : (n : Nat) → Option Nat
  | 0 => some 0
  | n + 1 => do
      let c ← e.lineAt n
      if c = 10 ∨ c = 13 then stripLoop e n else some (n + 1)

/-- A `read`, without the line ends and with a zero behind; the length is returned as well. -/
def readLine (e : Editor) (bytes : List UInt8) : Option (Nat × Editor) := do
  let e := e.receive bytes
  let n ← stripLoop e bytes.length
  return (n, ← e.putLine n 0)

/-- `streq (line + i, s)`. -/
def streqFrom (e : Editor) : List UInt8 → (i : Nat) → Option Bool
  | [], i => do return (← e.lineAt i) == 0
  | b :: s, i => do
      let c ← e.lineAt i
      if c ≠ 0 ∧ c = b then streqFrom e s (i + 1) else return c == b

def streq (e : Editor) (s : List UInt8) : Option Bool := streqFrom e s 0

def isDigit (c : UInt8) : Prop := 48 ≤ c ∧ c ≤ 57

instance (c : UInt8) : Decidable (isDigit c) := inferInstanceAs (Decidable (_ ∧ _))

/-- The loop of `ed_num`, on a `long` of 32 bits. -/
def edNumLoop (e : Editor) : (left i : Nat) → Int → Option Int
  | 0, _, _ => none
  | left + 1, i, v => do
      let c ← e.lineAt i
      if isDigit c then edNumLoop e left (i + 1) (Int.bmod (v * 10 + (c.toNat - 48)) (2 ^ 32))
      else some v

/-- `ed_num (line + i)`. -/
def edNum (e : Editor) (i : Nat) : Option Int := edNumLoop e (lineSize + 1) i 0

/-! ## The commands -/

/-- The loop of `d`: `count` lines move up, from the line `j` on. -/
def shiftUp : (count j : Nat) → Editor → Option Editor
  | 0, _, e => some e
  | count + 1, j, e => do
      let e ← scopy j (fun e => e.get (j + 1)) e
      shiftUp count (j + 1) e

/-- The loop of `i`: `count` lines move down, the line before `j` first. -/
def shiftDown : (count j : Nat) → Editor → Option Editor
  | 0, _, e => some e
  | count + 1, j, e => do
      let e ← scopy j (fun e => e.get (j - 1)) e
      shiftDown count (j - 1) e

def deleteLine (e : Editor) : Option Editor := do
  let k := (← edNum e 2) - 1
  if k < 0 ∨ k ≥ e.edN then return e
  else
    let e ← shiftUp (e.edN - 1 - k.toNat) k.toNat e
    return { e with edN := e.edN - 1, dirty := true }

/-- The command `i` up to its `read`. -/
def insertLine (e : Editor) : Option Editor := do
  let k := (← edNum e 2) - 1
  if k < 0 ∨ k > e.edN ∨ e.edN ≥ edLines then return e
  else
    let e ← shiftDown (e.edN - k.toNat) e.edN e
    let e ← e.put k.toNat 0 0
    return { e with edN := e.edN + 1, mode := .insertText k.toNat }

/-- The command that is a number, up to its `read`. -/
def replaceLine (e : Editor) : Option Editor := do
  let k := (← edNum e 0) - 1
  if k < 0 ∨ k ≥ e.edN then return e
  else return { e with mode := .replaceText k.toNat }

/-- The commands of a single word. -/
def wordCommand (e : Editor) (saves : Bool) : Option (Option Editor) := do
  if ← streq e [113] then
    return some (if e.dirty then e else { e with mode := .ended })
  else if ← streq e [113, 33] then return some { e with mode := .ended }
  else if ← streq e [112] then
    writeLines e e.edN 0
    return some e
  else if ← streq e [119] then
    writeLines e e.edN 0
    return some { e with dirty := e.dirty && !saves }
  else if ← streq e [97] then return some { e with mode := .append }
  else return none

/-- The commands with a line number, and the rest. -/
def numberCommand (e : Editor) : Option Editor := do
  let c ← e.lineAt 0
  let b ← e.lineAt 1
  if c = 100 ∧ b = 32 then deleteLine e
  else if c = 105 ∧ b = 32 then insertLine e
  else if 49 ≤ c ∧ c ≤ 57 then replaceLine e
  else return e

/-- The turn of the main loop with a command of `n` characters in `line`. -/
def runCommand (n : Nat) (saves : Bool) (e : Editor) : Option Editor := do
  if n = 0 then return e
  else
    match ← wordCommand e saves with
    | some e => return e
    | none => numberCommand e

/-- The turn of the loop of `a` with a line in `line`. -/
def appendLine (e : Editor) : Option Editor := do
  if ← streq e [46] then return { e with mode := .command }
  else if e.edN ≥ edLines then return { e with mode := .command }
  else
    let e ← scopy e.edN (fun e => e.lineAt) e
    return { e with edN := e.edN + 1, dirty := true }

/-- The end of `i` and of a replacement, with the text in `line`. -/
def enterText (k : Nat) (e : Editor) : Option Editor := do
  let e ← scopy k (fun e => e.lineAt) e
  return { e with mode := .command, dirty := true }

def commandTurn (e : Editor) (t : Typed) : Option Editor := do
  if t.bytes = [] then return { e with mode := .ended }
  else
    let (n, e) ← readLine e t.bytes
    runCommand n t.saves e

def appendTurn (e : Editor) (t : Typed) : Option Editor := do
  if t.bytes = [] then return { e with mode := .command }
  else
    let (_, e) ← readLine e t.bytes
    appendLine e

def insertTurn (e : Editor) (k : Nat) (t : Typed) : Option Editor := do
  if t.bytes = [] then return { e with mode := .command, dirty := true }
  else
    let (_, e) ← readLine e t.bytes
    enterText k e

def replaceTurn (e : Editor) (k : Nat) (t : Typed) : Option Editor := do
  if t.bytes = [] then return { e with mode := .command }
  else
    let (_, e) ← readLine e t.bytes
    enterText k e

/-- From one `read` to the next. -/
def Editor.turn (e : Editor) (t : Typed) : Option Editor :=
  match e.mode with
  | .command => commandTurn e t
  | .append => appendTurn e t
  | .insertText k => insertTurn e k t
  | .replaceText k => replaceTurn e k t
  | .ended => some e

/-- `cmd_edit` on a file and what is typed; the arrays have been used before. -/
def cmdEdit (e : Editor) (file : Option (List UInt8)) (typed : List Typed) : Option Editor := do
  let e ← edLoad file e
  typed.foldlM Editor.turn { e with dirty := false, mode := .command }

/-! ## A list of lines -/

abbrev Line : Type := List UInt8

/-- What is left of a line that is too long. -/
def cut (s : Line) : Line := s.take (edCols - 1)

/-- The characters up to the first zero. -/
def upToZero (s : List UInt8) : Line := s.takeWhile (· ≠ 0)

/-- A line without its line ends. -/
def strip (s : List UInt8) : Line := s.rdropWhile fun c => c = 10 ∨ c = 13

/-- The value of the leading digits. -/
def leadingNumber : List UInt8 → (v : Nat) → Nat
  | [], v => v
  | c :: s, v => if isDigit c then leadingNumber s (v * 10 + (c.toNat - 48)) else v

def number (s : List UInt8) : Nat := leadingNumber s 0

/-- The lines of a file: broken at line ends and after 127 characters, without carriage returns,
up to the 128th. -/
def linesOf : List UInt8 → (current : List UInt8) → (done : List Line) → List Line
  | [], current, done => if current ≠ [] then done ++ [upToZero current] else done
  | c :: file, current, done =>
    if c = 13 then linesOf file current done
    else if c = 10 ∨ current.length ≥ edCols - 1 then
      if (done ++ [upToZero current]).length ≥ edLines then done ++ [upToZero current]
      else linesOf file (if c ≠ 10 then [c] else []) (done ++ [upToZero current])
    else linesOf file (current ++ [c]) done

/-- A document: its lines, what is waited for, and whether there are unwritten changes. -/
structure Doc where
  lines : List Line
  mode : Mode
  dirty : Bool

namespace Doc

def opened (file : Option (List UInt8)) : Doc where
  lines := (file.map fun file => linesOf file [] []).getD []
  mode := .command
  dirty := false

/-- The lines as they stand: a line that is being inserted is empty until its text is there. -/
def view (d : Doc) : List Line :=
  match d.mode with
  | .insertText k => d.lines.insertIdx k []
  | _ => d.lines

/-- `d n`. -/
def delete (d : Doc) (n : Nat) : Doc :=
  if 1 ≤ n ∧ n ≤ d.lines.length then
    { d with lines := d.lines.eraseIdx (n - 1), dirty := true }
  else d

/-- `i n`. -/
def insert (d : Doc) (n : Nat) : Doc :=
  if (1 ≤ n ∧ n ≤ d.lines.length + 1) ∧ d.lines.length < edLines then
    { d with mode := .insertText (n - 1) }
  else d

/-- `n`. -/
def replace (d : Doc) (n : Nat) : Doc :=
  if 1 ≤ n ∧ n ≤ d.lines.length then { d with mode := .replaceText (n - 1) } else d

/-- The command `s`. -/
def obey (d : Doc) (s : Line) (saves : Bool) : Doc :=
  if s = [] then d
  else if s = [113] then (if d.dirty then d else { d with mode := .ended })
  else if s = [113, 33] then { d with mode := .ended }
  else if s = [112] then d
  else if s = [119] then { d with dirty := d.dirty && !saves }
  else if s = [97] then { d with mode := .append }
  else if s.getD 0 0 = 100 ∧ s.getD 1 0 = 32 then d.delete (number (s.drop 2))
  else if s.getD 0 0 = 105 ∧ s.getD 1 0 = 32 then d.insert (number (s.drop 2))
  else if 49 ≤ s.getD 0 0 ∧ s.getD 0 0 ≤ 57 then d.replace (number s)
  else d

/-- What becomes of a document with a line that is typed, or with the end of the input. -/
def type (d : Doc) (t : Typed) : Doc :=
  match d.mode with
  | .command => if t.bytes = [] then { d with mode := .ended } else d.obey (strip t.bytes) t.saves
  | .append =>
    if t.bytes = [] ∨ strip t.bytes = [46] ∨ d.lines.length ≥ edLines then
      { d with mode := .command }
    else { d with lines := d.lines ++ [cut (strip t.bytes)], dirty := true }
  | .insertText k =>
    { lines := d.lines.insertIdx k (cut (strip t.bytes)), mode := .command, dirty := true }
  | .replaceText k =>
    if t.bytes = [] then { d with mode := .command }
    else { lines := d.lines.set k (cut (strip t.bytes)), mode := .command, dirty := true }
  | .ended => d

/-- The line number in a command, 0 if it has none. -/
def typedNumber (s : Line) : Nat :=
  if (s.getD 0 0 = 100 ∨ s.getD 0 0 = 105) ∧ s.getD 1 0 = 32 then number (s.drop 2)
  else if 49 ≤ s.getD 0 0 ∧ s.getD 0 0 ≤ 57 then number s
  else 0

/-- The line numbers in the commands typed are below 2 ^ 31. -/
def SmallNumbers (d : Doc) : List Typed → Prop
  | [] => True
  | t :: typed =>
    (d.mode = .command → typedNumber (strip t.bytes) < 2 ^ 31) ∧ (d.type t).SmallNumbers typed

end Doc

/-- The buffer holds these lines: there are no more than fit, and each of them ends in time. -/
structure Editor.Holds (e : Editor) (lines : List Line) : Prop where
  edN : e.edN = lines.length
  length_le : lines.length ≤ edLines
  row : ∀ r s, lines[r]? = some s → text (e.edBuf r) edCols 0 = s ∧ s.length < edCols

/-- The editor represents the document. -/
structure Editor.Represents (e : Editor) (d : Doc) : Prop where
  holds : e.Holds d.view
  mode : e.mode = d.mode
  dirty : e.dirty = d.dirty

end Ed
end Brsh
end Blackroo
