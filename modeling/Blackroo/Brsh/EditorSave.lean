import Blackroo.Brsh.EditorLines
import Blackroo.Brsh.Files

/-!
# Loading a file and writing it back

`ed_load` reads a file byte by byte into the lines of the editor, and `ed_save` writes the lines
out, one `write` for the characters and one for the line end.  Both go on where something is lost:

* the load takes a file that cannot be opened for a new one, and an error of `read` for the end of
  the file; it breaks a line that is too long, drops the lines that have no room, and a line ends
  at a zero;
* the save looks at a `write` only to see whether it failed, not how much was written.

## The condition

What the kernel answers is an input of the run (`answering`): how many bytes it hands out before it
fails or is at the end of the file, and how much each `write` takes.  `edit_keeps_text_iff` says for
every text and all answers whether the text gets through: the text that is written is made of the
lines of what was handed out, each cut to what its `write` took (`stored`), and an error is reported
only if the file cannot be opened for writing or a `write` fails.

If the kernel keeps nothing back, what is left are the limits of the buffer, and the texts that get
through are those of `FitsBuffer` (`sameText_stored_iff`).
-/

namespace Blackroo
namespace Brsh
namespace Ed

open CString Interaction
open CommandLine (ascii)
open Shell (Text Call Answer Program Files callPath read write close out fail outdec resolve
  yields_callPath yields_read yields_write yields_close yields_out)
open Shell.Files (Reply)

/-! ## The code -/

/-- What a character does to the load: there is more room, or not. -/
inductive Loaded where
  | more (col : Nat) (e : Editor)
  | full (e : Editor)

/-- The body of the loop of `ed_load`. -/
def loadChar (c : UInt8) (col : Nat) (e : Editor) : Option Loaded :=
  if c = 13 then some (.more col e)
  else if c = 10 ∨ col ≥ edCols - 1 then do
    let e ← endLine e col
    if e.edN ≥ edLines then some (.full e)
    else
      let e ← e.put e.edN 0 0
      if c ≠ 10 then
        let e ← e.put e.edN 0 c
        some (.more 1 e)
      else some (.more 0 e)
  else do
    let e ← e.put e.edN col c
    some (.more (col + 1) e)

/-- The loop of `ed_load` with its calls of `read`, for a number of turns. -/
def loadLoop (fd : Int) : (turns col : Nat) → Editor → Program (Option Editor)
  | 0, _, _ => pure none
  | turns + 1, col, e => do
      let (n, c) ← read fd 1
      if n = 1 then
        match loadChar (c.getD 0 0) col e with
        | none => pure none
        | some (.full e) => pure (some e)
        | some (.more col e) => loadLoop fd turns col e
      else pure (if col > 0 then endLine e col else some e)

/-- `ed_load`.  Nothing is returned if it takes more turns or leaves its arrays. -/
def loadFile (turns : Nat) (path : Text) (e : Editor) : Program (Option Editor) :=
  match { e with edN := 0 }.put 0 0 0 with
  | none => pure none
  | some e => do
      let fd ← callPath (.openFile Shell.oRdonly 0) path
      if fd < 0 then pure (some e)
      else
        match ← loadLoop fd turns 0 e with
        | none => pure none
        | some e =>
          let _ ← close fd
          pure (some e)

/-- The first characters of a line of the buffer. -/
def rowBytes (e : Editor) (r len : Nat) : List UInt8 := (List.range len).map (e.edBuf r)

/-- The `write` of the characters of a line, if it has any. -/
def saveRow (fd : Int) (e : Editor) (r len : Nat) : Program Int :=
  if len ≠ 0 then write fd (rowBytes e r len) else pure 0

/-- The loop of `ed_save`. -/
def saveLoop (fd : Int) (e : Editor) : (count r : Nat) → Program (Option Int)
  | 0, _ => do
      let _ ← close fd
      pure (some 0)
  | count + 1, r =>
    match slen e r with
    | none => pure none
    | some len => do
        let w ← saveRow fd e r len
        if w < 0 then
          let _ ← close fd
          pure (some w)
        else
          let w ← write fd [10]
          if w < 0 then
            let _ ← close fd
            pure (some w)
          else saveLoop fd e count (r + 1)

/-- `ed_save`. -/
def edSave (path : Text) (e : Editor) : Program (Option Int) := do
  let fd ← callPath (.openFile (Shell.oWronly ||| Shell.oCreat ||| Shell.oTrunc) 0o644) path
  if fd < 0 then pure (some fd) else saveLoop fd e e.edN 0

/-- `cmd_edit` with the line `w` typed, up to the next prompt. -/
def editThenWrite (turns : Nat) (cwd name : Text) (e : Editor) : Program (Option Unit) := do
  let pathbuf := resolve cwd name
  match ← loadFile turns pathbuf e with
  | none => pure none
  | some e =>
    out (ascii "edit " ++ name ++ ascii "  -  " ++ outdec e.edN ++ ascii (" lines\n" ++
      "  p        print       a        append at the end\n" ++
      "  <n>      replace n   d <n>    delete line n\n" ++
      "  i <n>    insert before n      w  write     q  quit\n"))
    out (ascii "edit> ")
    match ← edSave pathbuf e with
    | none => pure none
    | some r =>
      if r < 0 then fail "write" name r
      else out (ascii "  wrote " ++ outdec e.edN ++ ascii " lines\n")
      pure (some ())

/-! ## Texts -/

/-- A text without carriage returns. -/
def withoutCr (s : List UInt8) : List UInt8 := s.filter (· ≠ 13)

/-- The file of these lines. -/
def saved (lines : List Line) : List UInt8 := lines.flatMap (· ++ [10])

/-- The text is the same, but for carriage returns and a line end at the end. -/
def SameText (before after : List UInt8) : Prop :=
  after = withoutCr before ∨ after = withoutCr before ++ [10]

/-- A line of the buffer: at most 127 characters, none of them a zero or a line end. -/
structure Fitting (s : Line) : Prop where
  length_lt : s.length < edCols
  zero : 0 ∉ s
  lineEnd : 10 ∉ s

/-- The text has at most 128 lines, which fit; the last one may be without its line end. -/
def FitsBuffer (text : List UInt8) : Prop :=
  ∃ lines : List Line, lines.length ≤ edLines ∧ (∀ s ∈ lines, Fitting s) ∧
    SameText text (saved lines)

theorem saved_cons (s : Line) (lines : List Line) :
    saved (s :: lines) = s ++ 10 :: saved lines := by
  simp [saved]

theorem saved_concat (lines : List Line) (s : Line) :
    saved (lines ++ [s]) = saved lines ++ s ++ [10] := by
  simp [saved]

theorem subset_saved {lines : List Line} {s : Line} (h : s ∈ lines) : s ⊆ saved lines := by
  intro c hc
  exact List.mem_flatMap.mpr ⟨s, h, List.mem_append_left _ hc⟩

theorem SameText.cr_notMem {before after : List UInt8} (h : SameText before after) :
    13 ∉ after := by
  rcases h with rfl | rfl <;> simp [withoutCr]

/-- A carriage return is skipped wherever it is. -/
theorem linesOf_withoutCr (file current : List UInt8) (done : List Line) :
    linesOf (withoutCr file) current done = linesOf file current done := by
  induction file generalizing current done with
  | nil => rfl
  | cons c file ih =>
    by_cases hc : c = 13
    · rw [withoutCr, List.filter_cons_of_neg (by simpa using hc), linesOf, if_pos hc]
      exact ih current done
    · rw [withoutCr, List.filter_cons_of_pos (by simpa using hc), linesOf, linesOf, if_neg hc,
        if_neg hc]
      simp only [show ∀ l : List UInt8, l.filter (· ≠ 13) = withoutCr l from fun _ => rfl, ih]

/-- The characters of a line that has room for them. -/
theorem linesOf_append {s : List UInt8} (h : 10 ∉ s) (hcr : 13 ∉ s) (rest current : List UInt8)
    (done : List Line) (hlen : current.length + s.length < edCols) :
    linesOf (s ++ rest) current done = linesOf rest (current ++ s) done := by
  induction s generalizing current with
  | nil => rw [List.nil_append, List.append_nil]
  | cons c s ih =>
    rw [List.mem_cons, not_or] at h hcr
    rw [List.length_cons] at hlen
    rw [List.cons_append, linesOf, if_neg (Ne.symm hcr.1), if_neg, ih h.2 hcr.2]
    · rw [List.append_assoc]
      rfl
    · rw [List.length_append, List.length_singleton]
      omega
    · rintro (h10 | hfull)
      · exact h.1 h10.symm
      · omega

theorem upToZero_eq_self {s : Line} (h : 0 ∉ s) : upToZero s = s := by
  rw [upToZero, List.takeWhile_eq_self_iff]
  intro c hc
  simpa using fun h0 : c = 0 => h (h0 ▸ hc)

/-- **Lines that fit are read as they were written**, whatever lines were read before; behind the
last one there may be the beginning of another. -/
theorem linesOf_saved {lines : List Line} {rest : Line} (done : List Line)
    (h : ∀ s ∈ lines, Fitting s ∧ 13 ∉ s) (hrest : Fitting rest ∧ 13 ∉ rest)
    (hlen : done.length + lines.length + (if rest = [] then 0 else 1) ≤ edLines) :
    linesOf (saved lines ++ rest) [] done = done ++ lines ++ if rest = [] then [] else [rest] := by
  induction lines generalizing done with
  | nil =>
    rw [saved, List.flatMap_nil, List.nil_append, ← List.append_nil rest,
      linesOf_append hrest.1.lineEnd hrest.2 [] [] done (by simpa using hrest.1.length_lt),
      List.nil_append, List.append_nil, List.append_nil, linesOf, upToZero_eq_self hrest.1.zero]
    by_cases hnil : rest = []
    · simp [hnil]
    · simp [hnil]
  | cons s lines ih =>
    obtain ⟨⟨hs, hcr⟩, hlines⟩ := List.forall_mem_cons.mp h
    rw [List.length_cons] at hlen
    rw [saved_cons, List.append_assoc, List.cons_append,
      linesOf_append hs.lineEnd hcr _ [] done (by simpa using hs.length_lt),
      List.nil_append, linesOf, if_neg (by decide), if_pos (.inl rfl), upToZero_eq_self hs.zero]
    by_cases hfull : (done ++ [s]).length ≥ edLines
    · -- the last line there is room for, so that nothing is left
      rw [if_pos hfull]
      rw [List.length_append, List.length_singleton] at hfull
      have hnil : lines = [] ∧ rest = [] := by
        refine ⟨List.length_eq_zero_iff.mp (by omega), ?_⟩
        by_contra hne
        rw [if_neg hne] at hlen
        omega
      rw [hnil.1, hnil.2, if_pos rfl, List.append_nil]
    · rw [if_neg hfull, if_neg (by decide), ih (done ++ [s]) hlines]
      · simp
      · rw [List.length_append, List.length_singleton]
        omega

theorem fitting_upToZero {s : Line} (hlen : s.length < edCols) (h : 10 ∉ s) :
    Fitting (upToZero s) := by
  refine ⟨Nat.lt_of_le_of_lt (List.takeWhile_prefix _).length_le hlen, fun h0 => ?_, fun h10 => ?_⟩
  · simpa using List.mem_takeWhile_imp h0
  · exact h ((List.takeWhile_prefix _).subset h10)

theorem fitting_endLine {current : List UInt8} {done : List Line}
    (hcurrent : current.length < edCols)
    (h10 : 10 ∉ current) (hlen : done.length < edLines) (hdone : ∀ s ∈ done, Fitting s) :
    (done ++ [upToZero current]).length ≤ edLines ∧
      ∀ s ∈ done ++ [upToZero current], Fitting s := by
  refine ⟨?_, List.forall_mem_append.mpr ⟨hdone, ?_⟩⟩
  · rw [List.length_append]
    exact hlen
  · simpa using fitting_upToZero hcurrent h10

/-- Whatever is read, the lines fit. -/
theorem fitting_linesOf (file : List UInt8) {current : List UInt8} {done : List Line}
    (hcurrent : current.length < edCols) (h10 : 10 ∉ current) (hlen : done.length < edLines)
    (hdone : ∀ s ∈ done, Fitting s) :
    (linesOf file current done).length ≤ edLines ∧ ∀ s ∈ linesOf file current done, Fitting s := by
  induction file generalizing current done with
  | nil =>
    rw [linesOf]
    split
    · exact fitting_endLine hcurrent h10 hlen hdone
    · exact ⟨Nat.le_of_lt hlen, hdone⟩
  | cons c file ih =>
    rw [linesOf]
    split
    · exact ih hcurrent h10 hlen hdone
    split
    · split
      · exact fitting_endLine hcurrent h10 hlen hdone
      · next hroom =>
          have hdone' := (fitting_endLine hcurrent h10 hlen hdone).2
          by_cases hc : c = 10
          · rw [if_neg (not_not.mpr hc)]
            exact ih (by decide) List.not_mem_nil (Nat.lt_of_not_le hroom) hdone'
          · rw [if_pos hc]
            exact ih (show 1 < edCols by decide) (by simpa using Ne.symm hc)
              (Nat.lt_of_not_le hroom) hdone'
    · next hbreak =>
        rw [not_or] at hbreak
        refine ih ?_ ?_ hlen hdone
        · rw [List.length_append, List.length_singleton]
          omega
        · rw [List.mem_append, not_or]
          exact ⟨h10, by simpa using Ne.symm hbreak.1⟩

/-- **The texts that get through the buffer** are those that fit. -/
theorem sameText_saved_iff (s : List UInt8) : SameText s (saved (linesOf s [] [])) ↔
    FitsBuffer s := by
  constructor
  · intro h
    obtain ⟨hlen, hfit⟩ := fitting_linesOf s (show ([] : List UInt8).length < edCols by decide)
      List.not_mem_nil (show ([] : List Line).length < edLines by decide) (List.forall_mem_nil _)
    exact ⟨linesOf s [] [], hlen, hfit, h⟩
  · rintro ⟨lines, hlen, hfit, hsame⟩
    have hlines : ∀ l ∈ lines, Fitting l ∧ 13 ∉ l := fun l hl =>
      ⟨hfit l hl, fun hcr => hsame.cr_notMem (subset_saved hl hcr)⟩
    rw [← linesOf_withoutCr]
    rcases hsame with heq | heq
    · have hnil : Fitting [] ∧ (13 : UInt8) ∉ [] :=
        ⟨⟨by decide, List.not_mem_nil, List.not_mem_nil⟩, List.not_mem_nil⟩
      have hread := linesOf_saved [] hlines hnil (by simpa using hlen)
      rw [← heq, ← List.append_nil (saved lines), hread]
      left
      simpa using heq
    · -- the last line is without its line end
      rcases List.eq_nil_or_concat' lines with rfl | ⟨init, last, rfl⟩
      · exact absurd heq.symm (List.append_ne_nil_of_right_ne_nil _ (by decide))
      rw [saved_concat] at heq
      have heq : saved init ++ last = withoutCr s := List.append_cancel_right heq
      rw [List.length_append, List.length_singleton] at hlen
      obtain ⟨hinit, hlast⟩ := List.forall_mem_append.mp hlines
      have hread := linesOf_saved [] hinit (hlast last (List.mem_singleton_self last)) (by
        rw [List.length_nil, Nat.zero_add]
        split <;> omega)
      rw [← heq, hread]
      by_cases hnil : last = []
      · left
        rw [← heq, hnil]
        simp
      · right
        rw [if_neg hnil, List.nil_append, saved_concat, heq]

/-! ## The kernel -/

section Replies

/-- The byte that a `read` has handed out. -/
def bytes : Reply → Nat
  | ⟨.read _ _, r⟩ => if r.1 = 1 then 1 else 0
  | _ => 0

def bytesRead : List Reply → Nat
  | [] => 0
  | x :: l => bytes x + bytesRead l

/-- What a `write` has returned. -/
def writeResult : Reply → Option Int
  | ⟨.write _ _, w⟩ => some w
  | _ => none

def writeResults (l : List Reply) : List Int := l.filterMap writeResult

/-- A file that cannot be opened for writing, or a `write` that fails. -/
def Refuses : Reply → Prop
  | ⟨.path (.openFile flags _) _, (r : Int)⟩ => flags ≠ Shell.oRdonly ∧ r < 0
  | ⟨.write _ _, (w : Int)⟩ => w < 0
  | _ => False

def Refused (l : List Reply) : Prop := ∃ x ∈ l, Refuses x

instance : DecidablePred Refuses
  | ⟨.path (.openFile flags _) _, (r : Int)⟩ =>
    inferInstanceAs (Decidable (flags ≠ Shell.oRdonly ∧ r < 0))
  | ⟨.write _ _, (w : Int)⟩ => inferInstanceAs (Decidable (w < 0))
  | ⟨.path (.mkdir _) _, _⟩ | ⟨.path .rmdir _, _⟩ | ⟨.path .unlink _, _⟩ | ⟨.path .chdir _, _⟩
  | ⟨.rename _ _, _⟩ | ⟨.lstat _, _⟩ | ⟨.read _ _, _⟩ | ⟨.close _, _⟩ | ⟨.out _, _⟩ =>
    isFalse not_false

instance (l : List Reply) : Decidable (Refused l) := inferInstanceAs (Decidable (∃ x ∈ l, _))

variable (l l' : List Reply)

@[simp] theorem bytesRead_cons (x : Reply) : bytesRead (x :: l) = bytes x + bytesRead l := rfl

@[simp] theorem bytesRead_append : bytesRead (l ++ l') = bytesRead l + bytesRead l' := by
  induction l with
  | nil => exact (Nat.zero_add _).symm
  | cons x l ih => rw [List.cons_append, bytesRead_cons, ih, bytesRead_cons, Nat.add_assoc]

@[simp] theorem writeResults_append :
    writeResults (l ++ l') = writeResults l ++ writeResults l' := List.filterMap_append

@[simp] theorem refused_cons (x : Reply) : Refused (x :: l) ↔ Refuses x ∨ Refused l := by
  simp [Refused]

@[simp] theorem refused_append : Refused (l ++ l') ↔ Refused l ∨ Refused l' := by
  simp [Refused, or_and_right, exists_or]

@[simp] theorem writeResults_cons (x : Reply) :
    writeResults (x :: l) = (writeResult x).toList ++ writeResults l := by
  rw [writeResults, List.filterMap_cons]
  cases writeResult x <;> rfl

/-- Answers that have nothing to do with writing. -/
def WritesNothing (l : List Reply) : Prop := writeResults l = [] ∧ ¬ Refused l

end Replies

/-- What `ed_save` hands to `write`. -/
def pieces (lines : List Line) : List (List UInt8) :=
  lines.flatMap fun s => if s = [] then [[10]] else [s, [10]]

/-- What the calls of `write` have written, if they have taken so many bytes. -/
def stored : List (List UInt8) → List Int → List UInt8
  | piece :: pieces, w :: ws => piece.take w.toNat ++ stored pieces ws
  | _, _ => []

/-- All of it, if they have taken everything. -/
theorem stored_whole (ps : List (List UInt8)) :
    stored ps (ps.map fun piece => (piece.length : Int)) = ps.flatten := by
  induction ps with
  | nil => rfl
  | cons piece ps ih =>
    rw [List.map_cons, stored, ih, Int.toNat_natCast, List.take_length, List.flatten_cons]

theorem flatten_pieces (lines : List Line) : (pieces lines).flatten = saved lines := by
  induction lines with
  | nil => rfl
  | cons s lines ih =>
    rw [saved_cons, ← ih, pieces, List.flatMap_cons, List.flatten_append, ← pieces]
    split
    next hnil => simp [hnil]
    next => simp

/-- **Where the kernel keeps nothing back**, the texts that get through are those that fit. -/
theorem sameText_stored_iff (s : List UInt8) :
    SameText s (stored (pieces (linesOf s [] []))
      ((pieces (linesOf s [] [])).map fun piece => (piece.length : Int))) ↔ FitsBuffer s := by
  rw [stored_whole, flatten_pieces, sameText_saved_iff]

variable {k k' : Files} {fd : Int} {e : Editor} {lines : List Line} {l l' : List Reply}

/-! ## Loading -/

/-- The loop over a text makes the turns of the loop with `read`. -/
theorem edLoadLoop_cons (c : UInt8) (file : List UInt8) (col : Nat) (e : Editor) :
    edLoadLoop (c :: file) col e = (loadChar c col e).bind fun
      | .more col e => edLoadLoop file col e
      | .full e => some e := by
  rw [edLoadLoop, loadChar]
  split
  · rfl
  split
  · cases endLine e col with
    | none => rfl
    | some e =>
      show (if e.edN ≥ edLines then _ else _) = Option.bind (if e.edN ≥ edLines then _ else _) _
      split
      · rfl
      · cases e.put e.edN 0 0 with
        | none => rfl
        | some e =>
          show (if c ≠ 10 then _ else _) = Option.bind (if c ≠ 10 then _ else _) _
          split
          · cases e.put e.edN 0 c <;> rfl
          · rfl
  · cases e.put e.edN col c <;> rfl

/-- A byte is read, or none. -/
theorem read_byte {f n : Nat} (hfd : k.fds fd = some ⟨f, n⟩) {m : Int} {buf : List UInt8}
    (h : k.readStep fd 1 m buf k') :
    k'.content = k.content ∧ k'.fileOf = k.fileOf ∧ (m ≠ 1 ∨
      ∃ c, m = 1 ∧ buf = [c] ∧ (k.content f).drop n = c :: (k.content f).drop (n + 1) ∧
        k'.fds fd = some ⟨f, n + 1⟩) := by
  rcases Files.read_opened hfd h with ⟨hm, rfl⟩ | ⟨rfl, hcount, hbuf, -, rfl⟩
  · exact ⟨rfl, rfl, .inl (by omega)⟩
  refine ⟨rfl, rfl, ?_⟩
  match buf, hcount with
  | [], _ => exact .inl (by decide)
  | [c], _ =>
    obtain ⟨rest, hrest⟩ := hbuf
    refine .inr ⟨c, rfl, rfl, ?_, Function.update_self _ _ _⟩
    rw [← List.drop_drop, ← hrest]
    rfl

/-- **The loop of `ed_load`** goes over what is handed out of the rest of the file, and changes no
file. -/
theorem loadLoop_spec {f n : Nat} (hfd : k.fds fd = some ⟨f, n⟩) {turns : Nat}
    (hturns : (k.content f).length - n < turns) {col : Nat} {r : Option Editor}
    (h : Yields (answering Files.step) (loadLoop fd turns col e) (k, l) r (k', l')) :
    ∃ used, l = used ++ l' ∧ WritesNothing used ∧
      r = edLoadLoop (((k.content f).drop n).take (bytesRead used)) col e ∧
        k'.fileOf = k.fileOf := by
  induction turns generalizing k l n col e with
  | zero => exact absurd hturns (Nat.not_lt_zero _)
  | succ turns ih =>
    rw [loadLoop] at h
    obtain ⟨⟨m, buf⟩, ⟨k₁, l₁⟩, hread, hrest⟩ := Yields.bind_iff.mp h
    dsimp only at hrest
    obtain ⟨hstep, rfl⟩ : k.readStep fd 1 m buf k₁ ∧ l = ⟨.read fd 1, (m, buf)⟩ :: l₁ :=
      yields_read.mp hread
    have hone : WritesNothing [(⟨.read fd 1, (m, buf)⟩ : Reply)] :=
      ⟨rfl, by simp [Refused, Refuses]⟩
    obtain ⟨hcontent, hfile, hm | ⟨c, rfl, rfl, hdrop, hfd₁⟩⟩ := read_byte hfd hstep
    · rw [if_neg hm] at hrest
      obtain ⟨rfl, hl⟩ := Yields.pure_iff.mp hrest
      obtain ⟨rfl, rfl⟩ := Prod.mk.inj hl
      refine ⟨[_], rfl, hone, ?_, hfile⟩
      simp [bytesRead, bytes, hm, edLoadLoop]
    · rw [if_pos rfl] at hrest
      have hlen := congrArg List.length hdrop
      rw [List.length_cons, List.length_drop, List.length_drop] at hlen
      have htake : ∀ used, ((k.content f).drop n).take
        (bytesRead (⟨.read fd 1, (1, [c])⟩ :: used)) =
          c :: ((k.content f).drop (n + 1)).take (bytesRead used) := by
        intro used
        rw [hdrop, bytesRead_cons, show bytes ⟨.read fd 1, (1, [c])⟩ = 1 from rfl, Nat.add_comm,
          List.take_succ_cons]
      change Yields (answering Files.step) (match loadChar c col e with
        | none => pure none
        | some (.full e) => pure (some e)
        | some (.more col e) => loadLoop fd turns col e) (k₁, l₁) r (k', l') at hrest
      rcases hchar : loadChar c col e with _ | ⟨col', e'⟩ | e'
      · rw [hchar] at hrest
        obtain ⟨rfl, hl⟩ := Yields.pure_iff.mp hrest
        obtain ⟨rfl, rfl⟩ := Prod.mk.inj hl
        refine ⟨[_], rfl, hone, ?_, hfile⟩
        rw [htake, edLoadLoop_cons, hchar]
        rfl
      · rw [hchar] at hrest
        obtain ⟨used, rfl, hused, hr, hfile'⟩ := ih hfd₁ (by rw [hcontent]; omega) hrest
        refine ⟨_ :: used, rfl, ⟨hused.1, ?_⟩, ?_, hfile'.trans hfile⟩
        · rw [refused_cons]
          exact not_or.mpr ⟨not_false, hused.2⟩
        · rw [htake, edLoadLoop_cons, hchar, hr, hcontent]
          rfl
      · rw [hchar] at hrest
        obtain ⟨rfl, hl⟩ := Yields.pure_iff.mp hrest
        obtain ⟨rfl, rfl⟩ := Prod.mk.inj hl
        refine ⟨[_], rfl, hone, ?_, hfile⟩
        rw [htake, edLoadLoop_cons, hchar]
        rfl

/-- **`ed_load`** of a file that is there: the editor has the lines of what is handed out. -/
theorem loadFile_spec {path : Text} {s : List UInt8} (hs : k.contentOf path = some s) {turns : Nat}
    (hturns : s.length < turns) {r : Option Editor}
    (h : Yields (answering Files.step) (loadFile turns path e) (k, l) r (k', l')) :
    ∃ e' used, r = some e' ∧ l = used ++ l' ∧ WritesNothing used ∧
      e'.Holds (linesOf (s.take (bytesRead used)) [] []) ∧ k'.fileOf = k.fileOf := by
  obtain ⟨f, hf, rfl⟩ := Option.map_eq_some_iff.mp hs
  have hload (n : Nat) := edLoad_eq (some ((k.content f).take n)) e
  simp only [edLoad] at hload
  rw [loadFile] at h
  cases hput : ({ e with edN := 0 } : Editor).put 0 0 0 with
  | none =>
    rw [hput] at hload
    obtain ⟨_, hnone, -⟩ := hload 0
    cases hnone
  | some e₁ =>
    rw [hput] at h hload
    have hload (n : Nat) : ∃ e', edLoadLoop ((k.content f).take n) 0 e₁ = some e' ∧
        e'.Holds (linesOf ((k.content f).take n) [] []) := hload n
    obtain ⟨fd, ⟨k₁, l₁⟩, hopen, h₁⟩ := Yields.bind_iff.mp h
    obtain ⟨hstep, rfl⟩ : k.openStep Shell.oRdonly path fd k₁ ∧
        l = ⟨.path (.openFile Shell.oRdonly 0) path, fd⟩ :: l₁ := yields_callPath.mp hopen
    have hone : ¬ Refuses ⟨.path (.openFile Shell.oRdonly 0) path, fd⟩ := fun h => h.1 rfl
    by_cases hneg : fd < 0
    · -- The file is taken for a new one.
      rw [if_pos hneg] at h₁
      obtain ⟨rfl, hl⟩ := Yields.pure_iff.mp h₁
      obtain ⟨rfl, rfl⟩ := Prod.mk.inj hl
      obtain ⟨e', hnil, hholds⟩ := hload 0
      rw [List.take_zero, edLoadLoop, if_neg (by decide)] at hnil
      obtain rfl := Option.some.inj hnil
      refine ⟨e₁, [_], rfl, rfl, ⟨rfl, ?_⟩, hholds, Files.fileOf_open_rdonly hstep⟩
      rw [refused_cons]
      exact not_or.mpr ⟨hone, by simp [Refused]⟩
    rw [if_neg hneg] at h₁
    obtain ⟨f', hf', -, hk₁⟩ := Files.open_rdonly hstep hneg
    obtain rfl := Option.some.inj (hf.symm.trans hf')
    obtain ⟨loaded, ⟨k₂, l₂⟩, hloop, h₂⟩ := Yields.bind_iff.mp h₁
    have hfd₁ : k₁.fds fd = some ⟨f, 0⟩ := by
      rw [hk₁]
      exact Function.update_self _ _ _
    have hcontent₁ : k₁.content = k.content := by rw [hk₁]
    obtain ⟨used, rfl, hused, hloaded, hfile₂⟩ :=
      loadLoop_spec hfd₁ (by rw [hcontent₁]; exact hturns) hloop
    obtain ⟨e', hloop', hholds⟩ := hload (bytesRead used)
    rw [hcontent₁, List.drop_zero, hloop'] at hloaded
    subst hloaded
    obtain ⟨closed, ⟨k₃, l₃⟩, hclose, h₃⟩ := Yields.bind_iff.mp h₂
    obtain ⟨rfl, hl⟩ := Yields.pure_iff.mp h₃
    obtain ⟨rfl, rfl⟩ := Prod.mk.inj hl
    obtain ⟨hk', rfl⟩ : k' = { k₂ with fds := _ } ∧ l₂ = ⟨.close fd, closed⟩ :: l' :=
      yields_close.mp hclose
    refine ⟨e', ⟨.path (.openFile Shell.oRdonly 0) path, fd⟩ :: (used ++ [⟨.close fd, closed⟩]),
      rfl, by simp, ⟨?_, ?_⟩, ?_, ?_⟩
    · rw [writeResults_cons, writeResults_append, hused.1]
      rfl
    · rw [refused_cons, refused_append]
      exact not_or.mpr ⟨hone, not_or.mpr ⟨hused.2, by simp [Refused, Refuses]⟩⟩
    · simpa [bytesRead, bytes] using hholds
    · rw [hk']
      exact hfile₂.trans (by rw [hk₁]; rfl)

/-! ## Saving -/

/-- The characters of a line of the buffer. -/
theorem slen_eq (h : e.Holds lines) {r : Nat} {s : Line} (hr : lines[r]? = some s) :
    slen e r = some s.length ∧ rowBytes e r s.length = s := by
  obtain ⟨htext, hlt⟩ := h.row r s hr
  have hlen := h.length_le
  have hr' := (List.getElem?_eq_some_iff.mp hr).1
  constructor
  · rw [slen, Editor.Holds.slenLoop_eq e (by omega) edCols (Nat.zero_add _)
      (by rw [htext]; exact hlt),
      htext, Nat.zero_add]
  · rw [rowBytes]
    conv_rhs => rw [← htext, ← map_range_length_text, htext]
    simp only [Nat.zero_add]

/-- The file at the path is being written, and holds `acc` so far. -/
structure Saving (k : Files) (fd : Int) (path : Text) (f : Nat) (acc : List UInt8) : Prop where
  fd : k.fds fd = some ⟨f, acc.length⟩
  file : k.fileOf path = some f
  content : k.content f = acc

/-- What a run that writes these pieces comes to: a call that fails, or the file with what the calls
have taken of them behind `acc`. -/
def Wrote (path : Text) (acc : List UInt8) (ps : List (List UInt8)) (l : List Reply)
    (result : Option Int) (k' : Files) (l' : List Reply) : Prop :=
  ∃ used w, result = some w ∧ l = used ++ l' ∧ bytesRead used = 0 ∧ ((w < 0 ∧ Refused used) ∨
    (¬ w < 0 ∧ ¬ Refused used ∧ k'.contentOf path = some (acc ++ stored ps (writeResults used))))

namespace Saving

variable {path : Text} {f : Nat} {acc : List UInt8}

/-- A write that does not fail. -/
theorem write (h : Saving k fd path f acc) {bytes : List UInt8} {w : Int} (hw : ¬ w < 0)
    (hwrite : k.writeStep fd bytes w k') : Saving k' fd path f (acc ++ bytes.take w.toNat) := by
  obtain ⟨hneg, -⟩ | ⟨-, hle, rfl⟩ := Files.write_opened h.fd hwrite
  · exact absurd hneg hw
  refine ⟨?_, h.file, ?_⟩
  · dsimp only
    rw [Function.update_self, List.length_append, List.length_take_of_le hle]
  · dsimp only
    rw [Function.update_self, h.content, Shell.overwrite_end]

/-- A write, and what comes behind it if it does not fail. -/
theorem write_then (h : Saving k fd path f acc) {piece : List UInt8} {ps : List (List UInt8)}
    {rest : Program (Option Int)} {result : Option Int}
    (hrest : ∀ k₁ l₁ acc₁, Saving k₁ fd path f acc₁ →
      Yields (answering Files.step) rest (k₁, l₁) result (k', l') →
        Wrote path acc₁ ps l₁ result k' l')
    (hwrite : Yields (answering Files.step) (do
      let w ← Shell.write fd piece
      if w < 0 then
        let _ ← close fd
        pure (some w)
      else rest) (k, l) result (k', l')) :
    Wrote path acc (piece :: ps) l result k' l' := by
  obtain ⟨w, ⟨k₁, l₁⟩, hw, hnext⟩ := Yields.bind_iff.mp hwrite
  obtain ⟨hstep, rfl⟩ : k.writeStep fd piece w k₁ ∧ l = ⟨.write fd piece, w⟩ :: l₁ :=
    yields_write.mp hw
  by_cases hneg : w < 0
  · rw [if_pos hneg] at hnext
    obtain ⟨_, ⟨k₂, l₂⟩, hclose, hdone⟩ := Yields.bind_iff.mp hnext
    obtain ⟨rfl, hl⟩ := Yields.pure_iff.mp hdone
    obtain ⟨rfl, rfl⟩ := Prod.mk.inj hl
    obtain ⟨-, rfl⟩ : _ ∧ l₁ = ⟨.close fd, _⟩ :: l' := yields_close.mp hclose
    exact ⟨[_, _], w, rfl, rfl, rfl, .inl ⟨hneg, (refused_cons _ _).mpr (.inl hneg)⟩⟩
  · rw [if_neg hneg] at hnext
    obtain ⟨used, v, hresult, rfl, hbytes, hv⟩ := hrest k₁ l₁ _ (h.write hneg hstep) hnext
    refine ⟨_ :: used, v, hresult, rfl, ?_, ?_⟩
    · rw [bytesRead_cons, hbytes]
      rfl
    · rcases hv with ⟨hv, hrefused⟩ | ⟨hv, hrefused, hcontent⟩
      · exact .inl ⟨hv, (refused_cons _ _).mpr (.inr hrefused)⟩
      · refine .inr ⟨hv, ?_, ?_⟩
        · rw [refused_cons]
          exact not_or.mpr ⟨hneg, hrefused⟩
        · rw [hcontent, List.append_assoc]
          rfl

/-- **The loop of `ed_save`**: an error, or what the calls have taken of the lines, behind what was
there. -/
theorem loop (hholds : e.Holds lines) {count r : Nat} (hr : r + count = lines.length)
    (h : Saving k fd path f acc) {result : Option Int}
    (hloop : Yields (answering Files.step) (saveLoop fd e count r) (k, l) result (k', l')) :
    Wrote path acc (pieces (lines.drop r)) l result k' l' := by
  induction count generalizing k l r acc with
  | zero =>
    rw [saveLoop] at hloop
    obtain ⟨_, ⟨k₁, l₁⟩, hclose, hdone⟩ := Yields.bind_iff.mp hloop
    obtain ⟨rfl, hl⟩ := Yields.pure_iff.mp hdone
    obtain ⟨rfl, rfl⟩ := Prod.mk.inj hl
    obtain ⟨rfl, rfl⟩ : k' = { k with fds := Function.update k.fds fd none } ∧
      l = ⟨.close fd, _⟩ :: l' := yields_close.mp hclose
    refine ⟨[_], 0, rfl, rfl, rfl, .inr ⟨by decide, by simp [Refused, Refuses], ?_⟩⟩
    rw [List.drop_eq_nil_of_le (show lines.length ≤ r by omega)]
    show Option.map k.content (k.fileOf path) = some (acc ++ [])
    rw [h.file, List.append_nil, Option.map_some, h.content]
  | succ count ih =>
    have hlt : r < lines.length := by omega
    have hget := List.getElem?_eq_getElem hlt
    obtain ⟨hslen, hrow⟩ := slen_eq hholds hget
    rw [saveLoop, hslen] at hloop
    rw [List.drop_eq_getElem_cons hlt, pieces, List.flatMap_cons, ← pieces]
    generalize lines[r] = s at *
    have hend : ∀ k₁ l₁ acc₁, Saving k₁ fd path f acc₁ → Yields (answering Files.step) (do
        let w ← Shell.write fd [10]
        if w < 0 then
          let _ ← close fd
          pure (some w)
        else saveLoop fd e count (r + 1)) (k₁, l₁) result (k', l') →
        Wrote path acc₁ ([10] :: pieces (lines.drop (r + 1))) l₁ result k' l' :=
      fun k₁ l₁ acc₁ h₁ hnext => h₁.write_then (fun _ _ _ h₂ hrest => ih (by omega) h₂ hrest) hnext
    by_cases hnil : s = []
    · rw [if_pos hnil]
      subst hnil
      exact hend k l acc h hloop
    · rw [if_neg hnil]
      have hsave : saveRow fd e r s.length = Shell.write fd s := by
        rw [saveRow, if_pos (mt List.length_eq_zero_iff.mp hnil), hrow]
      dsimp only at hloop
      rw [hsave] at hloop
      exact h.write_then hend hloop

end Saving

/-- **`ed_save`**: an error, or the file holds what was taken of the lines. -/
theorem edSave_spec {path : Text} {f : Nat} (hf : k.fileOf path = some f) (hholds : e.Holds lines)
    {result : Option Int}
    (h : Yields (answering Files.step) (edSave path e) (k, l) result (k', l')) :
    Wrote path [] (pieces lines) l result k' l' := by
  rw [edSave] at h
  obtain ⟨fd, ⟨k₁, l₁⟩, hopen, h₁⟩ := Yields.bind_iff.mp h
  obtain ⟨hstep, rfl⟩ : k.openStep (Shell.oWronly ||| Shell.oCreat ||| Shell.oTrunc) path fd k₁ ∧
    l = ⟨.path (.openFile (Shell.oWronly ||| Shell.oCreat ||| Shell.oTrunc) 0o644) path,
      fd⟩ :: l₁ :=
      yields_callPath.mp hopen
  by_cases hneg : fd < 0
  · rw [if_pos hneg] at h₁
    obtain ⟨rfl, hl⟩ := Yields.pure_iff.mp h₁
    obtain ⟨rfl, rfl⟩ := Prod.mk.inj hl
    exact ⟨[_], fd, rfl, rfl, rfl, .inl ⟨hneg, (refused_cons _ _).mpr (.inl ⟨by decide, hneg⟩)⟩⟩
  · rw [if_neg hneg] at h₁
    obtain ⟨g, entry, hfinds, -, hk₁⟩ := Files.open_trunc hstep hneg
    obtain rfl := (hfinds.eq_iff hf).mpr hf
    have hsaving : Saving k₁ fd path g [] := by
      subst hk₁
      exact ⟨Function.update_self _ _ _, hfinds.keeps hf, Function.update_self _ _ _⟩
    have hcount : 0 + e.edN = lines.length := by rw [Nat.zero_add, hholds.edN]
    obtain ⟨used, w, hw, rfl, hbytes, hused⟩ := hsaving.loop hholds hcount h₁
    refine ⟨_ :: used, w, hw, rfl, by rw [bytesRead_cons, hbytes]; rfl, ?_⟩
    have hrefused : Refused (⟨.path (.openFile (Shell.oWronly ||| Shell.oCreat ||| Shell.oTrunc)
        0o644) path, fd⟩ :: used) ↔ Refused used := by
      rw [refused_cons]
      exact or_iff_right fun h => hneg h.2
    rw [hrefused]
    exact hused

/-! ## The command -/

/-- The last that was done is to report an error. -/
def Reported (name : Text) (k' : Files) : Prop :=
  ∃ k err, err < 0 ∧ Yields Files.step (fail "write" name err) k () k'

/-- The file at the path holds the text that it held. -/
def TextKept (k k' : Files) (path : Text) : Prop :=
  ∃ before after, k.contentOf path = some before ∧ k'.contentOf path = some after ∧
    SameText before after

theorem not_reported {name t : Text} (h : k'.console.getLast? = some t) (ht : t.head? ≠ some 98) :
    ¬ Reported name k' := by
  rintro ⟨k, err, -, hfail⟩
  rw [show k' = _ from yields_out.mp hfail, List.getLast?_concat] at h
  obtain rfl := Option.some.inj h
  exact ht rfl

/-- **When a text that is opened and written back is the same, or an error is reported**, for every
text and all answers of the kernel: exactly if the kernel refuses the writing, or what the calls of
`write` take of the lines of what is handed out is the same text.  With enough turns the command
ends. -/
theorem edit_keeps_text_iff {cwd name : Text} {turns : Nat} {s : List UInt8} {r : Option Unit}
    (hs : k.contentOf (resolve cwd name) = some s) (hturns : s.length < turns)
    (h : Yields (answering Files.step) (editThenWrite turns cwd name e) (k, l) r (k', [])) :
    r = some () ∧ ((Reported name k' ∨ TextKept k k' (resolve cwd name)) ↔
      (Refused l ∨ SameText s (stored (pieces (linesOf (s.take (bytesRead l)) [] []))
        (writeResults l)))) := by
  rw [editThenWrite] at h
  obtain ⟨loaded, ⟨k₁, l₁⟩, hload, h₁⟩ := Yields.bind_iff.mp h
  obtain ⟨e₁, used₁, rfl, rfl, ⟨hnone₁, hrefused₁⟩, hholds, hfile₁⟩ := loadFile_spec hs hturns hload
  obtain ⟨_, ⟨k₂, l₂⟩, hout, h₂⟩ := Yields.bind_iff.mp h₁
  obtain ⟨_, ⟨k₃, l₃⟩, hprompt, h₃⟩ := Yields.bind_iff.mp h₂
  obtain ⟨result, ⟨k₄, l₄⟩, hsave, h₄⟩ := Yields.bind_iff.mp h₃
  obtain ⟨hk₂, hl₁⟩ : k₂ = { k₁ with console := _ } ∧ l₁ = ⟨.out _, ()⟩ :: l₂ := yields_out.mp hout
  obtain ⟨hk₃, hl₂⟩ : k₃ = { k₂ with console := _ } ∧ l₂ = ⟨.out _, ()⟩ :: l₃ :=
    yields_out.mp hprompt
  obtain ⟨f, hf, -⟩ := Option.map_eq_some_iff.mp hs
  have hf₃ : k₃.fileOf (resolve cwd name) = some f := by
    rw [hk₃, hk₂, ← hf, ← hfile₁]
    rfl
  obtain ⟨used₄, w, rfl, hl₃, hbytes, hsaved⟩ := edSave_spec hf₃ hholds hsave
  have hlast : ∀ {text : Text}, Yields (answering Files.step) (do
      out text
      pure (some ())) (k₄, l₄) r (k', []) → r = some () ∧
        k' = { k₄ with console := k₄.console ++ [text] } ∧ l₄ = [⟨.out text, ()⟩] := by
    intro text hout
    obtain ⟨_, ⟨k₅, l₅⟩, hout, hdone⟩ := Yields.bind_iff.mp hout
    obtain ⟨hr, hl⟩ := Yields.pure_iff.mp hdone
    obtain ⟨rfl, rfl⟩ := Prod.mk.inj hl
    obtain ⟨hk', hl₄⟩ : k' = _ ∧ l₄ = _ := yields_out.mp hout
    exact ⟨hr, hk', hl₄⟩
  -- The answers that count are those of the load and those of the save.
  have hanswers : ∀ {text : Text}, l₄ = [⟨.out text, ()⟩] →
      bytesRead (used₁ ++ l₁) = bytesRead used₁ ∧
        writeResults (used₁ ++ l₁) = writeResults used₄ ∧
        (Refused (used₁ ++ l₁) ↔ Refused used₄) := by
    intro text hl₄
    rw [hl₁, hl₂, hl₃, hl₄]
    have hnil : ¬ Refused [] := by simp [Refused]
    have hout : ∀ text, ¬ Refuses ⟨.out text, ()⟩ := fun _ => not_false
    refine ⟨?_, ?_, ?_⟩
    · simp only [bytesRead_append, bytesRead_cons, hbytes]
      rfl
    · simp only [writeResults_append, writeResults_cons, hnone₁, List.nil_append]
      exact List.append_nil _
    · simp only [refused_append, refused_cons, hrefused₁, hout, hnil, or_false, false_or]
  dsimp only at h₄
  rcases hsaved with ⟨hw, hrefused⟩ | ⟨hw, hrefused, hcontent⟩
  · rw [if_pos hw] at h₄
    obtain ⟨hr, hk', hl₄⟩ := hlast h₄
    obtain ⟨-, -, hiff⟩ := hanswers hl₄
    refine ⟨hr, iff_of_true (.inl ⟨k₄, w, hw, yields_out.mpr hk'⟩) (.inl (hiff.mpr hrefused))⟩
  · rw [if_neg hw] at h₄
    obtain ⟨hr, hk', hl₄⟩ := hlast h₄
    obtain ⟨hbytes', hresults, hiff⟩ := hanswers hl₄
    have hquiet : ¬ Reported name k' := by
      refine not_reported (by rw [hk', List.getLast?_concat]) ?_
      simp [ascii]
    have hafter : k'.contentOf (resolve cwd name) =
        some (stored (pieces (linesOf (s.take (bytesRead used₁)) [] [])) (writeResults used₄)) := by
      rw [hk']
      exact hcontent
    rw [or_iff_right hquiet, hiff, or_iff_right hrefused, hbytes', hresults]
    refine ⟨hr, ?_, fun hsame => ⟨s, _, hs, hafter, hsame⟩⟩
    rintro ⟨before, after, hbefore, hafter', hsame⟩
    obtain rfl := Option.some.inj (hs.symm.trans hbefore)
    obtain rfl := Option.some.inj (hafter.symm.trans hafter')
    exact hsame

/-! ## Runs -/

instance (before after : List UInt8) : Decidable (SameText before after) :=
  inferInstanceAs (Decidable (_ ∨ _))

theorem not_textKept {path : Text} (before after : List UInt8)
    (hbefore : k.contentOf path = some before) (hafter : k'.contentOf path = some after)
    (h : ¬ SameText before after) : ¬ TextKept k k' path := by
  rintro ⟨before', after', hbefore', hafter', hsame⟩
  obtain rfl := Option.some.inj (hbefore.symm.trans hbefore')
  obtain rfl := Option.some.inj (hafter.symm.trans hafter')
  exact h hsame

/-- A directory with one file, `f`. -/
def oneFile (s : List UInt8) : Files where
  place p := if p = ascii "/f" then some 0 else none
  entry e := if e = 0 then some 0 else none
  content f := if f = 0 then s else []
  fds _ := none
  console := []

/-- `edit f` and `w`, in the root. -/
def session : Program (Option Unit) :=
  editThenWrite 4 Shell.rootCwd.text (ascii "f") ⟨fun _ _ => 0, 0, fun _ => 0, false, .command⟩

/-- What that leaves behind, with a kernel that writes `most` bytes at a time. -/
def written (most : Nat) (s : List UInt8) : Files :=
  (Interaction.run (Files.serve most) session (oneFile s)).2

theorem yields_session {most : Nat} {s : List UInt8}
    (h : (Interaction.run (Files.serve most) session (oneFile s)).1 = some ()) :
    Yields Files.step session (oneFile s) (some ()) (written most s) := by
  have hyields := Files.yields_serve most session (oneFile s)
  rwa [h] at hyields

theorem fitsBuffer_two : FitsBuffer [97, 98] :=
  ⟨[[97, 98]], by decide, List.forall_mem_singleton.mpr ⟨by decide, by decide, by decide⟩,
    by decide⟩

/-- **Text is lost without a word**: with a kernel that keeps nothing back, from a zero to the end
of its line; and with one that writes less than it is given, although the text fits. -/
theorem text_lost :
    (Yields Files.step session (oneFile [97, 0, 98]) (some ()) (written 1024 [97, 0, 98]) ∧
      ¬ Reported (ascii "f") (written 1024 [97, 0, 98]) ∧
      ¬ TextKept (oneFile [97, 0, 98]) (written 1024 [97, 0, 98])
        (resolve Shell.rootCwd.text (ascii "f"))) ∧
    (FitsBuffer [97, 98] ∧
      Yields Files.step session (oneFile [97, 98]) (some ()) (written 1 [97, 98]) ∧
      ¬ Reported (ascii "f") (written 1 [97, 98]) ∧
      ¬ TextKept (oneFile [97, 98]) (written 1 [97, 98])
        (resolve Shell.rootCwd.text (ascii "f"))) := by
  refine ⟨⟨yields_session (by decide +kernel), ?_, ?_⟩, fitsBuffer_two,
    yields_session (by decide +kernel), ?_, ?_⟩
  · exact not_reported (t := ascii "  wrote 1 lines\n") (by decide +kernel) (by decide +kernel)
  · exact not_textKept [97, 0, 98] [97, 10] (by decide +kernel)
      (by decide +kernel) (by decide +kernel)
  · exact not_reported (t := ascii "  wrote 1 lines\n") (by decide +kernel) (by decide +kernel)
  · exact not_textKept [97, 98] [97, 10] (by decide +kernel)
      (by decide +kernel) (by decide +kernel)

/-- The theorem at a file of two letters: written whole it is kept, and written one byte at a time
it is lost and nothing is reported. -/
theorem edit_keeps_text_iff_two :
    (Reported (ascii "f") (written 1024 [97, 98]) ∨ TextKept (oneFile [97, 98])
      (written 1024 [97, 98]) (resolve Shell.rootCwd.text (ascii "f"))) ∧
    ¬ (Reported (ascii "f") (written 1 [97, 98]) ∨ TextKept (oneFile [97, 98])
      (written 1 [97, 98]) (resolve Shell.rootCwd.text (ascii "f"))) := by
  have hrun (most : Nat) := Yields.of_run_answers (Files.serve_step most) session (oneFile [97, 98])
  refine ⟨(edit_keeps_text_iff (s := [97, 98]) (by decide +kernel) (by decide)
    (hrun 1024)).2.mpr ?_,
    (edit_keeps_text_iff (s := [97, 98]) (by decide +kernel) (by decide) (hrun 1)).2.not.mpr ?_⟩
  · decide +kernel
  · decide +kernel

end Ed
end Brsh
end Blackroo
