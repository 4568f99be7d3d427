import Mathlib.Data.List.GetD
import Mathlib.Data.List.InsertIdx
import Blackroo.Brsh.Editor

/-!
# The editor keeps a list of lines

`cmdEdit_refines`: whatever file is loaded and whatever is typed, the editor makes no access
outside of its arrays, and its buffer holds the lines that the same input makes of a `Doc`.

Everything that is done to the buffer is a `scopy`, which leaves the text of its source in the
line it copies to, cut to 127 characters (`scopy_eq`), and nothing else changed.  For the lines
that are moved this is the whole text, because a line that fits has no more.

The two states are related by `Editor.Represents`: the first lines of the array show the lines of
the document, and what the editor waits for is what the document waits for.  The rest of the array
is open, since deleted lines leave their text behind.  Each command is one lemma about that
relation, by the shift it makes (`shiftUp_eq` for `d`, `shiftDown_eq` for `i`); `turn_eq` puts them
together for one line of input, and `turns_eq` is the induction over the input.  The loop of
`ed_load` gets its own invariant (`Loading`), because in the middle of a line the array is not yet
that of a document.
-/

namespace Blackroo
namespace Brsh
namespace Ed

open CString

/-! ## Copies -/

/-- The source `s` shows the characters `f`, whatever is in the line `d`. -/
def Source (d : Nat) (s : Editor → Nat → Option UInt8) (e : Editor) (f : Chars) : Prop :=
  ∀ g i, i < edCols → s { e with edBuf := Function.update e.edBuf d g } i = some (f i)

theorem source_row {d r : Nat} (e : Editor) (h : r ≠ d) (hr : r < edLines) :
    Source d (fun e => e.get r) e (e.edBuf r) := by
  intro g i hi
  show Editor.get _ r i = _
  rw [Editor.get, if_pos ⟨hr, hi⟩]
  dsimp only
  rw [Function.update_of_ne h]

theorem source_line (d : Nat) (e : Editor) : Source d (fun e => e.lineAt) e e.line := by
  intro g i hi
  exact if_pos (Nat.lt_of_lt_of_le hi (by decide))

theorem put_row {d i : Nat} (e : Editor) (g : Chars) (x : UInt8) (hd : d < edLines)
    (hi : i < edCols) :
    { e with edBuf := Function.update e.edBuf d g }.put d i x =
      some { e with edBuf := Function.update e.edBuf d (Function.update g i x) } := by
  rw [Editor.put, if_pos ⟨hd, hi⟩]
  dsimp only
  rw [Function.update_self, Function.update_idem]

/-- What the loop leaves: the characters before `i`, and the text of the source from there. -/
theorem scopyLoop_eq {d : Nat} {s : Editor → Nat → Option UInt8} {e : Editor} {f : Chars}
    (hd : d < edLines) (hs : Source d s e f) (left : Nat) {i : Nat} (hi : i + left = edCols - 1)
    (g₀ : Chars) :
    ∃ g, scopyLoop d s left i { e with edBuf := Function.update e.edBuf d g₀ } =
        some { e with edBuf := Function.update e.edBuf d g } ∧
      (∀ j < i, g j = g₀ j) ∧ text g (left + 1) i = text f left i := by
  have hcols : edCols = 128 := rfl
  induction left generalizing i g₀ with
  | zero =>
    refine ⟨Function.update g₀ i 0, ?_, fun j hj => Function.update_of_ne (by omega) _ _, ?_⟩
    · rw [scopyLoop, hs g₀ i (by omega)]
      exact put_row e g₀ 0 hd (by omega)
    · exact text_succ_of_eq_zero (Function.update_self _ _ _) 0
  | succ left ih =>
    rw [scopyLoop, hs g₀ i (by omega)]
    by_cases hc : f i = 0
    · refine ⟨Function.update g₀ i 0, ?_, fun j hj => Function.update_of_ne (by omega) _ _, ?_⟩
      · show (if f i ≠ 0 then _ else _) = _
        rw [if_neg (not_not_intro hc)]
        exact put_row e g₀ 0 hd (by omega)
      · rw [text_succ_of_eq_zero hc]
        exact text_succ_of_eq_zero (Function.update_self _ _ _) _
    · obtain ⟨g, hg, hbelow, htext⟩ :=
        ih (show i + 1 + left = edCols - 1 by omega) (Function.update g₀ i (f i))
      have hgi : g i = f i := by
        rw [hbelow i (Nat.lt_succ_self i), Function.update_self]
      refine ⟨g, ?_, fun j hj => ?_, ?_⟩
      · show (if f i ≠ 0 then _ else _) = _
        rw [if_pos hc, put_row e g₀ _ hd (by omega)]
        exact hg
      · rw [hbelow j (by omega), Function.update_of_ne (by omega)]
      · rw [text_succ_of_ne_zero (by rwa [hgi]), hgi, htext, text_succ_of_ne_zero hc]

/-- **A copy** leaves the text of its source, cut to what fits. -/
theorem scopy_eq {d : Nat} {s : Editor → Nat → Option UInt8} {e : Editor} {f : Chars}
    (hd : d < edLines) (hs : Source d s e f) :
    ∃ g, scopy d s e = some { e with edBuf := Function.update e.edBuf d g } ∧
      text g edCols 0 = text f (edCols - 1) 0 := by
  obtain ⟨g, hg, -, htext⟩ :=
    scopyLoop_eq hd hs (edCols - 1) (Nat.zero_add _) (e.edBuf d)
  rw [Function.update_eq_self] at hg
  exact ⟨g, hg, htext⟩

/-- The text of a line of the buffer. -/
def rowText (buf : Nat → Chars) (r : Nat) : Line := text (buf r) edCols 0

theorem rowText_update (buf : Nat → Chars) (d : Nat) (g : Chars) (r : Nat) :
    rowText (Function.update buf d g) r = if r = d then text g edCols 0 else rowText buf r := by
  by_cases h : r = d
  · rw [if_pos h, rowText, h, Function.update_self]
  · rw [if_neg h, rowText, Function.update_of_ne h, rowText]

theorem text_cut (f : Chars) : text f (edCols - 1) 0 = cut (text f edCols 0) :=
  text_eq_take f (by decide) 0

/-- The lines that move up. -/
theorem shiftUp_eq (count : Nat) {j : Nat} (e : Editor) (hj : j + count < edLines) :
    ∃ buf, shiftUp count j e = some { e with edBuf := buf } ∧
      ∀ r, rowText buf r =
        if j ≤ r ∧ r < j + count then cut (rowText e.edBuf (r + 1)) else rowText e.edBuf r := by
  induction count generalizing j e with
  | zero => exact ⟨e.edBuf, rfl, fun r => (if_neg (by omega)).symm⟩
  | succ count ih =>
    obtain ⟨g, hg, htext⟩ := scopy_eq (show j < edLines by omega)
      (source_row e (show j + 1 ≠ j by omega) (show j + 1 < edLines by omega))
    obtain ⟨buf, hbuf, hrow⟩ := ih { e with edBuf := Function.update e.edBuf j g }
      (show j + 1 + count < edLines by omega)
    refine ⟨buf, ?_, fun r => ?_⟩
    · rw [shiftUp, hg]
      exact hbuf
    · rw [hrow r, rowText_update, rowText_update, htext, text_cut]
      rcases Nat.lt_trichotomy r j with hr | hr | hr
      · rw [if_neg (by omega), if_neg (by omega), if_neg (by omega)]
      · rw [if_neg (by omega), if_pos hr, if_pos (by omega), hr]
        rfl
      · rw [if_neg (show r + 1 ≠ j by omega), if_neg (show r ≠ j by omega)]
        by_cases hlast : r < j + (count + 1)
        · rw [if_pos (by omega), if_pos (by omega)]
        · rw [if_neg (by omega), if_neg (by omega)]

/-- The lines that move down. -/
theorem shiftDown_eq (count : Nat) {j : Nat} (e : Editor) (hj : j < edLines) (hcount : count ≤ j) :
    ∃ buf, shiftDown count j e = some { e with edBuf := buf } ∧
      ∀ r, rowText buf r =
        if j < r + count ∧ r ≤ j then cut (rowText e.edBuf (r - 1)) else rowText e.edBuf r := by
  induction count generalizing j e with
  | zero => exact ⟨e.edBuf, rfl, fun r => (if_neg (by omega)).symm⟩
  | succ count ih =>
    obtain ⟨g, hg, htext⟩ := scopy_eq hj
      (source_row e (show j - 1 ≠ j by omega) (show j - 1 < edLines by omega))
    obtain ⟨buf, hbuf, hrow⟩ := ih { e with edBuf := Function.update e.edBuf j g }
      (show j - 1 < edLines by omega) (by omega)
    refine ⟨buf, ?_, fun r => ?_⟩
    · rw [shiftDown, hg]
      exact hbuf
    · rw [hrow r, rowText_update, rowText_update, htext, text_cut]
      rcases Nat.lt_trichotomy r j with hr | hr | hr
      · rw [if_neg (show r - 1 ≠ j by omega), if_neg (show r ≠ j by omega)]
        by_cases hfirst : j < r + (count + 1)
        · rw [if_pos (by omega), if_pos (by omega)]
        · rw [if_neg (by omega), if_neg (by omega)]
      · rw [if_neg (by omega), if_pos hr, if_pos (by omega), hr]
        rfl
      · rw [if_neg (by omega), if_neg (by omega), if_neg (by omega)]

/-! ## What has been typed -/

/-- The line read holds these characters, with a zero behind them. -/
structure Shows (l : Chars) (s : Line) : Prop where
  char : ∀ j c, s[j]? = some c → l j = c
  zero : l s.length = 0
  ne_zero : ∀ c ∈ s, c ≠ 0
  length_lt : s.length < lineSize

theorem Shows.text {l : Chars} {s : Line} (h : Shows l s) (n : Nat) : text l n 0 = s.take n := by
  rw [text_eq_of_list (s := s) (i := 0) (by simpa using h.char) (by simpa using h.zero),
    List.takeWhile_eq_self_iff.mpr]
  intro c hc
  simpa using h.ne_zero c hc

theorem Shows.getD {l : Chars} {s : Line} (h : Shows l s) {i : Nat} (hi : i ≤ s.length) :
    l i = s.getD i 0 := by
  rw [List.getD_eq_getElem?_getD]
  rcases Nat.lt_or_eq_of_le hi with hlt | rfl
  · rw [h.char i _ (List.getElem?_eq_getElem hlt), List.getElem?_eq_getElem hlt, Option.getD_some]
  · rw [h.zero, List.getElem?_eq_none (Nat.le_refl _), Option.getD_none]

theorem stripLoop_eq {e : Editor} {bytes : List UInt8} (hlen : bytes.length < lineSize) {n : Nat}
    (hn : n ≤ bytes.length) :
    stripLoop (e.receive bytes) n = some (strip (bytes.take n)).length := by
  induction n with
  | zero => rfl
  | succ n ih =>
    have hchar : (e.receive bytes).lineAt n = some (bytes.get ⟨n, by omega⟩) := by
      rw [Editor.lineAt, if_pos (by omega), Editor.receive]
      exact congrArg some (List.getD_eq_getElem _ _ (by omega))
    rw [stripLoop, hchar, List.take_add_one, List.getElem?_eq_getElem (by omega)]
    show (if _ then _ else _) = some (strip (bytes.take n ++ [bytes.get ⟨n, _⟩])).length
    rw [strip, List.rdropWhile_concat]
    by_cases hc : bytes.get ⟨n, by omega⟩ = 10 ∨ bytes.get ⟨n, by omega⟩ = 13
    · rw [if_pos hc, if_pos (decide_eq_true hc)]
      exact ih (by omega)
    · rw [if_neg hc, if_neg (by simpa using hc), List.length_append, List.length_take]
      simp
      omega

theorem strip_prefix (s : List UInt8) : strip s <+: s := List.rdropWhile_prefix _ s

/-- **A line that is read** is shown without its line ends. -/
theorem readLine_eq (e : Editor) (t : Typed) :
    ∃ l, readLine e t.bytes = some ((strip t.bytes).length, { e with line := l }) ∧
      Shows l (strip t.bytes) := by
  have hsize : lineSize = 160 := rfl
  have hlen := t.length_le
  have hpre := strip_prefix t.bytes
  have hle := hpre.length_le
  refine ⟨Function.update (e.receive t.bytes).line (strip t.bytes).length 0, ?_, ?_⟩
  · rw [readLine, stripLoop_eq (by omega) (Nat.le_refl _), List.take_length]
    show ((e.receive t.bytes).putLine _ 0).bind _ = _
    rw [Editor.putLine, if_pos (by omega)]
    rfl
  · refine ⟨fun j c hj => ?_, Function.update_self _ _ _,
      fun c hc => t.ne_zero c (hpre.subset hc), by omega⟩
    obtain ⟨hlt, rfl⟩ := List.getElem?_eq_some_iff.mp hj
    rw [Function.update_of_ne (by omega), Editor.receive]
    dsimp only
    rw [List.getD_eq_getElem _ _ (by omega), hpre.getElem hlt]

/-- `streq` compares with a string. -/
theorem streqFrom_eq {e : Editor} {s : Line} (h : Shows e.line s) {w : List UInt8}
    (hw : ∀ c ∈ w, c ≠ 0) {i : Nat} (hi : i ≤ s.length) :
    streqFrom e w i = some (decide (s.drop i = w)) := by
  have hlt := h.length_lt
  have hread : e.lineAt i = some (e.line i) := if_pos (by omega)
  -- at the end of the line there is a zero, before it a character of the line
  rcases Nat.lt_or_eq_of_le hi with hin | rfl
  · have hdrop := List.drop_eq_getElem_cons hin
    have hchar : e.line i = s.get ⟨i, hin⟩ := h.char i _ (List.getElem?_eq_getElem hin)
    have hne : e.line i ≠ 0 := by
      rw [hchar]
      exact h.ne_zero _ (List.getElem_mem hin)
    cases w with
    | nil =>
      rw [streqFrom, hread, hdrop]
      show some (e.line i == 0) = _
      rw [beq_false_of_ne hne, decide_eq_false (List.cons_ne_nil _ _)]
    | cons b w =>
      rw [streqFrom, hread, hdrop]
      show (if e.line i ≠ 0 ∧ e.line i = b then _ else some (e.line i == b)) = _
      by_cases hb : e.line i = b
      · rw [if_pos ⟨hne, hb⟩, streqFrom_eq h (fun c hc => hw c (List.mem_cons_of_mem b hc)) hin]
        refine congrArg some (decide_eq_decide.mpr ?_)
        rw [List.cons.injEq, ← hb, hchar]
        exact ⟨fun h => ⟨rfl, h⟩, fun h => h.2⟩
      · rw [if_neg (fun h => hb h.2), beq_false_of_ne hb, decide_eq_false]
        intro heq
        exact hb (hchar.trans (List.cons.inj heq).1)
  · rw [List.drop_length]
    cases w with
    | nil =>
      rw [streqFrom, hread, h.zero]
      rfl
    | cons b w =>
      rw [streqFrom, hread, h.zero]
      have hb : (0 : UInt8) ≠ b := (hw b List.mem_cons_self).symm
      show (if (0 : UInt8) ≠ 0 ∧ 0 = b then streqFrom e w (s.length + 1) else some (0 == b)) = _
      rw [if_neg (fun h => hb h.2), beq_false_of_ne hb, decide_eq_false (by exact nofun)]
termination_by w

theorem streq_eq {e : Editor} {s : Line} (h : Shows e.line s) {w : List UInt8}
    (hw : ∀ c ∈ w, c ≠ 0) : streq e w = some (decide (s = w)) :=
  streqFrom_eq h hw (Nat.zero_le _)

/-! ### Numbers -/

theorem le_leadingNumber (s : List UInt8) (v : Nat) : v ≤ leadingNumber s v := by
  induction s generalizing v with
  | nil => exact Nat.le_refl v
  | cons c s ih =>
    rw [leadingNumber]
    split
    · exact Nat.le_trans (by omega) (ih _)
    · exact Nat.le_refl v

/-- `ed_num` is the value of the leading digits, as long as that fits. -/
theorem edNumLoop_eq {e : Editor} {s : Line} (h : Shows e.line s) (left : Nat) {i : Nat}
    (hi : i ≤ s.length) (hleft : s.length < i + left) {v : Nat}
    (hsmall : leadingNumber (s.drop i) v < 2 ^ 31) :
    edNumLoop e left i v = some (leadingNumber (s.drop i) v : Int) := by
  have hlt := h.length_lt
  induction left generalizing i v with
  | zero => omega
  | succ left ih =>
    have hread : e.lineAt i = some (e.line i) := if_pos (by omega)
    rw [edNumLoop, hread]
    show (if isDigit (e.line i) then _ else _) = _
    rcases Nat.lt_or_eq_of_le hi with hin | rfl
    · have hchar : e.line i = s.get ⟨i, hin⟩ := h.char i _ (List.getElem?_eq_getElem hin)
      have hdrop : s.drop i = e.line i :: s.drop (i + 1) := by
        rw [hchar]
        exact List.drop_eq_getElem_cons hin
      rw [hdrop, leadingNumber] at hsmall ⊢
      by_cases hd : isDigit (e.line i)
      · rw [if_pos hd] at hsmall ⊢
        rw [if_pos hd]
        have hdigit : 48 ≤ (e.line i).toNat := UInt8.le_iff_toNat_le.mp hd.1
        have hle := le_leadingNumber (s.drop (i + 1)) (v * 10 + ((e.line i).toNat - 48))
        have hv : Int.bmod ((v : Int) * 10 + ((e.line i).toNat - 48)) (2 ^ 32) =
            ((v * 10 + ((e.line i).toNat - 48) : Nat) : Int) := by
          rw [Int.bmod_eq_of_le (by omega) (by omega)]
          omega
        rw [hv]
        exact ih hin (by omega) hsmall
      · rw [if_neg hd, if_neg hd]
    · rw [h.zero, if_neg (by decide), List.drop_length]
      rfl

theorem edNum_eq {e : Editor} {s : Line} (h : Shows e.line s) {i : Nat} (hi : i ≤ s.length)
    (hsmall : number (s.drop i) < 2 ^ 31) : edNum e i = some (number (s.drop i) : Int) := by
  have hlt := h.length_lt
  exact edNumLoop_eq h _ hi (by omega) hsmall

/-! ## What happens to the lines -/

theorem length_cut_lt (s : Line) : (cut s).length < edCols := by
  rw [cut, List.length_take]
  exact Nat.lt_of_le_of_lt (Nat.min_le_left _ _) (by decide)

theorem cut_of_lt {s : Line} (h : s.length < edCols) : cut s = s :=
  List.take_of_length_le (Nat.le_sub_one_of_lt h)

namespace Editor.Holds

variable {e : Editor} {lines : List Line}

/-- Only the buffer and the number of lines matter. -/
theorem congr (h : e.Holds lines) {e' : Editor} (hbuf : e'.edBuf = e.edBuf) (hn : e'.edN = e.edN) :
    e'.Holds lines :=
  ⟨hn.trans h.edN, h.length_le, by rw [hbuf]; exact h.row⟩

theorem set (h : e.Holds lines) {k : Nat} {g : Chars} {s : Line} (hk : k < lines.length)
    (hg : CString.text g edCols 0 = s) (hs : s.length < edCols) :
    { e with edBuf := Function.update e.edBuf k g }.Holds (lines.set k s) := by
  refine ⟨by rw [List.length_set]; exact h.edN, by rw [List.length_set]; exact h.length_le, ?_⟩
  intro r s' hr
  dsimp only
  by_cases hrk : r = k
  · subst hrk
    rw [List.getElem?_set_self hk] at hr
    obtain rfl := Option.some.inj hr
    rw [Function.update_self]
    exact ⟨hg, hs⟩
  · rw [List.getElem?_set_ne (Ne.symm hrk)] at hr
    rw [Function.update_of_ne hrk]
    exact h.row r s' hr

theorem append (h : e.Holds lines) {g : Chars} {s : Line} (hlt : lines.length < edLines)
    (hg : CString.text g edCols 0 = s) (hs : s.length < edCols) :
    { e with edBuf := Function.update e.edBuf e.edN g, edN := e.edN + 1 }.Holds (lines ++ [s]) := by
  refine ⟨?_, ?_, fun r s' hr => ?_⟩
  · rw [List.length_append, ← h.edN]
    rfl
  · rw [List.length_append]
    exact hlt
  · dsimp only
    rw [h.edN]
    rcases Nat.lt_trichotomy r lines.length with hrk | rfl | hrk
    · rw [List.getElem?_append_left hrk] at hr
      rw [Function.update_of_ne (Nat.ne_of_lt hrk)]
      exact h.row r s' hr
    · rw [List.getElem?_append_right (Nat.le_refl _), Nat.sub_self] at hr
      obtain rfl := Option.some.inj hr
      rw [Function.update_self]
      exact ⟨hg, hs⟩
    · rw [List.getElem?_eq_none] at hr
      · cases hr
      · rw [List.length_append]
        exact hrk

/-- Lines moved up over the line `k`. -/
theorem erase (h : e.Holds lines) {k : Nat} {buf : Nat → Chars} (hk : k < lines.length)
    (hbuf : ∀ r, rowText buf r = if k ≤ r ∧ r < k + (lines.length - 1 - k) then
      cut (rowText e.edBuf (r + 1)) else rowText e.edBuf r) {e' : Editor} (he : e'.edBuf = buf)
    (hn : e'.edN = e.edN - 1) : e'.Holds (lines.eraseIdx k) := by
  have hlen : (lines.eraseIdx k).length = lines.length - 1 := List.length_eraseIdx_of_lt hk
  refine ⟨by rw [hlen, hn, h.edN], by rw [hlen]; exact Nat.le_trans (Nat.sub_le _ _) h.length_le,
    ?_⟩
  intro r s hr
  have hrlt : r < (lines.eraseIdx k).length := (List.getElem?_eq_some_iff.mp hr).1
  rw [List.getElem?_eraseIdx] at hr
  rw [he, ← rowText, hbuf r]
  split at hr
  · rw [if_neg (by omega)]
    exact h.row r s hr
  · obtain ⟨hrow, hs⟩ := h.row (r + 1) s hr
    rw [if_pos (by omega), rowText, hrow, cut_of_lt hs]
    exact ⟨rfl, hs⟩

/-- Lines moved down from the line `k` on, which is empty then. -/
theorem insert (h : e.Holds lines) {k : Nat} {buf : Nat → Chars} (hk : k ≤ lines.length)
    (hlt : lines.length < edLines)
    (hbuf : ∀ r, r ≠ k → rowText buf r = if lines.length < r + (lines.length - k) ∧
      r ≤ lines.length then cut (rowText e.edBuf (r - 1)) else rowText e.edBuf r)
    (hempty : rowText buf k = []) {e' : Editor} (he : e'.edBuf = buf) (hn : e'.edN = e.edN + 1) :
    e'.Holds (lines.insertIdx k []) := by
  have hlen : (lines.insertIdx k []).length = lines.length + 1 :=
    List.length_insertIdx_of_le_length hk _
  refine ⟨by rw [hlen, hn, h.edN], by rw [hlen]; exact hlt, ?_⟩
  intro r s hr
  have hrlt : r < (lines.insertIdx k []).length := (List.getElem?_eq_some_iff.mp hr).1
  rw [he, ← rowText]
  rcases Nat.lt_trichotomy r k with hrk | rfl | hrk
  · rw [List.getElem?_insertIdx_of_lt hrk] at hr
    rw [hbuf r (by omega), if_neg (by omega)]
    exact h.row r s hr
  · rw [List.getElem?_insertIdx_self, if_pos hk] at hr
    rw [← Option.some.inj hr, hempty]
    exact ⟨rfl, by decide⟩
  · rw [List.getElem?_insertIdx_of_gt hrk] at hr
    obtain ⟨hrow, hs⟩ := h.row (r - 1) s hr
    rw [hbuf r (by omega), if_pos (by omega), rowText, hrow, cut_of_lt hs]
    exact ⟨rfl, hs⟩

/-- A line that ends in time can be measured. -/
theorem slenLoop_eq (e : Editor) {r : Nat} (hr : r < edLines) (n : Nat) {i : Nat}
    (hi : i + n = edCols) (h : (CString.text (e.edBuf r) n i).length < n) :
    slenLoop e r (n + 1) i = some (i + (CString.text (e.edBuf r) n i).length) := by
  induction n generalizing i with
  | zero => exact absurd h (Nat.not_lt_zero _)
  | succ n ih =>
    have hget : e.get r i = some (e.edBuf r i) := if_pos ⟨hr, by omega⟩
    rw [slenLoop, hget]
    show (if e.edBuf r i = 0 then _ else _) = _
    by_cases hc : e.edBuf r i = 0
    · rw [if_pos hc, text_succ_of_eq_zero hc]
      rfl
    · rw [text_succ_of_ne_zero hc, List.length_cons] at h ⊢
      rw [if_neg hc, ih (by omega) (by omega), Nat.add_assoc, Nat.add_comm 1]

theorem writeLines_eq (h : e.Holds lines) (count : Nat) {r : Nat} (hr : r + count ≤ lines.length) :
    writeLines e count r = some () := by
  induction count generalizing r with
  | zero => rfl
  | succ count ih =>
    have hlen := h.length_le
    obtain ⟨htext, hlt⟩ := h.row r _ (List.getElem?_eq_getElem (show r < lines.length by omega))
    rw [writeLines, slen, slenLoop_eq e (by omega) edCols (Nat.zero_add _)
      (by rw [htext]; exact hlt)]
    exact ih (by omega)

end Editor.Holds

/-! ## Loading -/

/-- In the middle of a file: these lines are done, and these characters of the next one. -/
structure Loading (e : Editor) (current : List UInt8) (done : List Line) : Prop where
  holds : e.Holds done
  length_lt : done.length < edLines
  char : ∀ j c, current[j]? = some c → e.edBuf done.length j = c
  current_lt : current.length < edCols

theorem put_eq {e : Editor} {r c : Nat} (hr : r < edLines) (hc : c < edCols) (x : UInt8) :
    e.put r c x =
      some { e with edBuf := Function.update e.edBuf r (Function.update (e.edBuf r) c x) } :=
  if_pos ⟨hr, hc⟩

/-- A character in the line behind the last one. -/
theorem Editor.Holds.put {e : Editor} {lines : List Line} (h : e.Holds lines)
    (hlt : lines.length < edLines) {c : Nat} (hc : c < edCols) (x : UInt8) :
    ∃ e', e.put e.edN c x = some e' ∧ e'.Holds lines ∧
      e'.edBuf lines.length = Function.update (e.edBuf lines.length) c x := by
  refine ⟨_, put_eq (by rw [h.edN]; exact hlt) hc x, ⟨h.edN, h.length_le, fun r s hr => ?_⟩, ?_⟩
  · have hr' := (List.getElem?_eq_some_iff.mp hr).1
    dsimp only
    rw [Function.update_of_ne (by rw [h.edN]; omega)]
    exact h.row r s hr
  · dsimp only
    rw [h.edN, Function.update_self]

namespace Loading

variable {e : Editor} {current : List UInt8} {done : List Line}

/-- The line is ended with a zero. -/
theorem finish (h : Loading e current done) :
    ∃ e', endLine e current.length = some e' ∧ e'.Holds (done ++ [upToZero current]) := by
  have hput := put_eq (e := e) (show e.edN < edLines by rw [h.holds.edN]; exact h.length_lt)
    h.current_lt 0
  rw [endLine, hput]
  refine ⟨_, rfl, h.holds.append h.length_lt ?_ ?_⟩
  · rw [text_eq_of_list (s := current) (i := 0)]
    · exact List.take_of_length_le
        (Nat.le_trans (List.takeWhile_prefix _).length_le (Nat.le_of_lt h.current_lt))
    · intro j c hj
      have hlt := (List.getElem?_eq_some_iff.mp hj).1
      rw [Nat.zero_add, Function.update_of_ne (Nat.ne_of_lt hlt), h.holds.edN]
      exact h.char j c hj
    · rw [Nat.zero_add, Function.update_self]
  · exact Nat.lt_of_le_of_lt (List.takeWhile_prefix _).length_le h.current_lt

/-- One more character of the line. -/
theorem putChar (h : Loading e current done) (hlen : current.length < edCols - 1) (c : UInt8) :
    ∃ e', e.put e.edN current.length c = some e' ∧ Loading e' (current ++ [c]) done := by
  obtain ⟨e', hput, hholds, hrow⟩ := h.holds.put h.length_lt h.current_lt c
  refine ⟨e', hput, hholds, h.length_lt, fun j d hj => ?_, ?_⟩
  · rw [hrow]
    rcases Nat.lt_trichotomy j current.length with hlt | rfl | hgt
    · rw [List.getElem?_append_left hlt] at hj
      rw [Function.update_of_ne (Nat.ne_of_lt hlt)]
      exact h.char j d hj
    · rw [List.getElem?_append_right (Nat.le_refl _), Nat.sub_self] at hj
      rw [Function.update_self]
      exact Option.some.inj hj
    · rw [List.getElem?_eq_none (by rw [List.length_append]; exact hgt)] at hj
      cases hj
  · rw [List.length_append]
    exact Nat.add_lt_of_lt_sub hlen

/-- An empty line behind the last one. -/
theorem start (h : e.Holds done) (hlt : done.length < edLines) :
    ∃ e', e.put e.edN 0 0 = some e' ∧ Loading e' [] done := by
  obtain ⟨e', hput, hholds, -⟩ := h.put hlt (show 0 < edCols by decide) 0
  exact ⟨e', hput, hholds, hlt, nofun, by decide⟩

/-- **The loop of `ed_load`.** -/
theorem loop (file : List UInt8) (h : Loading e current done) :
    ∃ e', edLoadLoop file current.length e = some e' ∧ e'.Holds (linesOf file current done) := by
  induction file generalizing e current done with
  | nil =>
    rw [edLoadLoop, linesOf]
    by_cases hc : current = []
    · subst hc
      exact ⟨e, rfl, h.holds⟩
    · rw [if_pos (List.length_pos_iff.mpr hc), if_pos hc]
      exact h.finish
  | cons c file ih =>
    rw [edLoadLoop, linesOf]
    by_cases hr : c = 13
    · rw [if_pos hr, if_pos hr]
      exact ih h
    rw [if_neg hr, if_neg hr]
    by_cases hbreak : c = 10 ∨ current.length ≥ edCols - 1
    · obtain ⟨e₁, hend, hholds⟩ := h.finish
      rw [if_pos hbreak, if_pos hbreak, hend]
      show ∃ e', (if e₁.edN ≥ edLines then _ else _) = some e' ∧ _
      rw [hholds.edN]
      by_cases hfull : (done ++ [upToZero current]).length ≥ edLines
      · rw [if_pos hfull, if_pos hfull]
        exact ⟨e₁, rfl, hholds⟩
      · obtain ⟨e₂, hput, hload⟩ := start hholds (Nat.lt_of_not_le hfull)
        rw [hholds.edN] at hput
        rw [if_neg hfull, if_neg hfull, hput]
        show ∃ e', (if c ≠ 10 then _ else _) = some e' ∧ _
        by_cases hc : c ≠ 10
        · obtain ⟨e₃, hput₃, hload₃⟩ := hload.putChar (by decide) c
          rw [if_pos hc, if_pos hc]
          show ∃ e', (e₂.put e₂.edN 0 c).bind _ = some e' ∧ _
          rw [show e₂.put e₂.edN 0 c = some e₃ from hput₃]
          exact ih hload₃
        · rw [if_neg hc, if_neg hc]
          exact ih hload
    · obtain ⟨e', hput, hload⟩ := h.putChar (by omega) c
      have hih := ih hload
      rw [List.length_append] at hih
      rw [if_neg hbreak, if_neg hbreak, hput]
      exact hih

end Loading

/-- **A file that is loaded.** -/
theorem edLoad_eq (file : Option (List UInt8)) (e : Editor) :
    ∃ e', edLoad file e = some e' ∧ e'.Holds (Doc.opened file).lines := by
  have hempty : { e with edN := 0 }.Holds [] := ⟨rfl, Nat.zero_le _, nofun⟩
  obtain ⟨e₁, hput, hload⟩ := Loading.start hempty (by decide)
  have hput' : ({ e with edN := 0 } : Editor).put 0 0 0 = some e₁ := hput
  rw [edLoad, hput']
  cases file with
  | none => exact ⟨e₁, rfl, hload.holds⟩
  | some file => exact hload.loop file

/-! ## Commands -/

/-- What is waited for concerns a line that is there. -/
def Doc.Wf (d : Doc) : Prop :=
  match d.mode with
  | .insertText k => k ≤ d.lines.length ∧ d.lines.length < edLines
  | .replaceText k => k < d.lines.length
  | _ => True

/-- The editor has got to a state that represents the document. -/
def Reaches (x : Option Editor) (d : Doc) : Prop := ∃ e, x = some e ∧ e.Represents d ∧ d.Wf

section Commands

variable {e : Editor} {d : Doc} {s : Line}

theorem view_of_command (h : d.mode = .command) : d.view = d.lines := by rw [Doc.view, h]

theorem Editor.Represents.holds_lines (h : e.Represents d) (hm : d.mode = .command) :
    e.Holds d.lines := by
  rw [← view_of_command hm]
  exact h.holds

theorem reaches_self (h : e.Represents d) (hm : d.mode = .command) : Reaches (some e) d :=
  ⟨e, rfl, h, by rw [Doc.Wf, hm]; trivial⟩

/-- The command `d`. -/
theorem deleteLine_eq (h : e.Represents d) (hm : d.mode = .command) (hs : Shows e.line s)
    (hlen : 2 ≤ s.length) (hsmall : number (s.drop 2) < 2 ^ 31) :
    Reaches (deleteLine e) (d.delete (number (s.drop 2))) := by
  have hholds := h.holds_lines hm
  have hn := hholds.edN
  rw [deleteLine, edNum_eq hs hlen hsmall, Doc.delete]
  generalize number (s.drop 2) = n at hsmall
  show Reaches (if (n : Int) - 1 < 0 ∨ (n : Int) - 1 ≥ e.edN then _ else _) _
  by_cases hk : 1 ≤ n ∧ n ≤ d.lines.length
  · have htoNat : ((n : Int) - 1).toNat = n - 1 := by omega
    rw [if_neg (by omega), if_pos hk, htoNat]
    have hle := hholds.length_le
    obtain ⟨buf, hbuf, hrow⟩ := shiftUp_eq (e.edN - 1 - (n - 1)) (j := n - 1) e (by omega)
    rw [hbuf]
    refine ⟨_, rfl, ⟨?_, h.mode, rfl⟩, by rw [Doc.Wf]; simp only [hm]⟩
    rw [Doc.view]
    simp only [hm]
    rw [hn] at hrow
    exact hholds.erase (by omega) hrow rfl rfl
  · rw [if_pos (by omega), if_neg hk]
    exact reaches_self h hm

/-- The command `i`, up to its text. -/
theorem insertLine_eq (h : e.Represents d) (hm : d.mode = .command) (hs : Shows e.line s)
    (hlen : 2 ≤ s.length) (hsmall : number (s.drop 2) < 2 ^ 31) :
    Reaches (insertLine e) (d.insert (number (s.drop 2))) := by
  have hholds := h.holds_lines hm
  have hn := hholds.edN
  rw [insertLine, edNum_eq hs hlen hsmall, Doc.insert]
  generalize number (s.drop 2) = n at hsmall
  show Reaches (if (n : Int) - 1 < 0 ∨ (n : Int) - 1 > e.edN ∨ e.edN ≥ edLines then _ else _) _
  by_cases hk : (1 ≤ n ∧ n ≤ d.lines.length + 1) ∧ d.lines.length < edLines
  · have htoNat : ((n : Int) - 1).toNat = n - 1 := by omega
    rw [if_neg (by omega), if_pos hk, htoNat]
    obtain ⟨buf, hbuf, hrow⟩ :=
      shiftDown_eq (e.edN - (n - 1)) (j := e.edN) e (by omega) (by omega)
    rw [hbuf]
    show Reaches (({ e with edBuf := buf } : Editor).put (n - 1) 0 0 >>= _) _
    rw [put_eq (show n - 1 < edLines by omega) (show 0 < edCols by decide)]
    refine ⟨_, rfl, ⟨?_, rfl, h.dirty⟩, by rw [Doc.Wf]; exact ⟨Nat.sub_le_of_le_add hk.1.2, hk.2⟩⟩
    rw [Doc.view]
    refine hholds.insert (by omega) hk.2 (fun r hr => ?_) ?_ rfl rfl
    · rw [rowText_update, if_neg hr, hrow r, hn]
    · rw [rowText_update, if_pos rfl]
      exact text_succ_of_eq_zero (Function.update_self _ _ _) _
  · rw [if_pos (by omega), if_neg hk]
    exact reaches_self h hm

/-- The command that is a number, up to its text. -/
theorem replaceLine_eq (h : e.Represents d) (hm : d.mode = .command) (hs : Shows e.line s)
    (hsmall : number s < 2 ^ 31) : Reaches (replaceLine e) (d.replace (number s)) := by
  have hn := (h.holds_lines hm).edN
  have hnum := edNum_eq hs (Nat.zero_le _) hsmall
  rw [List.drop_zero] at hnum
  rw [replaceLine, hnum, Doc.replace]
  generalize number s = n at hsmall
  show Reaches (if (n : Int) - 1 < 0 ∨ (n : Int) - 1 ≥ e.edN then _ else _) _
  by_cases hk : 1 ≤ n ∧ n ≤ d.lines.length
  · have htoNat : ((n : Int) - 1).toNat = n - 1 := by omega
    rw [if_neg (by omega), if_pos hk, htoNat]
    refine ⟨_, rfl, ⟨?_, rfl, h.dirty⟩, ?_⟩
    · rw [Doc.view]
      exact (h.holds_lines hm).congr rfl rfl
    · rw [Doc.Wf]
      show n - 1 < d.lines.length
      omega
  · rw [if_pos (by omega), if_neg hk]
    exact reaches_self h hm

/-- The commands of a single word. -/
theorem wordCommand_eq (h : e.Holds d.lines) (hs : Shows e.line s) (saves : Bool) :
    wordCommand e saves = some (
      if s = [113] then some (if e.dirty then e else { e with mode := .ended })
      else if s = [113, 33] then some { e with mode := .ended }
      else if s = [112] then some e
      else if s = [119] then some { e with dirty := e.dirty && !saves }
      else if s = [97] then some { e with mode := .append }
      else none) := by
  have hwrite : writeLines e e.edN 0 = some () := h.writeLines_eq _ (by rw [Nat.zero_add, h.edN])
  rw [wordCommand, streq_eq hs (by simp)]
  by_cases h₁ : s = [113]
  · rw [if_pos h₁, decide_eq_true h₁]
    rfl
  rw [if_neg h₁, decide_eq_false h₁, streq_eq hs (by simp)]
  by_cases h₂ : s = [113, 33]
  · rw [if_pos h₂, decide_eq_true h₂]
    rfl
  rw [if_neg h₂, decide_eq_false h₂, streq_eq hs (by simp)]
  by_cases h₃ : s = [112]
  · rw [if_pos h₃, decide_eq_true h₃, hwrite]
    rfl
  rw [if_neg h₃, decide_eq_false h₃, streq_eq hs (by simp)]
  by_cases h₄ : s = [119]
  · rw [if_pos h₄, decide_eq_true h₄, hwrite]
    rfl
  rw [if_neg h₄, decide_eq_false h₄, streq_eq hs (by simp)]
  by_cases h₅ : s = [97]
  · rw [if_pos h₅, decide_eq_true h₅]
    rfl
  · rw [if_neg h₅, decide_eq_false h₅]
    rfl

/-- The commands with a line number, and the rest. -/
theorem numberCommand_eq (h : e.Represents d) (hm : d.mode = .command) (hs : Shows e.line s)
    (hne : s ≠ []) (hsmall : Doc.typedNumber s < 2 ^ 31) :
    Reaches (numberCommand e)
      (if s.getD 0 0 = 100 ∧ s.getD 1 0 = 32 then d.delete (number (s.drop 2))
      else if s.getD 0 0 = 105 ∧ s.getD 1 0 = 32 then d.insert (number (s.drop 2))
      else if 49 ≤ s.getD 0 0 ∧ s.getD 0 0 ≤ 57 then d.replace (number s)
      else d) := by
  have hpos : 1 ≤ s.length := List.length_pos_iff.mpr hne
  have hread : ∀ i ≤ 1, e.lineAt i = some (s.getD i 0) := fun i hi => by
    rw [← hs.getD (Nat.le_trans hi hpos)]
    exact if_pos (Nat.lt_of_le_of_lt hi (by decide))
  -- a blank in the second place is not the zero behind the line
  have hlen : s.getD 1 0 = 32 → 2 ≤ s.length := fun h32 => by
    by_contra hlt
    rw [List.getD_eq_default _ _ (by omega)] at h32
    cases h32
  rw [numberCommand, hread 0 (by decide), hread 1 (by decide)]
  rw [Doc.typedNumber] at hsmall
  show Reaches (if _ then _ else _) _
  by_cases hdel : s.getD 0 0 = 100 ∧ s.getD 1 0 = 32
  · rw [if_pos ⟨.inl hdel.1, hdel.2⟩] at hsmall
    rw [if_pos hdel, if_pos hdel]
    exact deleteLine_eq h hm hs (hlen hdel.2) hsmall
  rw [if_neg hdel, if_neg hdel]
  by_cases hins : s.getD 0 0 = 105 ∧ s.getD 1 0 = 32
  · rw [if_pos ⟨.inr hins.1, hins.2⟩] at hsmall
    rw [if_pos hins, if_pos hins]
    exact insertLine_eq h hm hs (hlen hins.2) hsmall
  rw [if_neg hins, if_neg hins]
  by_cases hnum : 49 ≤ s.getD 0 0 ∧ s.getD 0 0 ≤ 57
  · rw [if_neg (fun h => h.1.elim (fun h' => hdel ⟨h', h.2⟩) fun h' => hins ⟨h', h.2⟩),
      if_pos hnum] at hsmall
    rw [if_pos hnum, if_pos hnum]
    exact replaceLine_eq h hm hs hsmall
  · rw [if_neg hnum, if_neg hnum]
    exact reaches_self h hm

end Commands

/-! ## Turns -/

section Turns

variable {e : Editor} {d : Doc}

/-- A line is read and nothing else changed. -/
theorem Editor.Represents.read (h : e.Represents d) (t : Typed) :
    ∃ e', readLine e t.bytes = some ((strip t.bytes).length, e') ∧ Shows e'.line (strip t.bytes) ∧
      e'.Represents d := by
  obtain ⟨l, hread, hs⟩ := readLine_eq e t
  exact ⟨_, hread, hs, h.holds.congr rfl rfl, h.mode, h.dirty⟩

/-- A change of the mode that leaves the lines as they stand. -/
theorem Editor.Holds.reaches_mode (h : e.Holds d.lines) (hd : e.dirty = d.dirty) {m : Mode}
    (hview : ({ d with mode := m } : Doc).view = d.lines) (hwf : ({ d with mode := m } : Doc).Wf) :
    Reaches (some { e with mode := m }) { d with mode := m } :=
  ⟨_, rfl, ⟨by rw [hview]; exact h.congr rfl rfl, rfl, hd⟩, hwf⟩

/-- A command in `line`. -/
theorem runCommand_eq {s : Line} (h : e.Represents d) (hm : d.mode = .command)
    (hs : Shows e.line s) (hsmall : Doc.typedNumber s < 2 ^ 31) (saves : Bool) :
    Reaches (runCommand s.length saves e) (d.obey s saves) := by
  have hholds := h.holds_lines hm
  rw [runCommand, Doc.obey]
  by_cases hnil : s = []
  · rw [if_pos (List.length_eq_zero_iff.mpr hnil), if_pos hnil]
    exact reaches_self h hm
  rw [if_neg (fun h0 => hnil (List.length_eq_zero_iff.mp h0)), if_neg hnil,
    wordCommand_eq hholds hs]
  by_cases h₁ : s = [113]
  · rw [if_pos h₁, if_pos h₁]
    by_cases hd : d.dirty
    · rw [if_pos hd, if_pos (h.dirty.trans hd)]
      exact reaches_self h hm
    · rw [if_neg hd, if_neg (h.dirty ▸ hd)]
      exact hholds.reaches_mode h.dirty rfl trivial
  rw [if_neg h₁, if_neg h₁]
  by_cases h₂ : s = [113, 33]
  · rw [if_pos h₂, if_pos h₂]
    exact hholds.reaches_mode h.dirty rfl trivial
  rw [if_neg h₂, if_neg h₂]
  by_cases h₃ : s = [112]
  · rw [if_pos h₃, if_pos h₃]
    exact reaches_self h hm
  rw [if_neg h₃, if_neg h₃]
  by_cases h₄ : s = [119]
  · rw [if_pos h₄, if_pos h₄, ← h.dirty]
    exact ⟨_, rfl, ⟨by rw [view_of_command (by exact hm)]; exact hholds.congr rfl rfl, h.mode, rfl⟩,
      by rw [Doc.Wf]; simp only [hm]⟩
  rw [if_neg h₄, if_neg h₄]
  by_cases h₅ : s = [97]
  · rw [if_pos h₅, if_pos h₅]
    exact hholds.reaches_mode h.dirty rfl trivial
  rw [if_neg h₅, if_neg h₅]
  exact numberCommand_eq h hm hs hnil hsmall

theorem commandTurn_eq (h : e.Represents d) (hm : d.mode = .command) (t : Typed)
    (hsmall : Doc.typedNumber (strip t.bytes) < 2 ^ 31) : Reaches (commandTurn e t) (d.type t) := by
  rw [commandTurn, Doc.type]
  simp only [hm]
  by_cases hb : t.bytes = []
  · rw [if_pos hb, if_pos hb]
    exact (h.holds_lines hm).reaches_mode h.dirty rfl trivial
  · obtain ⟨e', hread, hs, h'⟩ := h.read t
    rw [if_neg hb, if_neg hb, hread]
    exact runCommand_eq h' hm hs hsmall t.saves

/-- A copy of what was typed. -/
theorem scopy_line {s : Line} (hs : Shows e.line s) {k : Nat} (hk : k < edLines) :
    ∃ g, scopy k (fun e => e.lineAt) e = some { e with edBuf := Function.update e.edBuf k g } ∧
      text g edCols 0 = cut s := by
  obtain ⟨g, hg, htext⟩ := scopy_eq hk (source_line k e)
  exact ⟨g, hg, htext.trans (hs.text _)⟩

theorem appendTurn_eq (h : e.Represents d) (hm : d.mode = .append) (t : Typed) :
    Reaches (appendTurn e t) (d.type t) := by
  have hview : d.view = d.lines := by rw [Doc.view, hm]
  rw [appendTurn, Doc.type]
  simp only [hm]
  by_cases hb : t.bytes = []
  · rw [if_pos hb, if_pos (.inl hb)]
    exact (hview ▸ h.holds).reaches_mode h.dirty rfl trivial
  obtain ⟨e', hread, hs, h'⟩ := h.read t
  have hholds : e'.Holds d.lines := hview ▸ h'.holds
  have hstop : Reaches (some { e' with mode := .command }) { d with mode := .command } :=
    hholds.reaches_mode h'.dirty rfl trivial
  rw [if_neg hb, hread]
  show Reaches (appendLine e') _
  rw [appendLine, streq_eq hs (by simp)]
  by_cases hdot : strip t.bytes = [46]
  · rw [decide_eq_true hdot, if_pos (Or.inr (Or.inl hdot))]
    exact hstop
  rw [decide_eq_false hdot]
  show Reaches (if e'.edN ≥ edLines then _ else _) _
  by_cases hfull : d.lines.length ≥ edLines
  · rw [if_pos (by rw [hholds.edN]; exact hfull), if_pos (Or.inr (Or.inr hfull))]
    exact hstop
  · have hlt : d.lines.length < edLines := Nat.lt_of_not_le hfull
    obtain ⟨g, hg, htext⟩ := scopy_line hs (show e'.edN < edLines by rw [hholds.edN]; exact hlt)
    rw [if_neg (by rw [hholds.edN]; exact hfull), if_neg (by tauto), hg]
    refine ⟨_, rfl, ⟨?_, h'.mode.trans hm, rfl⟩, trivial⟩
    exact (hholds.append hlt htext (length_cut_lt _)).congr rfl rfl

/-- Text for a line that is there. -/
theorem enterText_eq {lines : List Line} {s : Line} {k : Nat} (h : e.Holds lines)
    (hs : Shows e.line s) (hk : k < lines.length) :
    Reaches (enterText k e) ⟨lines.set k (cut s), .command, true⟩ := by
  obtain ⟨g, hg, htext⟩ := scopy_line hs (Nat.lt_of_lt_of_le hk h.length_le)
  rw [enterText, hg]
  exact ⟨_, rfl, ⟨(h.set hk htext (length_cut_lt _)).congr rfl rfl, rfl, rfl⟩, trivial⟩

/-- The text of an inserted line takes the place of the empty line. -/
theorem set_insertIdx {lines : List Line} {k : Nat} (hk : k ≤ lines.length) (s : Line) :
    (lines.insertIdx k []).set k s = lines.insertIdx k s := by
  apply List.ext_getElem?
  intro r
  have hlen : (lines.insertIdx k []).length = lines.length + 1 :=
    List.length_insertIdx_of_le_length hk _
  rcases Nat.lt_trichotomy r k with hr | rfl | hr
  · rw [List.getElem?_set_ne (by omega), List.getElem?_insertIdx_of_lt hr,
      List.getElem?_insertIdx_of_lt hr]
  · rw [List.getElem?_set_self (by omega), List.getElem?_insertIdx_self, if_pos hk]
  · rw [List.getElem?_set_ne (by omega), List.getElem?_insertIdx_of_gt hr,
      List.getElem?_insertIdx_of_gt hr]

theorem insertTurn_eq {k : Nat} (h : e.Represents d) (hwf : d.Wf) (hm : d.mode = .insertText k)
    (t : Typed) : Reaches (insertTurn e k t) (d.type t) := by
  have hview : d.view = d.lines.insertIdx k [] := by rw [Doc.view, hm]
  have hk : k ≤ d.lines.length := by
    rw [Doc.Wf, hm] at hwf
    exact hwf.1
  rw [insertTurn, Doc.type]
  simp only [hm]
  by_cases hb : t.bytes = []
  · rw [if_pos hb, hb]
    exact ⟨_, rfl, ⟨(hview ▸ h.holds).congr rfl rfl, rfl, rfl⟩, trivial⟩
  · obtain ⟨e', hread, hs, h'⟩ := h.read t
    rw [if_neg hb, hread, ← set_insertIdx hk]
    refine enterText_eq (hview ▸ h'.holds) hs ?_
    rw [List.length_insertIdx_of_le_length hk]
    exact Nat.lt_succ_of_le hk

theorem replaceTurn_eq {k : Nat} (h : e.Represents d) (hwf : d.Wf) (hm : d.mode = .replaceText k)
    (t : Typed) : Reaches (replaceTurn e k t) (d.type t) := by
  have hview : d.view = d.lines := by rw [Doc.view, hm]
  have hk : k < d.lines.length := by
    rw [Doc.Wf, hm] at hwf
    exact hwf
  rw [replaceTurn, Doc.type]
  simp only [hm]
  by_cases hb : t.bytes = []
  · rw [if_pos hb, if_pos hb]
    exact (hview ▸ h.holds).reaches_mode h.dirty rfl trivial
  · obtain ⟨e', hread, hs, h'⟩ := h.read t
    rw [if_neg hb, if_neg hb, hread]
    exact enterText_eq (hview ▸ h'.holds) hs hk

/-- **One turn**, whatever is waited for and whatever is typed. -/
theorem turn_eq (h : e.Represents d) (hwf : d.Wf) (t : Typed)
    (hsmall : d.mode = .command → Doc.typedNumber (strip t.bytes) < 2 ^ 31) :
    Reaches (e.turn t) (d.type t) := by
  rw [Editor.turn, h.mode]
  cases hm : d.mode with
  | command => exact commandTurn_eq h hm t (hsmall hm)
  | append => exact appendTurn_eq h hm t
  | insertText k => exact insertTurn_eq h hwf hm t
  | replaceText k => exact replaceTurn_eq h hwf hm t
  | ended =>
    refine ⟨e, rfl, ?_⟩
    rw [Doc.type]
    simp only [hm]
    exact ⟨h, hwf⟩

/-- **All turns.** -/
theorem turns_eq (typed : List Typed) (h : e.Represents d) (hwf : d.Wf)
    (hsmall : d.SmallNumbers typed) :
    Reaches (typed.foldlM Editor.turn e) (typed.foldl Doc.type d) := by
  induction typed generalizing e d with
  | nil => exact ⟨e, rfl, h, hwf⟩
  | cons t typed ih =>
    obtain ⟨e', hturn, h', hwf'⟩ := turn_eq h hwf t hsmall.1
    rw [List.foldlM_cons, hturn, List.foldl_cons]
    exact ih h' hwf' hsmall.2

end Turns

/-- **The editor keeps a list of lines.**  Whatever is loaded and typed, no access is outside of
the arrays, and the buffer holds the lines of the document. -/
theorem cmdEdit_refines (e : Editor) (file : Option (List UInt8)) (typed : List Typed)
    (hsmall : (Doc.opened file).SmallNumbers typed) :
    ∃ e', cmdEdit e file typed = some e' ∧
      e'.Represents (typed.foldl Doc.type (Doc.opened file)) := by
  obtain ⟨e₀, hload, hholds⟩ := edLoad_eq file e
  have hstart : ({ e₀ with dirty := false, mode := .command } : Editor).Represents
      (Doc.opened file) := ⟨hholds.congr rfl rfl, rfl, rfl⟩
  obtain ⟨e', hturns, h', -⟩ := turns_eq typed hstart trivial hsmall
  rw [cmdEdit, hload]
  exact ⟨e', hturns, h'⟩

/-- The keys `s` and the return key. -/
def Typed.entered (s : List UInt8) (hlen : s.length ≤ edCols) (hs : ∀ c ∈ s, c ≠ 0) : Typed where
  bytes := s ++ [10]
  length_le := by
    rw [List.length_append]
    exact Nat.le_trans (Nat.add_le_add_right hlen 1) (by decide)
  ne_zero := by
    intro c hc
    rcases List.mem_append.mp hc with hc | hc
    · exact hs c hc
    · rw [List.mem_singleton.mp hc]
      decide
  saves := true

/-- A session on a file of two lines: `i 2`, a text, `d 1`. -/
def shortSession : List Typed :=
  [.entered [105, 32, 50] (by decide) (by simp), .entered [120, 121] (by decide) (by simp),
    .entered [100, 32, 49] (by decide) (by simp)]

theorem cmdEdit_refines_shortSession :
    (Doc.opened (some [97, 10, 98])).SmallNumbers shortSession ∧
      (shortSession.foldl Doc.type (Doc.opened (some [97, 10, 98]))).lines = [[120, 121], [98]] ∧
      ∃ e', cmdEdit ⟨fun _ _ => 1, 7, fun _ => 2, true, .ended⟩ (some [97, 10, 98]) shortSession =
          some e' ∧
        e'.Represents (shortSession.foldl Doc.type (Doc.opened (some [97, 10, 98]))) := by
  have hsmall : (Doc.opened (some [97, 10, 98])).SmallNumbers shortSession := by
    refine ⟨fun _ => ?_, fun _ => ?_, fun _ => ?_, trivial⟩ <;> decide
  exact ⟨hsmall, by decide, cmdEdit_refines _ _ _ hsmall⟩

end Ed
end Brsh
end Blackroo
