import Blackroo.Lib.Runs
import Blackroo.Brsh.Shell

/-!
# The working directory

The shell keeps the working directory twice: the kernel has a directory, and `cwd` is a string.
`cd` hands the kernel the string that it then keeps, so the string leads to the kernel's directory
as long as the tree stays as it is (`Located.cd`), however the target was spelled.

`cd ..` does not ask the kernel for a parent.  It takes the last component off the string, and
what is left leads to the parent only if that component was a name: behind a slash at the end,
behind `.` or `..` it does not (`cd_truthful_iff`).

The kernel's side is the walk of `path_walk` over the components of a path, on any tree without
symbolic links; a directory may refuse to be searched.  Taking a component off the string is taking
the last step off that walk (`Located.exists_parts`).  Where this step went down by a name, the
directory before it is the parent.  An empty component or `.` stayed where it was, and `..` went up
itself, so that the directory before it is a child.
-/

namespace Blackroo
namespace Brsh
namespace Shell

open Interaction
open CommandLine (ascii)

/-! ## The kernel's walk -/

/-- What there is at a place of the tree: a directory that may be searched or not, or no
directory. -/
inductive NodeKind where
  | dir (searchable : Bool)
  | other
  deriving DecidableEq, Repr

/-- A place in the tree: the names on the way from the root, the last one first. -/
abbrev Node : Type := List Text

/-- A directory tree without symbolic links. -/
structure DirTree where
  kind : Node → Option NodeKind
  root : ∃ searchable, kind [] = some (.dir searchable)
  parent : ∀ c n, kind (c :: n) ≠ none → ∃ searchable, kind n = some (.dir searchable)

/-- The errors of a walk. -/
inductive Errno where
  | enoent
  | eacces
  | enotdir
  deriving DecidableEq, Repr

/-- What the system call returns. -/
def Errno.code : Errno → Int
  | .enoent => -2
  | .eacces => -13
  | .enotdir => -20

theorem Errno.code_neg (e : Errno) : e.code < 0 := by cases e <;> decide

/-- `"."`. -/
def dot : Text := [46]

/-- `".."`. -/
def dotdot : Text := [46, 46]

/-- The components of a path.  An empty one stands for two slashes side by side, or for one at
either end. -/
def components : Text → List Text
  | [] => [[]]
  | c :: p =>
    if c = slash then [] :: components p
    else
      match components p with
      | [] => [[c]]
      | w :: ws => (c :: w) :: ws

/-- One turn of the loop of `path_walk`. -/
def DirTree.enter (t : DirTree) (n : Node) (c : Text) : Except Errno Node :=
  match t.kind n with
  | some (.dir searchable) =>
    if c = [] then .ok n
    else if !searchable then .error .eacces
    else if c = dot then .ok n
    else if c = dotdot then .ok n.tail
    else if (t.kind (c :: n)).isSome then .ok (c :: n)
    else .error .enoent
  | _ => .error .enotdir

/-- `path_walk` from a directory. -/
def DirTree.walk (t : DirTree) (n : Node) (path : Text) : Except Errno Node :=
  (components path).foldlM t.enter n

/-- A path is walked from the root or from the working directory. -/
def DirTree.lookup (t : DirTree) (n : Node) (path : Text) : Except Errno Node :=
  if path = [] then .error .enoent
  else if path.head? = some slash then t.walk [] path
  else t.walk n path

/-- `S_IFMT`. -/
def sIfmt : Nat := 0o170000

/-- `S_IFDIR`. -/
def sIfdir : Nat := 0o040000

/-- `S_IFREG`. -/
def sIfreg : Nat := 0o100000

def NodeKind.mode : NodeKind → Nat
  | .dir _ => sIfdir
  | .other => sIfreg

/-- `sys_chdir`. -/
def DirTree.chdir (t : DirTree) (n : Node) (path : Text) : Except Errno Node := do
  let m ← t.lookup n path
  match t.kind m with
  | some (.dir true) => .ok m
  | some (.dir false) => .error .eacces
  | _ => .error .enotdir

/-- The kernel, with a tree that does not change.  Its state is the working directory. -/
def DirTree.serve (t : DirTree) : Handler Call Answer Node
  | .path .chdir path, n =>
    match t.chdir n path with
    | .ok m => (0, m)
    | .error e => (e.code, n)
  | .lstat path, n =>
    match t.lookup n path with
    | .ok m => ((0, ((t.kind m).map NodeKind.mode).getD 0), n)
    | .error e => ((e.code, 0), n)
  | .out _, n => ((), n)
  | .path (.mkdir _) _, n | .path .rmdir _, n | .path .unlink _, n | .path (.openFile _ _) _, n
  | .rename _ _, n => (-30, n)
  | .write _ _, n | .close _, n => (-9, n)
  | .read _ _, n => ((-9, []), n)

/-! ## The command -/

/-- The loop of `cd ..`: it stops at the first character or behind a slash. -/
def trimLoop (cwd : Text) : (n : Nat) → Nat
  | 0 => 0
  | n + 1 => if 1 < n + 1 ∧ cwd[n]? ≠ some slash then trimLoop cwd n else n + 1

/-- What `cd ..` makes of `cwd`. -/
def trim (cwd : Text) : Text :=
  let n := trimLoop cwd cwd.length
  let n := if 1 < n then n - 1 else n
  cwd.take (if n ≠ 0 then n else 1)

/-- The argument of `cd`. -/
def cdTarget (args : List Text) : Text := args.head?.getD [slash]

/-- `cmd_cd`.  It returns the new `cwd`. -/
def cmdCd (cwd : Text) (args : List Text) : Program Text :=
  let target := cdTarget args
  if target = dotdot then do
    let _ ← callPath .chdir (trim cwd)
    return trim cwd
  else if target = dot then return cwd
  else do
    let pathbuf := resolve cwd target
    let (r, mode) ← lstat pathbuf
    if r < 0 then
      fail "cd" target r
      return cwd
    else if mode &&& sIfmt ≠ sIfdir then
      out (ascii "brsh: cd " ++ target ++ ascii ": not a directory\n")
      return cwd
    else
      let r ← callPath .chdir pathbuf
      if r < 0 then
        fail "cd" target r
        return cwd
      else return scopy pathbuf 128

/-- The working directory, as the shell and as the kernel have it. -/
structure Place where
  cwd : Text
  node : Node

/-- One `cd`. -/
def Place.cd (t : DirTree) (s : Place) (args : List Text) : Place :=
  let r := Interaction.run t.serve (cmdCd s.cwd args) s.node
  ⟨r.1, r.2⟩

/-- The shell when it starts. -/
def Place.start : Place := ⟨[slash], []⟩

/-! ## Components -/

theorem components_ne_nil (p : Text) : components p ≠ [] := by
  cases p with
  | nil => exact List.cons_ne_nil _ _
  | cons c p =>
    rw [components]
    split
    · exact List.cons_ne_nil _ _
    · split <;> exact List.cons_ne_nil _ _

theorem components_append_slash (a b : Text) :
    components (a ++ slash :: b) = components a ++ components b := by
  induction a with
  | nil => simp [components]
  | cons c a ih =>
    rw [List.cons_append, components, components, ih]
    split
    · rfl
    · obtain ⟨w, ws, hw⟩ := List.exists_cons_of_ne_nil (components_ne_nil a)
      rw [hw]
      rfl

theorem components_of_not_mem {w : Text} (h : slash ∉ w) : components w = [w] := by
  induction w with
  | nil => rfl
  | cons c w ih =>
    obtain ⟨hc, hw⟩ := not_or.mp (List.mem_cons.not.mp h)
    rw [components, if_neg (Ne.symm hc), ih hw]

/-- An absolute path and its last component. -/
theorem exists_last {p : Text} (h : p.head? = some slash) :
    ∃ init last, p = init ++ slash :: last ∧ slash ∉ last := by
  have hmem : slash ∈ p.reverse := List.mem_reverse.mpr (List.mem_of_head? h)
  obtain ⟨last, init, hp, hlast⟩ := List.eq_append_cons_of_mem hmem
  refine ⟨init.reverse, last.reverse, ?_, List.mem_reverse.not.mpr hlast⟩
  rw [← List.reverse_reverse p, hp]
  simp

/-- The loop of `cd ..` gets back to the last slash. -/
theorem trimLoop_eq (init : Text) {last : Text} (h : slash ∉ last) {k : Nat}
    (hk : k ≤ last.length) : trimLoop (init ++ slash :: last) (init.length + 1 + k) =
      init.length + 1 := by
  induction k with
  | zero =>
    rw [Nat.add_zero, trimLoop, if_neg]
    simp
  | succ k ih =>
    have hget : (init ++ slash :: last)[init.length + 1 + k]? = last[k]? := by
      rw [List.getElem?_append_right (by omega),
        show init.length + 1 + k - init.length = k + 1 by omega, List.getElem?_cons_succ]
    have hne : last[k]? ≠ some slash := fun hslash => h (List.mem_of_getElem? hslash)
    rw [← Nat.add_assoc, trimLoop, if_pos ⟨by omega, by rwa [hget]⟩, ih (by omega)]

theorem trim_eq (init : Text) {last : Text} (h : slash ∉ last) :
    trim (init ++ slash :: last) = if init = [] then [slash] else init := by
  have hlen : (init ++ slash :: last).length = init.length + 1 + last.length := by
    rw [List.length_append, List.length_cons]
    omega
  rw [trim, hlen, trimLoop_eq init h le_rfl]
  cases init with
  | nil => rfl
  | cons c init =>
    rw [if_pos (show 1 < (c :: init).length + 1 by simp), Nat.add_sub_cancel,
      if_pos (show (c :: init).length ≠ 0 by simp), if_neg (List.cons_ne_nil _ _), List.take_left]

/-! ## Walks -/

section Walk

variable {t : DirTree} {n m : Node} {c : Text}

/-- What a turn of the walk can do. -/
theorem enter_cases (h : t.enter n c = .ok m) :
    (c = [] ∧ m = n) ∨ t.kind n = some (.dir true) ∧
      ((c = dot ∧ m = n) ∨ (c = dotdot ∧ m = n.tail) ∨
        (c ≠ [] ∧ c ≠ dot ∧ c ≠ dotdot ∧ m = c :: n)) := by
  rw [DirTree.enter] at h
  split at h
  · next searchable hkind =>
      split at h
      · exact .inl ⟨‹_›, (Except.ok.inj h).symm⟩
      · next hnil =>
          split at h
          · cases h
          · next hsearch =>
              right
              refine ⟨by rw [hkind]; simpa using hsearch, ?_⟩
              split at h
              · exact .inl ⟨‹_›, (Except.ok.inj h).symm⟩
              · split at h
                · exact .inr (.inl ⟨‹_›, (Except.ok.inj h).symm⟩)
                · split at h
                  · exact .inr (.inr ⟨hnil, ‹_›, ‹_›, (Except.ok.inj h).symm⟩)
                  · cases h
  · cases h

theorem enter_nil_of_dir {searchable : Bool} (h : t.kind n = some (.dir searchable)) :
    t.enter n [] = .ok n := by
  rw [DirTree.enter, h]
  rfl

/-- A walk along one component more. -/
theorem walk_append_slash (t : DirTree) (n : Node) (init : Text) {last : Text} (h : slash ∉ last) :
    t.walk n (init ++ slash :: last) = (t.walk n init).bind fun m => t.enter m last := by
  rw [DirTree.walk, components_append_slash, components_of_not_mem h, List.foldlM_append]
  show Except.bind _ _ = Except.bind _ _
  congr 1
  funext m
  rw [List.foldlM_cons]
  cases t.enter m last <;> rfl

end Walk

/-! ## The two working directories -/

/-- The string leads to the directory that the kernel has. -/
structure Located (t : DirTree) (s : Place) : Prop where
  absolute : s.cwd.head? = some slash
  length_le : s.cwd.length ≤ 127
  walk : t.walk [] s.cwd = .ok s.node
  dir : ∃ searchable, t.kind s.node = some (.dir searchable)
  /-- The kernel lets nobody into a directory that may not be searched, but may start there. -/
  searchable : s = .start ∨ t.kind s.node = some (.dir true)

theorem walk_nil (t : DirTree) (n : Node) : t.walk n [] = t.enter n [] := by
  rw [DirTree.walk, components, List.foldlM_cons]
  cases t.enter n [] <;> rfl

theorem walk_root (t : DirTree) : t.walk [] [slash] = .ok [] := by
  obtain ⟨searchable, h⟩ := t.root
  have hslash : [slash] = ([] : Text) ++ slash :: [] := rfl
  rw [hslash, walk_append_slash t [] [] List.not_mem_nil, walk_nil, enter_nil_of_dir h]
  exact enter_nil_of_dir h

theorem Located.start (t : DirTree) : Located t .start where
  absolute := rfl
  length_le := by decide
  walk := walk_root t
  dir := t.root
  searchable := .inl rfl

theorem chdir_eq_ok_iff {t : DirTree} {n m : Node} {path : Text} :
    t.chdir n path = .ok m ↔ t.lookup n path = .ok m ∧ t.kind m = some (.dir true) := by
  rw [DirTree.chdir]
  cases t.lookup n path with
  | error e => exact ⟨fun h => (nomatch h), fun h => (nomatch h.1)⟩
  | ok m' =>
    show (match t.kind m' with
      | some (.dir true) => Except.ok m'
      | some (.dir false) => .error Errno.eacces
      | _ => .error Errno.enotdir) = Except.ok m ↔ _
    constructor
    · intro h
      split at h
      · obtain rfl := Except.ok.inj h
        exact ⟨rfl, ‹_›⟩
      · cases h
      · cases h
    · rintro ⟨hm, hkind⟩
      obtain rfl := Except.ok.inj hm
      rw [hkind]

theorem lookup_of_absolute {t : DirTree} {path : Text} (n : Node) (h : path.head? = some slash) :
    t.lookup n path = t.walk [] path := by
  rw [DirTree.lookup, if_neg, if_pos h]
  rintro rfl
  cases h

/-! ## What `cd` does -/

theorem cd_dotdot {t : DirTree} {s : Place} {args : List Text} (h : cdTarget args = dotdot) :
    s.cd t args = ⟨trim s.cwd, (t.serve (.path .chdir (trim s.cwd)) s.node).2⟩ := by
  rw [Place.cd, cmdCd, if_pos h]
  rfl

theorem run_lstat (t : DirTree) (path : Text) (n : Node) :
    ∃ r mode, Interaction.run t.serve (lstat path) n = ((r, mode), n) := by
  have hrun : Interaction.run t.serve (lstat path) n = t.serve (.lstat path) n := rfl
  rw [hrun, DirTree.serve]
  cases t.lookup n path with
  | ok m => exact ⟨_, _, rfl⟩
  | error e => exact ⟨_, _, rfl⟩

/-- With another target `cd` does nothing, or it keeps the path that the kernel has gone to. -/
theorem cd_cases {t : DirTree} {s : Place} {args : List Text} (h : cdTarget args ≠ dotdot) :
    s.cd t args = s ∨ ∃ m, t.chdir s.node (resolve s.cwd (cdTarget args)) = .ok m ∧
      s.cd t args = ⟨scopy (resolve s.cwd (cdTarget args)) 128, m⟩ := by
  rw [Place.cd, cmdCd, if_neg h]
  by_cases hdot : cdTarget args = dot
  · rw [if_pos hdot]
    exact .inl rfl
  · rw [if_neg hdot]
    generalize resolve s.cwd (cdTarget args) = pathbuf
    obtain ⟨r, mode, hlstat⟩ : ∃ r mode,
        Interaction.run t.serve (lstat pathbuf) s.node = ((r, mode), s.node) :=
          run_lstat t pathbuf _
    rw [run_bind, hlstat]
    dsimp only
    by_cases hr : r < 0
    · rw [if_pos hr]
      exact .inl rfl
    · rw [if_neg hr]
      by_cases hmode : mode &&& sIfmt = sIfdir
      · rw [if_neg (not_not.mpr hmode), run_bind]
        have hchdir : Interaction.run t.serve (callPath .chdir pathbuf) s.node =
          t.serve (.path .chdir pathbuf) s.node := rfl
        rw [hchdir, DirTree.serve]
        cases ht : t.chdir s.node pathbuf with
        | ok m => exact .inr ⟨m, rfl, rfl⟩
        | error e =>
          dsimp only
          rw [if_pos e.code_neg]
          exact .inl rfl
      · rw [if_pos hmode]
        exact .inl rfl

/-- The string without its last component leads to the directory that the walk came through last. -/
theorem Located.exists_parts {t : DirTree} {s : Place} (h : Located t s) : ∃ init last m,
    s.cwd = init ++ slash :: last ∧ slash ∉ last ∧ t.walk [] (trim s.cwd) = .ok m ∧
      t.enter m last = .ok s.node := by
  obtain ⟨init, last, hcwd, hlast⟩ := exists_last h.absolute
  have hwalk := h.walk
  rw [hcwd, walk_append_slash t [] init hlast] at hwalk
  cases hinit : t.walk [] init with
  | error e =>
    rw [hinit] at hwalk
    cases hwalk
  | ok m =>
    rw [hinit] at hwalk
    refine ⟨init, last, m, hcwd, hlast, ?_, hwalk⟩
    rw [hcwd, trim_eq init hlast]
    split
    · next hnil =>
        obtain ⟨searchable, hroot⟩ := t.root
        rw [hnil, walk_nil, enter_nil_of_dir hroot] at hinit
        rw [walk_root, hinit]
    · exact hinit

theorem head?_trim {p : Text} (h : p.head? = some slash) : (trim p).head? = some slash := by
  obtain ⟨init, last, rfl, hlast⟩ := exists_last h
  rw [trim_eq init hlast]
  split
  · rfl
  · next hnil =>
      obtain ⟨c, init, rfl⟩ := List.exists_cons_of_ne_nil hnil
      exact h

/-- **`cd ..` goes to the directory that the trimmed string leads to.** -/
theorem Located.cd_dotdot_node {t : DirTree} {s : Place} (h : Located t s) {args : List Text}
    (hargs : cdTarget args = dotdot) : t.walk [] (trim s.cwd) = .ok (s.cd t args).node ∧
      (s.cd t args = .start ∨ t.kind (s.cd t args).node = some (.dir true)) := by
  obtain ⟨init, last, m, hcwd, hlast, htrim, henter⟩ := h.exists_parts
  have hlookup : t.lookup s.node (trim s.cwd) = .ok m := by
    rw [lookup_of_absolute _ (head?_trim h.absolute), htrim]
  have hsearch : s = .start ∨ t.kind m = some (.dir true) := by
    rcases enter_cases henter with ⟨-, hm⟩ | ⟨hkind, -⟩
    · rw [← hm]
      exact h.searchable
    · exact .inr hkind
  rw [cd_dotdot hargs, DirTree.serve]
  rcases hsearch with rfl | hkind
  · -- at the root the string stays as it is, and so does the directory
    have hroot : m = [] := Except.ok.inj (htrim.symm.trans (walk_root t))
    subst hroot
    have hnode : (match t.chdir Place.start.node (trim Place.start.cwd) with
        | .ok m => ((0 : Int), m)
        | .error e => (e.code, Place.start.node)).2 = [] := by
      cases hchdir : t.chdir Place.start.node (trim Place.start.cwd) with
      | ok m' => exact Except.ok.inj ((chdir_eq_ok_iff.mp hchdir).1.symm.trans hlookup)
      | error e => rfl
    rw [hnode]
    exact ⟨htrim, .inl rfl⟩
  · rw [chdir_eq_ok_iff.mpr ⟨hlookup, hkind⟩]
    exact ⟨htrim, .inr hkind⟩

theorem length_trim_le (p : Text) : (trim p).length ≤ p.length := by
  rw [trim, List.length_take]
  exact Nat.min_le_right _ _

theorem head?_joined {cwd : Cwd} (path : Text) (h : cwd.text.head? = some slash) :
    (joined cwd path).head? = some slash := by
  rw [joined]
  split
  · assumption
  · split <;> rw [List.head?_append, h, Option.some_or]

/-- **Every `cd` keeps the string and the directory together.** -/
theorem Located.cd {t : DirTree} {s : Place} (h : Located t s) (args : List Text) :
    Located t (s.cd t args) := by
  have hdir {n : Node} (hwalk : t.kind n = some (.dir true)) :
      ∃ searchable, t.kind n = some (.dir searchable) := ⟨true, hwalk⟩
  by_cases hargs : cdTarget args = dotdot
  · obtain ⟨hwalk, hsearch⟩ := h.cd_dotdot_node hargs
    have hcwd : (s.cd t args).cwd = trim s.cwd := by
      rw [cd_dotdot hargs]
    refine ⟨?_, ?_, ?_, ?_, hsearch⟩
    · rw [hcwd]
      exact head?_trim h.absolute
    · rw [hcwd]
      exact Nat.le_trans (length_trim_le _) h.length_le
    · rw [hcwd]
      exact hwalk
    · rcases hsearch with hstart | hkind
      · rw [hstart]
        exact t.root
      · exact hdir hkind
  · rcases cd_cases (t := t) (s := s) hargs with hsame | ⟨m, hchdir, hcd⟩
    · rw [hsame]
      exact h
    · obtain ⟨hlookup, hkind⟩ := chdir_eq_ok_iff.mp hchdir
      have hne : s.cwd ≠ [] := by
        intro hnil
        have := h.absolute
        rw [hnil] at this
        cases this
      have hresolve := resolve_eq ⟨s.cwd, hne, h.length_le⟩ (cdTarget args)
      dsimp only at hresolve
      have habsolute : (resolve s.cwd (cdTarget args)).head? = some slash := by
        rw [hresolve, List.head?_take, if_neg (by decide)]
        exact head?_joined _ h.absolute
      have hscopy : scopy (resolve s.cwd (cdTarget args)) 128 = resolve s.cwd (cdTarget args) := by
        rw [scopy_eq_take, hresolve, List.take_take]
        rfl
      rw [lookup_of_absolute _ habsolute] at hlookup
      rw [hcd, hscopy]
      refine ⟨habsolute, ?_, hlookup, hdir hkind, .inr hkind⟩
      rw [hresolve]
      exact List.length_take_le _ _

/-! ## The parent -/

/-- The component is a name. -/
def IsName (c : Text) : Prop := c ≠ [] ∧ c ≠ dot ∧ c ≠ dotdot

instance (c : Text) : Decidable (IsName c) := inferInstanceAs (Decidable (_ ∧ _ ∧ _))

def lastComponent (p : Text) : Text := (components p).getLast?.getD []

theorem lastComponent_append_slash (init : Text) {last : Text} (h : slash ∉ last) :
    lastComponent (init ++ slash :: last) = last := by
  rw [lastComponent, components_append_slash, components_of_not_mem h, List.getLast?_concat]
  rfl

/-- Only the root is above itself. -/
theorem eq_drop_succ_iff (m : Node) (k : Nat) : m = m.drop (k + 1) ↔ m = [] := by
  constructor
  · intro h
    have hlen := congrArg List.length h
    rw [List.length_drop] at hlen
    exact List.length_eq_zero_iff.mp (by omega)
  · rintro rfl
    rfl

/-- `cd ..` goes to the parent exactly if it takes a name off, or is at the root then. -/
theorem Located.parent_iff {t : DirTree} {s : Place} (h : Located t s) {args : List Text}
    (hargs : cdTarget args = dotdot) : (s.cd t args).node = s.node.tail ↔
      IsName (lastComponent s.cwd) ∨ t.walk [] (trim s.cwd) = .ok [] := by
  obtain ⟨init, last, m, hcwd, hlast, htrim, henter⟩ := h.exists_parts
  have hnode : (s.cd t args).node = m :=
    (Except.ok.inj (htrim.symm.trans (h.cd_dotdot_node hargs).1)).symm
  have hroot : t.walk [] (trim s.cwd) = .ok [] ↔ m = [] := by
    rw [htrim]
    exact ⟨Except.ok.inj, congrArg _⟩
  rw [hnode, hroot, hcwd, lastComponent_append_slash init hlast]
  rcases enter_cases henter with ⟨rfl, hm⟩ | ⟨-, ⟨rfl, hm⟩ | ⟨rfl, hm⟩ | ⟨hnil, hdot, hdotdot, hm⟩⟩
  · rw [hm, or_iff_right (by decide), ← List.drop_one]
    exact eq_drop_succ_iff m 0
  · rw [hm, or_iff_right (by decide), ← List.drop_one]
    exact eq_drop_succ_iff m 0
  · rw [hm, or_iff_right (by decide), ← List.drop_one, ← List.drop_one, List.drop_drop]
    exact eq_drop_succ_iff m 1
  · rw [hm]
    exact iff_of_true rfl (.inl ⟨hnil, hdot, hdotdot⟩)

/-- The string leads to the kernel's directory. -/
def Place.Truthful (t : DirTree) (s : Place) : Prop := t.walk [] s.cwd = .ok s.node

/-- **What `cd` is to do**: the string and the directory stay together, and `cd ..` goes to the
parent. -/
def CdSound (t : DirTree) (s : Place) (args : List Text) : Prop :=
  (s.cd t args).Truthful t ∧ (cdTarget args = dotdot → (s.cd t args).node = s.node.tail)

/-- Where `cd ..` is used, the string ends in a name, or it leads to the root without its last
component. -/
def UpFromName (t : DirTree) (s : Place) (args : List Text) : Prop :=
  cdTarget args = dotdot → IsName (lastComponent s.cwd) ∨ t.walk [] (trim s.cwd) = .ok []

theorem Located.cdSound_iff {t : DirTree} {s : Place} (h : Located t s) (args : List Text) :
    CdSound t s args ↔ UpFromName t s args := by
  have htruthful : (s.cd t args).Truthful t := (h.cd args).walk
  rw [CdSound, and_iff_right htruthful]
  exact forall_congr' fun hargs => h.parent_iff hargs

/-- **The working directory of the shell.**  Whatever the tree and however the targets are spelled,
the string always leads to the kernel's directory; a sequence of commands goes to parents with
`cd ..` exactly if each of these is used behind a name, or gets to the root. -/
theorem cd_truthful_iff (t : DirTree) (commands : List (List Text)) :
    Runs.Along (fun s args => some (s.cd t args)) (CdSound t) .start commands ↔
      Runs.Along (fun s args => some (s.cd t args)) (UpFromName t) .start commands := by
  have hstep (Q : Place → List Text → Prop) : ∀ s e s', Located t s → Q s e →
      some (s.cd t e) = some s' → Located t s' := by
    rintro s e s' hs - hcd
    rw [← Option.some.inj hcd]
    exact hs.cd e
  constructor
  · exact Runs.Along.of_inv (hstep _) (fun s e hs => (hs.cdSound_iff e).mp) (Located.start t)
  · exact Runs.Along.of_inv (hstep _) (fun s e hs => (hs.cdSound_iff e).mpr) (Located.start t)

/-- A tree with one directory, `/d`. -/
def oneDir : DirTree where
  kind n := if n = [] ∨ n = [ascii "d"] then some (.dir true) else none
  root := ⟨true, rfl⟩
  parent := by
    intro c n h
    refine ⟨true, if_pos ?_⟩
    by_contra hn
    refine h (if_neg ?_)
    rintro (hc | hc)
    · cases hc
    · exact hn (.inl (List.cons.inj hc).2)

/-- `cd d/` and then `cd ..` stays in the directory `/d`. -/
theorem slash_keeps_directory : (Place.start.cd oneDir [ascii "d/"]).node = [ascii "d"] ∧
    ¬ Runs.Along (fun s args => some (s.cd oneDir args)) (CdSound oneDir) .start
      [[ascii "d/"], [dotdot]] := by
  refine ⟨by decide +kernel, fun h => ?_⟩
  exact absurd ((h.2 _ rfl).1.2 rfl) (by decide +kernel)

end Shell
end Brsh
end Blackroo
