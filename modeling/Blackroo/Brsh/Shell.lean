import Mathlib.Data.List.Basic
import Blackroo.Lib.CString
import Blackroo.Lib.Interaction

/-!
# The file commands of the shell

The commands of `brsh` that change files are programs whose questions are system calls.  A name
that is typed becomes a path by `resolve`, which joins it to the working directory with bounded
copies.  `joined` is the path that is meant, and `resolve` is the beginning of it that has room
(`resolve_eq`): nothing tells a command that a path was cut, and the call is made on what is left.

`actsOnNamed_iff` says when the paths that a command hands to the kernel are those of its arguments.
The kernel answers as it likes there (`hands`), since which paths are handed over may depend on the
answers: `cp` opens its second argument only if it could open the first.  The commands that make one
call for each argument are one loop (`eachPath`) with the call as a parameter, so there is one lemma
for them (`yields_each_iff`).
-/

namespace Blackroo
namespace Brsh
namespace Shell

open Interaction
open CommandLine (ascii)

/-! ## Strings -/

/-- A string, without the zero behind it. -/
abbrev Text : Type := List UInt8

/-- `'/'`. -/
def slash : UInt8 := 47

/-- `scopy`: what is in the destination at the end. -/
def scopy : Text → (max : Nat) → Text
  | [], _ => []
  | c :: s, max => if 1 < max then c :: scopy s (max - 1) else []

theorem scopy_eq_take (s : Text) (max : Nat) : scopy s max = s.take (max - 1) := by
  induction s generalizing max with
  | nil => rw [scopy, List.take_nil]
  | cons c s ih =>
    by_cases hmax : 1 < max
    · obtain ⟨n, rfl⟩ : ∃ n, max = n + 2 := ⟨max - 2, by omega⟩
      rw [scopy, if_pos hmax, ih]
      rfl
    · rw [scopy, if_neg hmax, show max - 1 = 0 by omega, List.take_zero]

/-- `outdec`. -/
def outdec (v : Int) : Text := ascii (toString v)

/-! ## System calls -/

/-- The calls that take one path and return a number. -/
inductive PathCall where
  | mkdir (mode : Nat)
  | rmdir
  | unlink
  | chdir
  | openFile (flags mode : Nat)
  deriving DecidableEq, Repr

inductive Call where
  | path (call : PathCall) (path : Text)
  | rename (src dst : Text)
  | lstat (path : Text)
  | read (fd : Int) (count : Nat)
  | write (fd : Int) (bytes : List UInt8)
  | close (fd : Int)
  | out (text : Text)
  deriving DecidableEq, Repr

/-- What a call returns: `lstat` the mode as well, `read` what is in the buffer then. -/
abbrev Answer : Call → Type
  | .path _ _ => Int
  | .rename _ _ => Int
  | .lstat _ => Int × Nat
  | .read _ _ => Int × List UInt8
  | .write _ _ => Int
  | .close _ => Int
  | .out _ => Unit

abbrev Program (α : Type) : Type := Tree Call Answer α

def callPath (c : PathCall) (path : Text) : Program Int := .query (Call.path c path)

def rename (src dst : Text) : Program Int := .query (Call.rename src dst)

def lstat (path : Text) : Program (Int × Nat) := .query (Call.lstat path)

def read (fd : Int) (count : Nat) : Program (Int × List UInt8) := .query (Call.read fd count)

def write (fd : Int) (bytes : List UInt8) : Program Int := .query (Call.write fd bytes)

def close (fd : Int) : Program Int := .query (Call.close fd)

/-- `out`. -/
def out (text : Text) : Program Unit := .query (Call.out text)

/-- `fail`. -/
def fail (what : String) (who : Text) (err : Int) : Program Unit :=
  out (ascii "brsh: " ++ ascii what ++ ascii " " ++ who ++ ascii ": errno " ++ outdec (-err) ++
    ascii "\n")

section Yields

variable {σ : Type} {step : (q : Call) → σ → Answer q → σ → Prop} {s s' : σ}

@[simp] theorem yields_callPath {c : PathCall} {path : Text} {r : Int} :
    Yields step (callPath c path) s r s' ↔ step (.path c path) s r s' := 
  Yields.query_iff (q := Call.path c path)

@[simp] theorem yields_rename {src dst : Text} {r : Int} :
    Yields step (rename src dst) s r s' ↔ step (.rename src dst) s r s' := 
  Yields.query_iff (q := Call.rename src dst)

@[simp] theorem yields_lstat {path : Text} {r : Int × Nat} :
    Yields step (lstat path) s r s' ↔ step (.lstat path) s r s' := 
  Yields.query_iff (q := Call.lstat path)

@[simp] theorem yields_read {fd : Int} {count : Nat} {r : Int × List UInt8} :
    Yields step (read fd count) s r s' ↔ step (.read fd count) s r s' := 
  Yields.query_iff (q := Call.read fd count)

@[simp] theorem yields_write {fd : Int} {bytes : List UInt8} {r : Int} :
    Yields step (write fd bytes) s r s' ↔ step (.write fd bytes) s r s' := 
  Yields.query_iff (q := Call.write fd bytes)

@[simp] theorem yields_close {fd : Int} {r : Int} :
    Yields step (close fd) s r s' ↔ step (.close fd) s r s' := 
  Yields.query_iff (q := Call.close fd)

@[simp] theorem yields_out {text : Text} {u : Unit} :
    Yields step (out text) s u s' ↔ step (.out text) s u s' := 
  Yields.query_iff (q := Call.out text)

end Yields

/-- `O_RDONLY`. -/
def oRdonly : Nat := 0

/-- `O_WRONLY`. -/
def oWronly : Nat := 1

/-- `O_CREAT`. -/
def oCreat : Nat := 0x0100

/-- `O_TRUNC`. -/
def oTrunc : Nat := 0x0200

/-! ## The commands -/

def resolve (cwd path : Text) : Text :=
  if path.head? = some slash then scopy path 128
  else
    let dst := scopy cwd 128
    let dst :=
      if 0 < dst.length ∧ dst.getLast? ≠ some slash ∧ dst.length < 127 then dst ++ [slash] else dst
    dst ++ scopy path (128 - dst.length)

/-- The loop of the commands that make one call for each argument. -/
def eachPath (what : String) (pathCall : PathCall) (cwd : Text) : List Text → Program Unit
  | [] => pure ()
  | a :: args => do
      let r ← callPath pathCall (resolve cwd a)
      if r < 0 then fail what a r
      eachPath what pathCall cwd args

def cmdMkdir (cwd : Text) (args : List Text) : Program Unit :=
  if args = [] then out (ascii "usage: mkdir <dir>...\n") else eachPath "mkdir" (.mkdir 0o755) cwd args

def cmdRm (cwd : Text) (args : List Text) : Program Unit :=
  if args = [] then out (ascii "usage: rm <file>...\n") else eachPath "rm" .unlink cwd args

def cmdRmdir (cwd : Text) (args : List Text) : Program Unit :=
  if args = [] then out (ascii "usage: rmdir <dir>...\n") else eachPath "rmdir" .rmdir cwd args

def cmdMv (cwd : Text) : List Text → Program Unit
  | [a, b] => do
      let r ← rename (resolve cwd a) (resolve cwd b)
      if r < 0 then fail "mv" a r
  | _ => out (ascii "usage: mv <from> <to>\n")

/-- The loop of `cmd_cp`, for a number of turns.  The result is `n`, or nothing if the loop has not
ended by then. -/
def copyLoop (dst : Text) (fdIn fdOut : Int) : (turns : Nat) → Program (Option Int)
  | 0 => pure none
  | turns + 1 => do
      let (n, iobuf) ← read fdIn 1024
      if 0 < n then
        let w ← write fdOut (iobuf.take n.toNat)
        if w ≠ n then
          fail "cp: short write to" dst (if w < 0 then w else 0)
          pure (some n)
        else copyLoop dst fdIn fdOut turns
      else pure (some n)

/-- `cmd_cp`; nothing is returned if its loop takes more turns. -/
def cmdCp (turns : Nat) (cwd : Text) : List Text → Program (Option Unit)
  | [a, b] => do
      let fdIn ← callPath (.openFile oRdonly 0) (resolve cwd a)
      if fdIn < 0 then
        fail "cp" a fdIn
        pure (some ())
      else
        let fdOut ← callPath (.openFile (oWronly ||| oCreat ||| oTrunc) 0o644) (resolve cwd b)
        if fdOut < 0 then
          fail "cp" b fdOut
          let _ ← close fdIn
          pure (some ())
        else
          match ← copyLoop b fdIn fdOut turns with
          | none => pure none
          | some n =>
            if n < 0 then fail "cp: read" a n
            let _ ← close fdIn
            let _ ← close fdOut
            pure (some ())
  | _ => do
      out (ascii "usage: cp <from> <to>\n")
      pure (some ())

/-! ## The input line -/

/-- `split`. -/
def split (line : Text) (maxav : Nat) : List Text := CommandLine.words maxav line

/-- The commands that change files. -/
inductive Command where
  | mkdir
  | rmdir
  | rm
  | cp
  | mv
  deriving DecidableEq, Repr

namespace Command

def name : Command → Text
  | .mkdir => ascii "mkdir"
  | .rmdir => ascii "rmdir"
  | .rm => ascii "rm"
  | .cp => ascii "cp"
  | .mv => ascii "mv"

def program (turns : Nat) (cwd : Text) (args : List Text) : Command → Program (Option Unit)
  | .mkdir => some <$> cmdMkdir cwd args
  | .rmdir => some <$> cmdRmdir cwd args
  | .rm => some <$> cmdRm cwd args
  | .cp => cmdCp turns cwd args
  | .mv => some <$> cmdMv cwd args

/-- The command only says how it is used. -/
def Usage (args : List Text) : Command → Prop
  | .mkdir | .rmdir | .rm => args = []
  | .cp | .mv => args.length ≠ 2

end Command

/-- `run`, as far as these commands go. -/
def run (turns : Nat) (cwd line : Text) : Program (Option Unit) :=
  match split line 16 with
  | [] => pure (some ())
  | w :: args =>
    match [Command.mkdir, .rmdir, .rm, .cp, .mv].find? fun c => w = c.name with
    | none => pure (some ())
    | some c => c.program turns cwd args

theorem run_of_split {turns : Nat} {cwd line : Text} {c : Command} {args : List Text}
    (h : split line 16 = c.name :: args) : run turns cwd line = c.program turns cwd args := by
  have hfind : [Command.mkdir, .rmdir, .rm, .cp, .mv].find? (fun d => c.name = d.name) =
    some c := by
    cases c <;> decide +kernel
  rw [run, h]
  dsimp only
  rw [hfind]

/-! ## The paths that are meant -/

/-- The working directory, as the shell keeps it in 128 characters. -/
structure Cwd where
  text : Text
  ne_nil : text ≠ []
  length_le : text.length ≤ 127

/-- The argument itself if it is absolute, else the working directory and the argument with one
slash in between. -/
def joined (cwd : Cwd) (path : Text) : Text :=
  if path.head? = some slash then path
  else if cwd.text.getLast? = some slash then cwd.text ++ path
  else cwd.text ++ slash :: path

/-- There is room for the path in an array of 128 characters. -/
def Fits (cwd : Cwd) (path : Text) : Prop := (joined cwd path).length ≤ 127

instance (cwd : Cwd) (path : Text) : Decidable (Fits cwd path) :=
  inferInstanceAs (Decidable (_ ≤ _))

/-- **`resolve` is the path that is meant, cut to what has room.** -/
theorem resolve_eq (cwd : Cwd) (path : Text) :
    resolve cwd.text path = (joined cwd path).take 127 := by
  have hcwd : scopy cwd.text 128 = cwd.text := by
    rw [scopy_eq_take, List.take_of_length_le cwd.length_le]
  have hpos : 0 < cwd.text.length := List.length_pos_iff.mpr cwd.ne_nil
  have htake {a b : Text} (ha : a.length ≤ 127) :
      a ++ scopy b (128 - a.length) = (a ++ b).take 127 := by
    rw [scopy_eq_take, List.take_append, List.take_of_length_le ha, Nat.sub_right_comm]
  rw [resolve, joined]
  split
  · rw [scopy_eq_take]
  · rw [hcwd]
    dsimp only
    by_cases hlast : cwd.text.getLast? = some slash
    · rw [if_neg (by simp [hlast]), if_pos hlast, htake cwd.length_le]
    · rw [if_neg hlast]
      by_cases hroom : cwd.text.length < 127
      · rw [if_pos ⟨hpos, hlast, hroom⟩, htake (by rw [List.length_append]; exact hroom),
          List.append_assoc, List.singleton_append]
      · -- a working directory of 127 characters leaves no room for the slash
        have hlen : 127 - cwd.text.length = 0 := Nat.sub_eq_zero_of_le (Nat.not_lt.mp hroom)
        rw [if_neg (by simp [hroom]), htake cwd.length_le, List.take_append, List.take_append, hlen,
          List.take_zero, List.take_zero]

theorem resolve_eq_joined {cwd : Cwd} {path : Text} (h : Fits cwd path) :
    resolve cwd.text path = joined cwd path := by
  rw [resolve_eq, List.take_of_length_le h]

/-! ## The paths that are handed over -/

/-- The paths in a call. -/
def Call.paths : Call → List Text
  | .path _ p => [p]
  | .rename src dst => [src, dst]
  | .lstat p => [p]
  | .read _ _ | .write _ _ | .close _ | .out _ => []

/-- A kernel that answers as it likes, and the paths that it has been handed. -/
def hands (q : Call) (ps : List Text) (_ : Answer q) (ps' : List Text) : Prop := ps' = ps ++ q.paths

/-- **What a file command is to do**: the paths that it hands to the kernel are those of its
arguments, in their order and each for one argument, and only of arguments that fit. -/
def ActsOnNamed (cwd : Cwd) (args : List Text) {α : Type} (p : Program α) : Prop :=
  ∀ a ps, Yields hands p [] a ps → ps.Sublist ((args.filter fun a => Fits cwd a).map (joined cwd))

section Handed

variable {ps ps' : List Text} {α : Type}

@[simp] theorem yields_fail_iff {what : String} {who : Text} {err : Int} {u : Unit} :
    Yields hands (fail what who err) ps u ps' ↔ ps' = ps := by
  simp [fail, hands, Call.paths]

/-- A report in between hands over nothing. -/
theorem yields_report_iff {c : Prop} [Decidable c] {what : String} {who : Text} {err : Int}
    {p : Program α} {a : α} :
    Yields hands (if c then (do fail what who err; p) else p) ps a ps' ↔
      Yields hands p ps a ps' := by
  split
  · simp
  · exact Iff.rfl

theorem yields_eachPath_iff (what : String) (pathCall : PathCall) (cwd : Text) (args : List Text)
    (u : Unit) : Yields hands (eachPath what pathCall cwd args) ps u ps' ↔
      ps' = ps ++ args.map (resolve cwd) := by
  induction args generalizing ps with
  | nil => simp [eachPath]
  | cons a args ih => simp [eachPath, yields_report_iff, ih, hands, Call.paths]

theorem yields_cmdMv_iff (cwd a b : Text) (u : Unit) : Yields hands (cmdMv cwd [a, b]) ps u ps' ↔
    ps' = ps ++ [resolve cwd a, resolve cwd b] := by
  have hreport (r : Int) (ps₁ : List Text) :
      Yields hands (if r < 0 then fail "mv" a r else pure ()) ps₁ u ps' ↔ ps' = ps₁ := by
    split <;> simp
  simp [cmdMv, hreport, hands, Call.paths]

theorem eq_of_yields_copyLoop {dst : Text} {fdIn fdOut : Int} {turns : Nat} {r : Option Int}
    (h : Yields hands (copyLoop dst fdIn fdOut turns) ps r ps') : ps' = ps := by
  induction turns generalizing ps with
  | zero =>
    rw [copyLoop, Yields.pure_iff] at h
    exact h.2
  | succ turns ih =>
    simp only [copyLoop, Yields.bind_iff, yields_read, hands, Call.paths, List.append_nil] at h
    obtain ⟨⟨n, iobuf⟩, ps₁, rfl, h⟩ := h
    split at h
    · simp only [Yields.bind_iff, yields_write, hands, Call.paths, List.append_nil] at h
      obtain ⟨w, ps₂, rfl, h⟩ := h
      split at h
      · simp only [Yields.bind_iff, yields_fail_iff, Yields.pure_iff] at h
        obtain ⟨u, ps₃, rfl, -, rfl⟩ := h
        rfl
      · exact ih h
    · exact (Yields.pure_iff.mp h).2

theorem exists_yields_copyLoop (dst : Text) (fdIn fdOut : Int) (turns : Nat) (ps : List Text) :
    ∃ r, Yields hands (copyLoop dst fdIn fdOut turns) ps r ps := by
  cases turns with
  | zero => exact ⟨none, by simp [copyLoop]⟩
  | succ turns =>
    -- the file is empty
    refine ⟨some 0, ?_⟩
    simp only [copyLoop, Yields.bind_iff, yields_read, hands, Call.paths, List.append_nil]
    exact ⟨(0, []), ps, rfl, by simp⟩

/-- What `cp` hands over: its first argument, and then its second one or not. -/
theorem prefix_of_yields_cmdCp {turns : Nat} {cwd a b : Text} {r : Option Unit}
    (h : Yields hands (cmdCp turns cwd [a, b]) [] r ps) :
    ps <+: [resolve cwd a, resolve cwd b] := by
  simp only [cmdCp, Yields.bind_iff, yields_callPath, hands, Call.paths, List.nil_append] at h
  obtain ⟨fdIn, _, rfl, h⟩ := h
  split at h
  · simp only [Yields.bind_iff, yields_fail_iff, Yields.pure_iff] at h
    obtain ⟨_, _, rfl, -, rfl⟩ := h
    exact ⟨[resolve cwd b], rfl⟩
  · simp only [Yields.bind_iff, yields_callPath, hands, Call.paths, List.singleton_append] at h
    obtain ⟨fdOut, _, rfl, h⟩ := h
    split at h
    · simp only [Yields.bind_iff, yields_fail_iff, yields_close, hands, Call.paths, List.append_nil,
        Yields.pure_iff] at h
      obtain ⟨_, _, rfl, _, _, rfl, -, rfl⟩ := h
      exact List.prefix_rfl
    · simp only [Yields.bind_iff] at h
      obtain ⟨n, ps₁, hloop, h⟩ := h
      obtain rfl := eq_of_yields_copyLoop hloop
      cases n with
      | none =>
        obtain ⟨-, rfl⟩ := Yields.pure_iff.mp h
        exact List.prefix_rfl
      | some n =>
        simp only [yields_report_iff, Yields.bind_iff, yields_close, hands, Call.paths,
          List.append_nil, Yields.pure_iff] at h
        obtain ⟨_, _, rfl, _, _, rfl, -, rfl⟩ := h
        exact List.prefix_rfl

theorem exists_yields_cmdCp (turns : Nat) (cwd a b : Text) :
    ∃ r, Yields hands (cmdCp turns cwd [a, b]) [] r [resolve cwd a, resolve cwd b] := by
  obtain ⟨n, hloop⟩ := exists_yields_copyLoop b 3 4 turns [resolve cwd a, resolve cwd b]
  refine ⟨n.map fun _ => (), ?_⟩
  simp only [cmdCp, Yields.bind_iff, yields_callPath, hands, Call.paths, List.nil_append]
  refine ⟨3, _, rfl, ?_⟩
  rw [if_neg (by decide)]
  simp only [Yields.bind_iff, yields_callPath, hands, Call.paths, List.singleton_append]
  refine ⟨4, _, rfl, ?_⟩
  rw [if_neg (by decide)]
  simp only [Yields.bind_iff]
  refine ⟨n, _, hloop, ?_⟩
  cases n with
  | none => simp
  | some n => simp [yields_report_iff, hands, Call.paths]

end Handed

/-! ## The commands -/

section Commands

variable {turns : Nat} {cwd : Text} {args ps : List Text}

/-- What the commands with one call for each argument hand over. -/
theorem yields_each_iff (what : String) (pathCall : PathCall) (usage : Text) (r : Option Unit) :
    Yields hands (some <$> if args = [] then out usage else eachPath what pathCall cwd args) []
      r ps ↔
      r = some () ∧ ps = args.map (resolve cwd) := by
  have heach (u : Unit) : Yields hands (if args = [] then out usage else
      eachPath what pathCall cwd args) [] u ps ↔ ps = args.map (resolve cwd) := by
    by_cases hargs : args = []
    · simp [hargs, hands, Call.paths]
    · simp [hargs, yields_eachPath_iff]
  rw [Yields.map_iff]
  constructor
  · rintro ⟨u, hu, rfl⟩
    exact ⟨rfl, (heach u).mp hu⟩
  · rintro ⟨rfl, hps⟩
    exact ⟨(), (heach ()).mpr hps, rfl⟩

theorem eq_nil_of_usage {c : Command} (hc : c.Usage args) {r : Option Unit}
    (h : Yields hands (c.program turns cwd args) [] r ps) : ps = [] := by
  cases c with
  | mkdir | rmdir | rm =>
    have hargs : args = [] := hc
    rw [((yields_each_iff _ _ _ _).mp h).2, hargs, List.map_nil]
  | cp =>
    have hcp : cmdCp turns cwd args =
        out (ascii "usage: cp <from> <to>\n") >>= fun _ => pure (some ()) := by
      rw [cmdCp]
      rintro a b rfl
      exact hc rfl
    rw [Command.program, hcp] at h
    obtain ⟨u, ps₁, hout, hdone⟩ := Yields.bind_iff.mp h
    rw [(Yields.pure_iff.mp hdone).2, yields_out.mp hout]
    rfl
  | mv =>
    have hmv : cmdMv cwd args = out (ascii "usage: mv <from> <to>\n") := by
      rw [cmdMv]
      rintro a b rfl
      exact hc rfl
    rw [Command.program, hmv] at h
    obtain ⟨u, hout, -⟩ := Yields.map_iff.mp h
    rw [yields_out.mp hout]
    rfl

theorem sublist_of_yields {c : Command} {r : Option Unit}
    (h : Yields hands (c.program turns cwd args) [] r ps) :
      ps.Sublist (args.map (resolve cwd)) := by
  by_cases hc : c.Usage args
  · rw [eq_nil_of_usage hc h]
    exact List.nil_sublist _
  · cases c with
    | mkdir | rmdir | rm =>
      rw [((yields_each_iff _ _ _ _).mp h).2]
    | cp =>
      obtain ⟨a, b, rfl⟩ := List.length_eq_two.mp (not_not.mp hc)
      exact (prefix_of_yields_cmdCp h).sublist
    | mv =>
      obtain ⟨a, b, rfl⟩ := List.length_eq_two.mp (not_not.mp hc)
      obtain ⟨u, hu, -⟩ := Yields.map_iff.mp h
      rw [(yields_cmdMv_iff cwd a b u).mp hu]
      exact List.Sublist.refl _

theorem exists_yields (turns : Nat) (cwd : Text) {c : Command} (hc : ¬ c.Usage args) :
    ∃ r, Yields hands (c.program turns cwd args) [] r (args.map (resolve cwd)) := by
  cases c with
  | mkdir | rmdir | rm => exact ⟨some (), (yields_each_iff _ _ _ _).mpr ⟨rfl, rfl⟩⟩
  | cp =>
    obtain ⟨a, b, rfl⟩ := List.length_eq_two.mp (not_not.mp hc)
    exact exists_yields_cmdCp turns cwd a b
  | mv =>
    obtain ⟨a, b, rfl⟩ := List.length_eq_two.mp (not_not.mp hc)
    exact ⟨some (), Yields.map_iff.mpr ⟨(), (yields_cmdMv_iff cwd a b ()).mpr rfl, rfl⟩⟩

end Commands

/-- **The file commands act on what is named** exactly if all the paths fit. -/
theorem actsOnNamed_iff (turns : Nat) (cwd : Cwd) (line : Text) (c : Command) (args : List Text)
    (hline : split line 16 = c.name :: args) :
    ActsOnNamed cwd args (run turns cwd.text line) ↔ c.Usage args ∨ ∀ a ∈ args, Fits cwd a := by
  rw [run_of_split hline]
  constructor
  · intro h
    by_cases husage : c.Usage args
    · exact .inl husage
    · right
      obtain ⟨r, hr⟩ := exists_yields turns cwd.text husage
      have hsub := (h r _ hr).length_le
      rw [List.length_map, List.length_map] at hsub
      have hall := List.length_filter_eq_length_iff.mp
        (Nat.le_antisymm (List.length_filter_le _ args) hsub)
      exact fun a ha => of_decide_eq_true (hall a ha)
  · rintro (husage | hfits) r ps hps
    · rw [eq_nil_of_usage husage hps]
      exact List.nil_sublist _
    · have hmap : args.map (resolve cwd.text) = args.map (joined cwd) :=
        List.map_congr_left fun a ha => resolve_eq_joined (hfits a ha)
      rw [List.filter_eq_self.mpr fun a ha => decide_eq_true (hfits a ha), ← hmap]
      exact sublist_of_yields hps

/-- `/`. -/
def rootCwd : Cwd := ⟨[slash], by decide, by decide⟩

/-- `rm` and a name of 130 letters. -/
def longLine : Text := ascii "rm " ++ List.replicate 130 97

theorem longLine_split : split longLine 16 = Command.rm.name :: [List.replicate 130 97] := by
  decide +kernel

/-- The input line has room for the name, and another file is unlinked: the one whose name has the
first 126 letters. -/
theorem long_name_cut : longLine.length ≤ 255 ∧
    ¬ ActsOnNamed rootCwd [List.replicate 130 97] (run 0 rootCwd.text longLine) ∧
    Yields hands (run 0 rootCwd.text longLine) [] (some ()) [slash :: List.replicate 126 97] := by
  have hyields : Yields hands (run 0 rootCwd.text longLine) [] (some ())
      [slash :: List.replicate 126 97] := by
    rw [run_of_split longLine_split]
    exact (yields_each_iff _ _ _ _).mpr ⟨rfl, by decide +kernel⟩
  refine ⟨by decide +kernel, fun h => ?_, hyields⟩
  exact absurd (h _ _ hyields) (by decide +kernel)

/-- The theorem at a name that fits. -/
theorem actsOnNamed_iff_short : ActsOnNamed rootCwd [ascii "a"] (run 0 rootCwd.text (ascii "rm a")) :=
  (actsOnNamed_iff 0 rootCwd (ascii "rm a") .rm [ascii "a"] (by decide +kernel)).mpr
    (.inr (by decide +kernel))

end Shell
end Brsh
end Blackroo
