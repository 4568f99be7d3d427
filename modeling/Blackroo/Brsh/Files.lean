import Mathlib.Logic.Function.Basic
import Blackroo.Brsh.Shell

/-!
# Files, as the kernel keeps them

A path leads to a directory entry and the entry holds a file, so that two paths can be the same
entry, and two entries the same file.  `Files.step` is what the kernel may do with a call on files:
it may refuse every one of them, read and write less than it is asked for, and take any number for
a descriptor.  It says that it is at the end of a file only there.

It is a relation, so a command has as many runs as the kernel has answers.  What a command leaves
behind depends on these answers, and a statement about it is one about the run together with the
list of its `Reply`s.  An `open` that makes or empties a file is the call whose effect has to be
followed by names: `Finds.bind_eq` says of every path what it leads to afterwards.

`serve` is one kernel that computes, for runs on given files; `yields_serve` says that these are
runs of the relation.
-/

namespace Blackroo
namespace Brsh
namespace Shell

open Interaction

/-- A descriptor: its file, and where the next byte is read or written. -/
structure OpenFile where
  file : Nat
  offset : Nat

structure Files where
  /-- The entry that a path leads to, whether there is a file in it or not. -/
  place : Text → Option Nat
  entry : Nat → Option Nat
  content : Nat → List UInt8
  fds : Int → Option OpenFile
  /-- What has been printed. -/
  console : List Text

/-- The content with bytes written from a place on.  A gap before them is filled with zeros. -/
def overwrite (content : List UInt8) (offset : Nat) (bytes : List UInt8) : List UInt8 :=
  content.take offset ++ List.replicate (offset - content.length) 0 ++ bytes ++
    content.drop (offset + bytes.length)

theorem overwrite_end (content bytes : List UInt8) :
    overwrite content content.length bytes = content ++ bytes := by
  rw [overwrite, List.take_length, Nat.sub_self, List.drop_eq_nil_of_le (Nat.le_add_right _ _)]
  simp

namespace Files

def fileOf (k : Files) (path : Text) : Option Nat := (k.place path).bind k.entry

def contentOf (k : Files) (path : Text) : Option (List UInt8) := (k.fileOf path).map k.content

/-- A file that is nowhere yet. -/
structure Fresh (k : Files) (f : Nat) : Prop where
  entry : ∀ e, k.entry e ≠ some f
  fds : ∀ fd o, k.fds fd = some o → o.file ≠ f
  content : k.content f = []

/-- The file that `open` finds, or makes with `O_CREAT`, and the entries then. -/
inductive Finds (k : Files) (flags : Nat) (path : Text) : Nat → (Nat → Option Nat) → Prop
  | old {e f : Nat} (he : k.place path = some e) (hf : k.entry e = some f) :
      Finds k flags path f k.entry
  | new {e f : Nat} (he : k.place path = some e) (hf : k.entry e = none)
      (hcreat : flags &&& oCreat ≠ 0) (hfresh : k.Fresh f) :
      Finds k flags path f (Function.update k.entry e (some f))

/-- The contents behind `open`, which may empty the file. -/
def emptied (k : Files) (flags f : Nat) : Nat → List UInt8 :=
  if flags &&& oTrunc ≠ 0 then Function.update k.content f [] else k.content

/-- An `open` may fail before it has done anything and after it has made or emptied the file. -/
def openStep (k : Files) (flags : Nat) (path : Text) (r : Int) (k' : Files) : Prop :=
  (r < 0 ∧ k' = k) ∨ ∃ f entry, k.Finds flags path f entry ∧
    ((r < 0 ∧ k' = { k with entry := entry, content := k.emptied flags f }) ∨
      (0 ≤ r ∧ k.fds r = none ∧
        k' = { k with
          entry := entry
          content := k.emptied flags f
          fds := Function.update k.fds r (some ⟨f, 0⟩) }))

def readStep (k : Files) (fd : Int) (count : Nat) (n : Int) (buf : List UInt8) (k' : Files) :
    Prop :=
  (n < 0 ∧ k' = k) ∨ ∃ o, k.fds fd = some o ∧ n = buf.length ∧ buf.length ≤ count ∧
    buf <+: (k.content o.file).drop o.offset ∧
    (buf = [] → count = 0 ∨ (k.content o.file).length ≤ o.offset) ∧
    k' = { k with fds := Function.update k.fds fd (some ⟨o.file, o.offset + buf.length⟩) }

def writeStep (k : Files) (fd : Int) (bytes : List UInt8) (w : Int) (k' : Files) : Prop :=
  (w < 0 ∧ k' = k) ∨ ∃ o, k.fds fd = some o ∧ 0 ≤ w ∧ w.toNat ≤ bytes.length ∧
    k' = { k with
      content := Function.update k.content o.file
        (overwrite (k.content o.file) o.offset (bytes.take w.toNat))
      fds := Function.update k.fds fd (some ⟨o.file, o.offset + w.toNat⟩) }

/-- What the kernel may do.  The calls that go by names only and make no descriptor are not looked
into. -/
def step : (q : Call) → Files → Answer q → Files → Prop
  | .path (.openFile flags _) path, k, r, k' => k.openStep flags path r k'
  | .read fd count, k, r, k' => k.readStep fd count r.1 r.2 k'
  | .write fd bytes, k, w, k' => k.writeStep fd bytes w k'
  | .close fd, k, _, k' => k' = { k with fds := Function.update k.fds fd none }
  | .out text, k, _, k' => k' = { k with console := k.console ++ [text] }
  | .path (.mkdir _) _, k, _, k' | .path .rmdir _, k, _, k' | .path .unlink _, k, _, k'
  | .path .chdir _, k, _, k' | .rename _ _, k, _, k' | .lstat _, k, _, k' => k'.console = k.console

/-- A call and what it was answered. -/
abbrev Reply : Type := (q : Call) × Answer q

/-! ## What `open` finds -/

section Finds

variable {k : Files} {flags : Nat} {path : Text} {g : Nat} {entry : Nat → Option Nat}

theorem exists_place_of_fileOf {p : Text} {f : Nat} (hf : k.fileOf p = some f) :
    ∃ e, k.place p = some e ∧ k.entry e = some f := Option.bind_eq_some_iff.mp hf

/-- Behind `open` the path leads to the file. -/
theorem Finds.fileOf_eq (h : k.Finds flags path g entry) : (k.place path).bind entry = some g := by
  cases h with
  | old he hf => rw [he, Option.bind_some, hf]
  | new he hf hcreat hfresh => rw [he, Option.bind_some, Function.update_self]

/-- The paths that led to a file still do. -/
theorem Finds.keeps (h : k.Finds flags path g entry) {p : Text} {f : Nat}
    (hf : k.fileOf p = some f) : (k.place p).bind entry = some f := by
  obtain ⟨e, he, hentry⟩ := exists_place_of_fileOf hf
  cases h with
  | old => exact hf
  | new _ hnone _ _ =>
    rw [he, Option.bind_some, Function.update_of_ne, hentry]
    rintro rfl
    rw [hnone] at hentry
    cases hentry

/-- It is the file of another path exactly if the two paths lead to the same file. -/
theorem Finds.eq_iff (h : k.Finds flags path g entry) {p : Text} {f : Nat}
    (hf : k.fileOf p = some f) : g = f ↔ k.fileOf path = some f := by
  obtain ⟨e, -, hentry⟩ := exists_place_of_fileOf hf
  cases h with
  | old he hg =>
    rw [fileOf, he, Option.bind_some, hg]
    exact Option.some_inj.symm
  | new he hnone _ hfresh =>
    rw [fileOf, he, Option.bind_some, hnone]
    refine iff_of_false ?_ (Option.some_ne_none f).symm
    rintro rfl
    exact hfresh.entry e hentry

/-- A path leads to what another one leads to: to its entry, or to its file under another entry. -/
def Leads (k : Files) (p path : Text) : Prop :=
  ((k.place path).isSome ∧ k.place p = k.place path) ∨
    ((k.fileOf path).isSome ∧ k.fileOf p = k.fileOf path)

instance (k : Files) (p path : Text) : Decidable (k.Leads p path) :=
  inferInstanceAs (Decidable (_ ∨ _))

/-- Behind `open` a path leads to the file if it led to the same as the path that was opened, and
else to what it led to before. -/
theorem Finds.bind_eq (h : k.Finds flags path g entry) (p : Text) :
    (k.Leads p path ∧ (k.place p).bind entry = some g) ∨
      (¬ k.Leads p path ∧ (k.place p).bind entry = k.fileOf p ∧ k.fileOf p ≠ some g) := by
  by_cases hplace : (k.place path).isSome ∧ k.place p = k.place path
  · left
    refine ⟨.inl hplace, ?_⟩
    rw [hplace.2]
    exact h.fileOf_eq
  cases h with
  | old he hf =>
    have hpath : k.fileOf path = some g := by rw [fileOf, he, Option.bind_some, hf]
    by_cases hfile : k.fileOf p = some g
    · exact .inl ⟨.inr ⟨by rw [hpath]; rfl, hfile.trans hpath.symm⟩, hfile⟩
    · refine .inr ⟨?_, rfl, hfile⟩
      rintro (hl | ⟨-, hl⟩)
      · exact hplace hl
      · exact hfile (hl.trans hpath)
  | @new e _ he hf hcreat hfresh =>
    have hpath : k.fileOf path = none := by rw [fileOf, he, Option.bind_some, hf]
    have hne : k.place p ≠ some e := fun hp => hplace ⟨by rw [he]; rfl, hp.trans he.symm⟩
    refine .inr ⟨?_, ?_, ?_⟩
    · rintro (hl | ⟨hl, -⟩)
      · exact hplace hl
      · rw [hpath] at hl
        cases hl
    · rw [fileOf]
      cases hp : k.place p with
      | none => rfl
      | some e' =>
        rw [Option.bind_some, Option.bind_some, Function.update_of_ne]
        rintro rfl
        exact hne hp
    · intro hg
      obtain ⟨e', -, he'⟩ := exists_place_of_fileOf hg
      exact hfresh.entry e' he'

theorem open_rdonly {r : Int} {k' : Files} (h : k.openStep oRdonly path r k') (hr : ¬ r < 0) :
    ∃ f, k.fileOf path = some f ∧ k.fds r = none ∧
      k' = { k with fds := Function.update k.fds r (some ⟨f, 0⟩) } := by
  rcases h with ⟨hneg, -⟩ | ⟨f, entry, hfinds, ⟨hneg, -⟩ | ⟨-, hfree, hk'⟩⟩
  · exact absurd hneg hr
  · exact absurd hneg hr
  · cases hfinds with
    | old he hf =>
      refine ⟨f, ?_, hfree, hk'⟩
      rw [fileOf, he, Option.bind_some, hf]
    | new _ _ hcreat _ => exact absurd rfl hcreat

theorem fileOf_open_rdonly {r : Int} {k' : Files} (h : k.openStep oRdonly path r k') :
    k'.fileOf = k.fileOf := by
  rcases h with ⟨-, rfl⟩ | ⟨f, entry, hfinds, h⟩
  · rfl
  cases hfinds with
  | old => rcases h with ⟨-, rfl⟩ | ⟨-, -, rfl⟩ <;> rfl
  | new _ _ hcreat _ => exact absurd rfl hcreat

theorem open_trunc {r : Int} {k' : Files}
    (h : k.openStep (oWronly ||| oCreat ||| oTrunc) path r k') (hr : ¬ r < 0) :
    ∃ g entry, k.Finds (oWronly ||| oCreat ||| oTrunc) path g entry ∧ k.fds r = none ∧
      k' = { k with
        entry := entry
        content := Function.update k.content g []
        fds := Function.update k.fds r (some ⟨g, 0⟩) } := by
  rcases h with ⟨hneg, -⟩ | ⟨g, entry, hfinds, ⟨hneg, -⟩ | ⟨-, hfree, hk'⟩⟩
  · exact absurd hneg hr
  · exact absurd hneg hr
  · exact ⟨g, entry, hfinds, hfree, hk'⟩

end Finds

/-! ## Reading and writing an open file -/

section OpenFile

variable {k k' : Files} {fd : Int} {f offset : Nat}

theorem read_opened (ho : k.fds fd = some ⟨f, offset⟩) {count : Nat} {n : Int} {buf : List UInt8}
    (h : k.readStep fd count n buf k') :
    (n < 0 ∧ k' = k) ∨ (n = buf.length ∧ buf.length ≤ count ∧ buf <+: (k.content f).drop offset ∧
      (buf = [] → count = 0 ∨ (k.content f).length ≤ offset) ∧
      k' = { k with fds := Function.update k.fds fd (some ⟨f, offset + buf.length⟩) }) := by
  rcases h with hneg | ⟨o, ho', h⟩
  · exact .inl hneg
  · obtain rfl := Option.some.inj (ho.symm.trans ho')
    exact .inr h

theorem write_opened (ho : k.fds fd = some ⟨f, offset⟩) {bytes : List UInt8} {w : Int}
    (h : k.writeStep fd bytes w k') :
    (w < 0 ∧ k' = k) ∨ (0 ≤ w ∧ w.toNat ≤ bytes.length ∧ k' = { k with
      content := Function.update k.content f (overwrite (k.content f) offset (bytes.take w.toNat))
      fds := Function.update k.fds fd (some ⟨f, offset + w.toNat⟩) }) := by
  rcases h with hneg | ⟨o, ho', h⟩
  · exact .inl hneg
  · obtain rfl := Option.some.inj (ho.symm.trans ho')
    exact .inr h

end OpenFile

/-! ## What is printed -/

/-- Something has been printed in between. -/
def Printed (k k' : Files) : Prop := k.console.length < k'.console.length

instance (k k' : Files) : Decidable (Printed k k') := inferInstanceAs (Decidable (_ < _))

theorem console_le_of_step {q : Call} {k k' : Files} {r : Answer q} (h : step q k r k') :
    k.console.length ≤ k'.console.length := by
  match q, r, h with
  | .path (.openFile flags _) path, r, h =>
    rcases h with ⟨-, rfl⟩ | ⟨f, entry, -, ⟨-, rfl⟩ | ⟨-, -, rfl⟩⟩ <;> exact Nat.le_refl _
  | .read fd count, r, h =>
    rcases h with ⟨-, rfl⟩ | ⟨o, -, -, -, -, -, rfl⟩ <;> exact Nat.le_refl _
  | .write fd bytes, w, h =>
    rcases h with ⟨-, rfl⟩ | ⟨o, -, -, -, rfl⟩ <;> exact Nat.le_refl _
  | .close fd, r, h =>
    obtain rfl : k' = _ := h
    exact Nat.le_refl _
  | .out text, u, h =>
    rw [show k' = _ from h, List.length_append]
    exact Nat.le_add_right _ _
  | .path (.mkdir _) _, r, h | .path .rmdir _, r, h | .path .unlink _, r, h
  | .path .chdir _, r, h | .rename _ _, r, h | .lstat _, r, h =>
    exact Nat.le_of_eq (congrArg List.length (show k'.console = k.console from h).symm)

/-- Nothing that was printed is taken back. -/
theorem console_le {α : Type} {p : Program α} {k k' : Files} {a : α} (h : Yields step p k a k') :
    k.console.length ≤ k'.console.length := by
  induction h with
  | done => exact Nat.le_refl _
  | ask hstep _ ih => exact Nat.le_trans (console_le_of_step hstep) ih

theorem Printed.trans_le {k k₁ k' : Files} (h : Printed k k₁)
    (hle : k₁.console.length ≤ k'.console.length) : Printed k k' := Nat.lt_of_lt_of_le h hle

theorem Printed.of_le {k k₁ k' : Files} (hle : k.console.length ≤ k₁.console.length)
    (h : Printed k₁ k') : Printed k k' := Nat.lt_of_le_of_lt hle h

/-- A report is printed, whatever comes after it. -/
theorem printed_of_fail {α : Type} {what : String} {who : Text} {err : Int} {p : Program α} {a : α}
    {k k' : Files} (h : Yields step (do fail what who err; p) k a k') : Printed k k' := by
  obtain ⟨u, k₁, hfail, hp⟩ := Yields.bind_iff.mp h
  have hprint : Printed k k₁ := by
    rw [Printed, show k₁ = _ from yields_out.mp hfail, List.length_append]
    exact Nat.lt_succ_self _
  exact hprint.trans_le (console_le hp)

/-! ## A kernel that computes -/

/-- The descriptor that is next, 3 or 4. -/
def freeFd (k : Files) : Option Int :=
  if (k.fds 3).isNone then some 3 else if (k.fds 4).isNone then some 4 else none

/-- A kernel that makes no new files, and takes `most` bytes at a time. -/
def serve (most : Nat) : Handler Call Answer Files
  | .path (.openFile flags _) path, k =>
    match k.fileOf path, k.freeFd with
    | some f, some fd =>
      (fd, { k with
        content := k.emptied flags f
        fds := Function.update k.fds fd (some ⟨f, 0⟩) })
    | _, _ => (-2, k)
  | .read fd count, k =>
    match k.fds fd with
    | none => ((-9, []), k)
    | some o =>
      let buf := ((k.content o.file).drop o.offset).take count
      ((buf.length, buf),
        { k with fds := Function.update k.fds fd (some ⟨o.file, o.offset + buf.length⟩) })
  | .write fd bytes, k =>
    match k.fds fd with
    | none => (-9, k)
    | some o =>
      let w := min most bytes.length
      ((w : Int), { k with
        content := Function.update k.content o.file
          (overwrite (k.content o.file) o.offset (bytes.take w))
        fds := Function.update k.fds fd (some ⟨o.file, o.offset + w⟩) })
  | .close fd, k => (0, { k with fds := Function.update k.fds fd none })
  | .out text, k => ((), { k with console := k.console ++ [text] })
  | .path (.mkdir _) _, k | .path .rmdir _, k | .path .unlink _, k | .path .chdir _, k
  | .rename _ _, k => (-1, k)
  | .lstat _, k => ((-1, 0), k)

theorem freeFd_spec {k : Files} {fd : Int} (h : k.freeFd = some fd) : 0 ≤ fd ∧ k.fds fd = none := by
  rw [freeFd] at h
  split at h
  · obtain rfl := Option.some.inj h
    exact ⟨by decide, Option.isNone_iff_eq_none.mp ‹_›⟩
  · split at h
    · obtain rfl := Option.some.inj h
      exact ⟨by decide, Option.isNone_iff_eq_none.mp ‹_›⟩
    · cases h

theorem serve_step (most : Nat) (q : Call) (k : Files) :
    step q k (serve most q k).1 (serve most q k).2 := by
  match q with
  | .path (.openFile flags mode) path =>
    rw [serve]
    split
    · next f fd hf hfd =>
        obtain ⟨e, he, hentry⟩ := exists_place_of_fileOf hf
        obtain ⟨hpos, hfree⟩ := freeFd_spec hfd
        exact .inr ⟨f, k.entry, .old he hentry, .inr ⟨hpos, hfree, rfl⟩⟩
    · exact .inl ⟨show (-2 : Int) < 0 by decide, rfl⟩
  | .read fd count =>
    rw [serve]
    cases ho : k.fds fd with
    | none => exact .inl ⟨show (-9 : Int) < 0 by decide, rfl⟩
    | some o =>
      refine .inr ⟨o, ho, rfl, List.length_take_le _ _, List.take_prefix _ _, fun hnil => ?_, rfl⟩
      rcases List.take_eq_nil_iff.mp hnil with hcount | hdrop
      · exact .inl hcount
      · exact .inr (List.drop_eq_nil_iff.mp hdrop)
  | .write fd bytes =>
    rw [serve]
    cases ho : k.fds fd with
    | none => exact .inl ⟨show (-9 : Int) < 0 by decide, rfl⟩
    | some o => exact .inr ⟨o, ho, Int.natCast_nonneg _, Nat.min_le_right _ _, rfl⟩
  | .close fd => rfl
  | .out text => rfl
  | .path (.mkdir _) _ | .path .rmdir _ | .path .unlink _ | .path .chdir _ | .rename _ _
  | .lstat _ => rfl

/-- The run of a program with that kernel is one of its runs. -/
theorem yields_serve (most : Nat) {α : Type} (p : Program α) (k : Files) :
    Yields step p k (Interaction.run (serve most) p k).1 (Interaction.run (serve most) p k).2 :=
  Yields.of_run (serve_step most) p k

end Files

end Shell
end Brsh
end Blackroo
