import Blackroo.Brsh.Files

/-!
# Copying a file

`cmd_cp` opens the source, then opens the destination with `O_TRUNC`, and copies until there is
nothing left to read.  Every call that fails is reported, and so is a short write, so that a silent
run has copied all that the source held when the copying started.

That is what it held before the command only if the two are different files.  Nothing compares
them: a file that is copied onto itself, under the same name or another one, is emptied by the
second `open`, the first `read` finds its end, and the command is done.

## The condition

The kernel is free in what it answers, and its answers are an input of the run (`answering`).
`cp_outcome` says what becomes of every path in a run in which no answer is a failure
(`Files.copied`), and that nothing is printed then.  `cp_sound_iff` compares that with what the
command is for.  Its paths are those that are named: the ones that are opened are the same, unless
they are too long for the buffers.  `copyHolds_iff_of_fits` is the case in which they are not.
-/

namespace Blackroo
namespace Brsh
namespace Shell

open Interaction
open CommandLine (ascii)
open Files (Printed)

variable {k k' : Files} {fdIn fdOut : Int} {l l' : List Files.Reply}

/-! ## The answers -/

namespace Files

/-- The answers that `cp` reports: a call that fails, and a write that does not take everything. -/
def Reply.Fails : Reply → Prop
  | ⟨.path _ _, (r : Int)⟩ => r < 0
  | ⟨.read _ _, r⟩ => r.1 < 0
  | ⟨.write _ bytes, (w : Int)⟩ => w ≠ bytes.length
  | _ => False

instance : DecidablePred Reply.Fails
  | ⟨.path _ _, (r : Int)⟩ => inferInstanceAs (Decidable (r < 0))
  | ⟨.read _ _, r⟩ => inferInstanceAs (Decidable (r.1 < 0))
  | ⟨.write _ bytes, (w : Int)⟩ => inferInstanceAs (Decidable (w ≠ bytes.length))
  | ⟨.rename _ _, _⟩ | ⟨.lstat _, _⟩ | ⟨.close _, _⟩ | ⟨.out _, _⟩ => isFalse not_false

/-- One of the answers is a failure. -/
def Troubled (l : List Reply) : Prop := ∃ x ∈ l, x.Fails

instance (l : List Reply) : Decidable (Troubled l) := inferInstanceAs (Decidable (∃ x ∈ l, _))

theorem troubled_append {l₁ l₂ : List Reply} : Troubled (l₁ ++ l₂) ↔ Troubled l₁ ∨ Troubled l₂ := by
  simp [Troubled, or_and_right, exists_or]

theorem troubled_cons {x : Reply} : Troubled (x :: l) ↔ x.Fails ∨ Troubled l := by
  simp [Troubled]

end Files

open Files (Troubled troubled_cons troubled_append)

/-! ## The loop -/

/-- `n` bytes of the file `f` have been copied to the file `g`. -/
structure Copying (k : Files) (fdIn fdOut : Int) (f g : Nat) (s : List UInt8) (n : Nat) : Prop where
  reads : k.fds fdIn = some ⟨f, n⟩
  writes : k.fds fdOut = some ⟨g, n⟩
  source : k.content f = s
  copied : k.content g = s.take n
  le : n ≤ s.length

/-- What has changed is one file at most, and nothing was printed. -/
structure OnlyFile (g : Nat) (k k' : Files) : Prop where
  console : k'.console = k.console
  place : k'.place = k.place
  entry : k'.entry = k.entry
  content : ∀ f, f ≠ g → k'.content f = k.content f

theorem OnlyFile.trans {g : Nat} {k₁ : Files} (h : OnlyFile g k k₁) (h' : OnlyFile g k₁ k') :
    OnlyFile g k k' :=
  ⟨h'.console.trans h.console, h'.place.trans h.place, h'.entry.trans h.entry,
    fun f hf => (h'.content f hf).trans (h.content f hf)⟩

/-- A turn that reads and writes all of `buf`. -/
theorem Copying.turn {f g : Nat} {s buf : List UInt8} {n : Nat} (h : Copying k fdIn fdOut f g s n)
    (hfg : f ≠ g) (hfd : fdIn ≠ fdOut) (hbuf : buf <+: s.drop n) {k₁ k₂ : Files}
    (hk₁ : k₁ = { k with fds := Function.update k.fds fdIn (some ⟨f, n + buf.length⟩) })
    (hk₂ : k₂ = { k₁ with
      content := Function.update k₁.content g (overwrite (k₁.content g) n buf)
      fds := Function.update k₁.fds fdOut (some ⟨g, n + buf.length⟩) }) :
    Copying k₂ fdIn fdOut f g s (n + buf.length) := by
  have hlen := hbuf.length_le
  rw [List.length_drop] at hlen
  have htake : (s.take n).length = n := List.length_take_of_le h.le
  obtain ⟨rest, hrest⟩ := hbuf
  have happend : s.take (n + buf.length) = s.take n ++ buf := by
    rw [List.take_add, ← hrest, List.take_left]
  subst hk₁ hk₂
  refine ⟨?_, ?_, ?_, ?_, ?_⟩
  · dsimp only
    rw [Function.update_of_ne hfd, Function.update_self]
  · dsimp only
    rw [Function.update_self]
  · dsimp only
    rw [Function.update_of_ne hfg, h.source]
  · dsimp only
    rw [Function.update_self, h.copied, happend]
    conv_lhs => arg 2; rw [← htake]
    exact overwrite_end _ _
  · have := h.le
    omega

/-- The file `g` was emptied, which may be the file `f` itself. -/
theorem Copying.start {f g : Nat} {entry : Nat → Option Nat} (hreads : k.fds fdIn = some ⟨f, 0⟩)
    (hfd : fdIn ≠ fdOut) :
    Copying { k with
      entry := entry
      content := Function.update k.content g []
      fds := Function.update k.fds fdOut (some ⟨g, 0⟩) } fdIn fdOut f g
      (if g = f then [] else k.content f) 0 := by
  refine ⟨?_, Function.update_self _ _ _, ?_, Function.update_self _ _ _, Nat.zero_le _⟩
  · dsimp only
    rw [Function.update_of_ne hfd, hreads]
  · dsimp only
    by_cases hgf : g = f
    · rw [if_pos hgf, hgf, Function.update_self]
    · rw [if_neg hgf, Function.update_of_ne (Ne.symm hgf)]

theorem troubled_turn {buf : List UInt8} {used : List Files.Reply} :
    Troubled (⟨.read fdIn 1024, ((buf.length : Int), buf)⟩ ::
      ⟨.write fdOut buf, (buf.length : Int)⟩ :: used) ↔ Troubled used := by
  rw [troubled_cons, troubled_cons, or_iff_right, or_iff_right]
  · exact not_not.mpr rfl
  · exact Int.not_lt.mpr (Int.natCast_nonneg _)

/-- **The loop.**  With enough turns it ends: with an answer that is a failure, which is reported or
passed on, or with the copy. -/
theorem copyLoop_spec {dst : Text} {f g : Nat} {s : List UInt8} (hfg : f = g → s = [])
    (hfd : fdIn ≠ fdOut) {turns n : Nat} (hturns : s.length - n < turns)
    (h : Copying k fdIn fdOut f g s n) {r : Option Int}
    (hloop : Yields (answering Files.step) (copyLoop dst fdIn fdOut turns) (k, l) r (k', l')) :
    ∃ m used, r = some m ∧ l = used ++ l' ∧ (Troubled used ∧ (Printed k k' ∨ m < 0) ∨
      ¬ Troubled used ∧ m = 0 ∧ OnlyFile g k k' ∧ k'.content g = s) := by
  induction turns generalizing k l n with
  | zero => exact absurd hturns (Nat.not_lt_zero _)
  | succ turns ih =>
    rw [copyLoop] at hloop
    obtain ⟨⟨m, buf⟩, ⟨k₁, l₁⟩, hread, hrest⟩ := Yields.bind_iff.mp hloop
    dsimp only at hrest
    obtain ⟨hstep, rfl⟩ : k.readStep fdIn 1024 m buf k₁ ∧ l = ⟨_, _⟩ :: l₁ := yields_read.mp hread
    rcases Files.read_opened h.reads hstep with ⟨hm, -⟩ | ⟨rfl, -, hbuf, hend, hk₁⟩
    · rw [if_neg (show ¬ 0 < m by omega)] at hrest
      obtain ⟨hr, hl⟩ := Yields.pure_iff.mp hrest
      obtain ⟨rfl, rfl⟩ := Prod.mk.inj hl
      exact ⟨m, [_], hr, rfl, .inl ⟨troubled_cons.mpr (.inl hm), .inr hm⟩⟩
    rw [h.source] at hbuf hend
    by_cases hpos : 0 < (buf.length : Int)
    · rw [if_pos hpos, Int.toNat_natCast, List.take_length] at hrest
      obtain ⟨w, ⟨k₂, l₂⟩, hwrite, hnext⟩ := Yields.bind_iff.mp hrest
      obtain ⟨hstep₂, hl₁⟩ : k₁.writeStep fdOut buf w k₂ ∧ l₁ = ⟨_, _⟩ :: l₂ :=
        yields_write.mp hwrite
      have hle : k.console.length ≤ k₂.console.length :=
        Nat.le_trans (Files.console_le hread.of_answering) (Files.console_le hwrite.of_answering)
      by_cases hw : w = buf.length
      · rw [if_neg (not_not.mpr hw)] at hnext
        subst hw
        -- Something was read, so that the two are not the same file.
        have hfg' : f ≠ g := by
          intro heq
          rw [hfg heq, List.drop_nil, List.prefix_nil] at hbuf
          rw [hbuf] at hpos
          exact absurd hpos (by decide)
        have hwrites : k₁.fds fdOut = some ⟨g, n⟩ := by
          rw [hk₁]
          dsimp only
          rw [Function.update_of_ne hfd.symm, h.writes]
        obtain ⟨hneg, -⟩ | ⟨-, -, hk₂⟩ := Files.write_opened hwrites hstep₂
        · omega
        rw [Int.toNat_natCast, List.take_length] at hk₂
        have hlen := hbuf.length_le
        rw [List.length_drop] at hlen
        have hcopying := h.turn hfg' hfd hbuf hk₁ hk₂
        obtain ⟨m, used, hr, rfl, hresult⟩ := ih (by omega) hcopying hnext
        refine ⟨m, _ :: _ :: used, hr, by rw [hl₁]; rfl, ?_⟩
        rw [troubled_turn]
        rcases hresult with ⟨htroubled, hprinted | hneg⟩ | ⟨hnot, hzero, honly, hcopied⟩
        · exact .inl ⟨htroubled, .inl (hprinted.of_le hle)⟩
        · exact .inl ⟨htroubled, .inr hneg⟩
        · refine .inr ⟨hnot, hzero, OnlyFile.trans ?_ honly, hcopied⟩
          rw [hk₂, hk₁]
          exact ⟨rfl, rfl, rfl, fun f' hf' => Function.update_of_ne hf' _ _⟩
      · rw [if_pos hw] at hnext
        have hprinted := (Files.printed_of_fail hnext.of_answering).of_le hle
        obtain ⟨u, ⟨k₃, l₃⟩, hfail, hdone⟩ := Yields.bind_iff.mp hnext
        obtain ⟨hr, hl⟩ := Yields.pure_iff.mp hdone
        obtain ⟨rfl, rfl⟩ := Prod.mk.inj hl
        obtain ⟨-, hl₂⟩ : _ ∧ l₂ = ⟨_, _⟩ :: l' := yields_out.mp hfail
        refine ⟨_, [_, _, _], hr, by rw [hl₁, hl₂]; rfl, .inl ⟨?_, .inl hprinted⟩⟩
        exact troubled_cons.mpr (.inr (troubled_cons.mpr (.inl hw)))
    · rw [if_neg hpos] at hrest
      obtain ⟨rfl, hl⟩ := Yields.pure_iff.mp hrest
      obtain ⟨rfl, rfl⟩ := Prod.mk.inj hl
      have hnil : buf = [] := List.length_eq_zero_iff.mp (by omega)
      subst hnil
      have hn : s.length ≤ n := (hend rfl).resolve_left (by decide)
      refine ⟨0, [_], rfl, rfl, .inr ⟨?_, rfl, ?_, ?_⟩⟩
      · rw [troubled_cons]
        simp [Files.Reply.Fails, Troubled]
      · rw [hk₁]
        exact ⟨rfl, rfl, rfl, fun _ _ => rfl⟩
      · rw [hk₁]
        dsimp only
        rw [h.copied, List.take_of_length_le hn]

/-! ## The command -/

/-- What a path leads to when the file at `src` has been copied to `dst`, as `cp` does it. -/
def Files.copied (k : Files) (src dst p : Text) : Option (List UInt8) :=
  if k.Leads p dst then (if k.Leads src dst then some [] else k.contentOf src) else k.contentOf p

/-- The end of the command, behind the loop. -/
theorem cp_end {a : Text} {m : Int} {r : Option Unit}
    (h : Yields (answering Files.step) (do
      if m < 0 then fail "cp: read" a m
      let _ ← close fdIn
      let _ ← close fdOut
      pure (some ())) (k, l) r (k', l')) :
    r = some () ∧ k.console.length ≤ k'.console.length ∧
      (∃ used, l = used ++ l' ∧ ¬ Troubled used) ∧
      (m < 0 → Printed k k') ∧ (¬ m < 0 → k'.console = k.console ∧
        k'.place = k.place ∧ k'.entry = k.entry ∧ k'.content = k.content) := by
  have hcloses {k : Files} {l : List Files.Reply} (h : Yields (answering Files.step) (do
      let _ ← close fdIn
      let _ ← close fdOut
      pure (some ())) (k, l) r (k', l')) :
      r = some () ∧ (∃ used, l = used ++ l' ∧ ¬ Troubled used) ∧ k'.console = k.console ∧
        k'.place = k.place ∧ k'.entry = k.entry ∧ k'.content = k.content := by
    obtain ⟨_, ⟨k₁, l₁⟩, hk₁, h⟩ := Yields.bind_iff.mp h
    obtain ⟨_, ⟨k₂, l₂⟩, hk₂, h⟩ := Yields.bind_iff.mp h
    obtain ⟨rfl, hl⟩ := Yields.pure_iff.mp h
    obtain ⟨rfl, rfl⟩ := Prod.mk.inj hl
    obtain ⟨rfl, rfl⟩ : k₁ = { k with fds := Function.update k.fds fdIn none } ∧
      l = ⟨_, _⟩ :: l₁ := yields_close.mp hk₁
    obtain ⟨rfl, rfl⟩ : k' = { k with fds := _ } ∧ l₁ = ⟨_, _⟩ :: l' := yields_close.mp hk₂
    exact ⟨rfl, ⟨[_, _], rfl, by simp [Troubled, Files.Reply.Fails]⟩, rfl, rfl, rfl, rfl⟩
  have hle := Files.console_le h.of_answering
  by_cases hm : m < 0
  · rw [if_pos hm] at h
    have hprinted := Files.printed_of_fail h.of_answering
    obtain ⟨_, ⟨k₁, l₁⟩, hfail, hrest⟩ := Yields.bind_iff.mp h
    obtain ⟨-, rfl⟩ : _ ∧ l = ⟨_, _⟩ :: l₁ := yields_out.mp hfail
    obtain ⟨hr, ⟨used, rfl, hused⟩, -⟩ := hcloses hrest
    refine ⟨hr, hle, ⟨_ :: used, rfl, ?_⟩, fun _ => hprinted, fun hnot => absurd hm hnot⟩
    rw [troubled_cons]
    rintro (hfails | htroubled)
    · exact hfails
    · exact hused htroubled
  · rw [if_neg hm] at h
    obtain ⟨hr, hused, hrest⟩ := hcloses h
    exact ⟨hr, hle, hused, fun hneg => absurd hneg hm, fun _ => hrest⟩

/-- The files behind a copy. -/
theorem contentOf_copied {src dst : Text} {f g flags : Nat} {entry : Nat → Option Nat}
    {s : List UInt8}
    (hsrc : k.fileOf src = some f) (hfinds : k.Finds flags dst g entry)
    (hs : s = if g = f then [] else k.content f) (hplace : k'.place = k.place)
    (hentry : k'.entry = entry) (hg : k'.content g = s)
    (hother : ∀ h, h ≠ g → k'.content h = k.content h) (p : Text) :
    k'.contentOf p = k.copied src dst p := by
  have hsame : g = f ↔ k.Leads src dst := by
    rcases hfinds.bind_eq src with ⟨hl, hbind⟩ | ⟨hl, -, hne⟩
    · exact iff_of_true (Option.some.inj (hbind.symm.trans (hfinds.keeps hsrc))) hl
    · refine iff_of_false ?_ hl
      rintro rfl
      exact hne hsrc
  rw [Files.contentOf, Files.fileOf, hplace, hentry, Files.copied]
  rcases hfinds.bind_eq p with ⟨hl, hbind⟩ | ⟨hl, hbind, hne⟩
  · rw [if_pos hl, hbind, Option.map_some, hg, hs]
    by_cases hgf : g = f
    · rw [if_pos hgf, if_pos (hsame.mp hgf)]
    · rw [if_neg hgf, if_neg (mt hsame.mpr hgf), Files.contentOf, hsrc, Option.map_some]
  · rw [if_neg hl, hbind, Files.contentOf]
    cases hp : k.fileOf p with
    | none => rfl
    | some h =>
      rw [Option.map_some, Option.map_some, hother h]
      rintro rfl
      exact hne hp

/-- **Every run of `cp`.**  Given enough turns it ends.  If one of the answers is a failure
something is printed, and else nothing, and the files are as `Files.copied` says. -/
theorem cp_outcome {cwd a b : Text} {turns : Nat}
    (hturns : ∀ s, k.contentOf (resolve cwd a) = some s → s.length < turns) {r : Option Unit}
    (h : Yields (answering Files.step) (cmdCp turns cwd [a, b]) (k, l) r (k', [])) :
    r = some () ∧ (Troubled l ∧ Printed k k' ∨ ¬ Troubled l ∧ ¬ Printed k k' ∧
      ∀ p, k'.contentOf p = k.copied (resolve cwd a) (resolve cwd b) p) := by
  rw [cmdCp] at h
  obtain ⟨fdIn, ⟨k₁, l₁⟩, hopen, h₁⟩ := Yields.bind_iff.mp h
  obtain ⟨hstep, rfl⟩ : k.openStep oRdonly (resolve cwd a) fdIn k₁ ∧ l = ⟨_, _⟩ :: l₁ :=
    yields_callPath.mp hopen
  have hle₁ := Files.console_le hopen.of_answering
  by_cases hneg : fdIn < 0
  · rw [if_pos hneg] at h₁
    have hprinted := Files.printed_of_fail h₁.of_answering
    obtain ⟨_, _, -, hdone⟩ := Yields.bind_iff.mp h₁
    exact ⟨(Yields.pure_iff.mp hdone).1,
      .inl ⟨troubled_cons.mpr (.inl hneg), hprinted.of_le hle₁⟩⟩
  rw [if_neg hneg] at h₁
  obtain ⟨f, hsrc, -, hk₁⟩ := Files.open_rdonly hstep hneg
  obtain ⟨fdOut, ⟨k₂, l₂⟩, hopen₂, h₂⟩ := Yields.bind_iff.mp h₁
  obtain ⟨hstep₂, rfl⟩ : k₁.openStep (oWronly ||| oCreat ||| oTrunc) (resolve cwd b) fdOut k₂ ∧
      l₁ = ⟨_, _⟩ :: l₂ :=
    yields_callPath.mp hopen₂
  have hle₂ := Nat.le_trans hle₁ (Files.console_le hopen₂.of_answering)
  by_cases hneg₂ : fdOut < 0
  · rw [if_pos hneg₂] at h₂
    have hprinted := Files.printed_of_fail h₂.of_answering
    obtain ⟨_, _, -, h₃⟩ := Yields.bind_iff.mp h₂
    obtain ⟨_, _, -, hdone⟩ := Yields.bind_iff.mp h₃
    exact ⟨(Yields.pure_iff.mp hdone).1,
      .inl ⟨troubled_cons.mpr (.inr (troubled_cons.mpr (.inl hneg₂))), hprinted.of_le hle₂⟩⟩
  rw [if_neg hneg₂] at h₂
  obtain ⟨g, entry, hfinds, hfree₂, hk₂⟩ := Files.open_trunc hstep₂ hneg₂
  have hopened : k₁.fds fdIn = some ⟨f, 0⟩ := by
    rw [hk₁]
    exact Function.update_self _ _ _
  have hfd : fdIn ≠ fdOut := by
    rintro rfl
    rw [hopened] at hfree₂
    cases hfree₂
  generalize hs : (if g = f then [] else k₁.content f) = s
  have hlen : s.length < turns := by
    have hf := hturns (k.content f) (by rw [Files.contentOf, hsrc]; rfl)
    rw [← hs, hk₁]
    split
    · exact Nat.lt_of_le_of_lt (Nat.zero_le _) hf
    · exact hf
  have hcopying : Copying k₂ fdIn fdOut f g s 0 := by
    rw [hk₂, ← hs]
    exact .start hopened hfd
  obtain ⟨n, ⟨k₃, l₃⟩, hloop, h₃⟩ := Yields.bind_iff.mp h₂
  have hle₃ := Nat.le_trans hle₂ (Files.console_le hloop.of_answering)
  obtain ⟨m, used, rfl, rfl, hresult⟩ :=
    copyLoop_spec (fun heq => by rw [← hs, if_pos heq.symm]) hfd (by omega) hcopying hloop
  obtain ⟨hr, hle, ⟨used', rfl, hused'⟩, hreports, hkeeps⟩ := cp_end h₃
  refine ⟨hr, ?_⟩
  have htroubled : Troubled (⟨.path (.openFile oRdonly 0) (resolve cwd a), fdIn⟩ ::
      ⟨.path (.openFile (oWronly ||| oCreat ||| oTrunc) 0o644) (resolve cwd b), fdOut⟩ ::
        (used ++ (used' ++ []))) ↔ Troubled used := by
    rw [troubled_cons, troubled_cons, troubled_append, List.append_nil]
    exact ⟨fun h => ((h.resolve_left hneg).resolve_left hneg₂).resolve_right hused',
      fun h => .inr (.inr (.inl h))⟩
  rw [htroubled]
  rcases hresult with ⟨hfailed, hprinted | hm⟩ | ⟨hnot, rfl, honly, hcontent⟩
  · exact .inl ⟨hfailed, (hprinted.trans_le hle).of_le hle₂⟩
  · exact .inl ⟨hfailed, (hreports hm).of_le hle₃⟩
  · obtain ⟨hconsole, hplace, hentry, hkept⟩ := hkeeps (by decide)
    refine .inr ⟨hnot, ?_, fun p => ?_⟩
    · rw [Printed, hconsole, honly.console, hk₂, hk₁]
      exact Nat.lt_irrefl _
    · have hafter : k'.contentOf p = k₁.copied (resolve cwd a) (resolve cwd b) p :=
        contentOf_copied (by rw [hk₁]; exact hsrc) hfinds hs.symm
          (by rw [hplace, honly.place, hk₂]) (by rw [hentry, honly.entry, hk₂])
          (by rw [hkept, hcontent]) (fun h hne => by
            rw [hkept, honly.content h hne, hk₂]
            exact Function.update_of_ne hne _ _) p
      -- the first `open` has changed no file
      rw [hafter, hk₁]
      rfl

/-- The command has done what it is for: the destination holds what the source held before, and so
does the source. -/
def CopyDone (k k' : Files) (src dst : Text) : Prop :=
  ∃ s, k.contentOf src = some s ∧ k'.contentOf dst = some s ∧ k'.contentOf src = some s

/-- The copy from the path that is opened for `a` to the one that is opened for `b` is the copy from
`a` to `b`. -/
def CopyHolds (k : Files) (cwd : Cwd) (a b : Text) : Prop :=
  ∃ s, k.contentOf (joined cwd a) = some s ∧
    k.copied (resolve cwd.text a) (resolve cwd.text b) (joined cwd b) = some s ∧
    k.copied (resolve cwd.text a) (resolve cwd.text b) (joined cwd a) = some s

/-- **`cp` copies or says that it did not**, in a run in which one of the kernel's answers is a
failure, and else exactly if the files before it are such that the copy holds. -/
theorem cp_sound_iff {cwd : Cwd} {a b : Text} {turns : Nat} {r : Option Unit}
    (hturns : ∀ s, k.contentOf (resolve cwd.text a) = some s → s.length < turns)
    (h : Yields (answering Files.step) (cmdCp turns cwd.text [a, b]) (k, l) r (k', [])) :
    r = some () ∧ ((Printed k k' ∨ CopyDone k k' (joined cwd a) (joined cwd b)) ↔
      (Troubled l ∨ CopyHolds k cwd a b)) := by
  obtain ⟨hr, ⟨htroubled, hprinted⟩ | ⟨htroubled, hprinted, hafter⟩⟩ := cp_outcome hturns h
  · exact ⟨hr, iff_of_true (.inl hprinted) (.inl htroubled)⟩
  · rw [or_iff_right hprinted, or_iff_right htroubled, CopyDone, hafter, hafter]
    exact ⟨hr, Iff.rfl⟩

/-- **If the paths fit, all that can go wrong is a file that is copied onto itself**: that is
harmless only if it is empty. -/
theorem copyHolds_iff_of_fits {cwd : Cwd} {a b : Text} (ha : Fits cwd a) (hb : Fits cwd b)
    (hsrc : (k.fileOf (joined cwd a)).isSome) (hdst : (k.place (joined cwd b)).isSome) :
    CopyHolds k cwd a b ↔ k.fileOf (joined cwd a) ≠ k.fileOf (joined cwd b) ∨
      k.contentOf (joined cwd a) = some [] := by
  rw [CopyHolds, resolve_eq_joined ha, resolve_eq_joined hb]
  generalize joined cwd a = src at *
  generalize joined cwd b = dst at *
  have hself : k.Leads dst dst := .inl ⟨hdst, rfl⟩
  have hleads : k.Leads src dst ↔ k.fileOf src = k.fileOf dst := by
    constructor
    · rintro (⟨-, hplace⟩ | ⟨-, hfile⟩)
      · rw [Files.fileOf, Files.fileOf, hplace]
      · exact hfile
    · intro hfile
      exact .inr ⟨by rwa [← hfile], hfile⟩
  simp only [Files.copied, if_pos hself, hleads]
  by_cases hsame : k.fileOf src = k.fileOf dst
  · simp only [hsame, if_true, ne_eq, not_true_eq_false, false_or]
    constructor
    · rintro ⟨s, hs, hnil, -⟩
      rw [hs, hnil]
    · intro hnil
      exact ⟨[], hnil, rfl, rfl⟩
  · simp only [hsame, if_false, ne_eq, not_false_eq_true, true_or, iff_true]
    obtain ⟨f, hf⟩ := Option.isSome_iff_exists.mp hsrc
    have hs : k.contentOf src = some (k.content f) := by
      rw [Files.contentOf, hf]
      rfl
    exact ⟨k.content f, hs, hs, hs⟩

/-! ## Two runs -/

/-- A directory with the files `a`, of one character, and `b`, of two. -/
def twoFiles : Files where
  place p := if p = ascii "/a" then some 0 else if p = ascii "/b" then some 1 else none
  entry e := if e = 0 then some 0 else if e = 1 then some 1 else none
  content f := if f = 0 then [120] else if f = 1 then [121, 122] else []
  fds _ := none
  console := []

/-- What `cp` leaves behind, with a kernel that does everything it is asked for. -/
def copiedFiles (a b : Text) : Files :=
  (Interaction.run (Files.serve 1024) (cmdCp 2 rootCwd.text [a, b]) twoFiles).2

/-- **A file that is copied onto itself is emptied**, and the command says nothing. -/
theorem copy_onto_itself : Yields Files.step (cmdCp 2 rootCwd.text [ascii "a", ascii "a"]) twoFiles
      (some ()) (copiedFiles (ascii "a") (ascii "a")) ∧
    ¬ Printed twoFiles (copiedFiles (ascii "a") (ascii "a")) ∧
    ¬ CopyDone twoFiles (copiedFiles (ascii "a") (ascii "a")) (joined rootCwd (ascii "a"))
      (joined rootCwd (ascii "a")) := by
  refine ⟨?_, by decide +kernel, ?_⟩
  · have hyields := Files.yields_serve 1024 (cmdCp 2 rootCwd.text [ascii "a", ascii "a"]) twoFiles
    rwa [show (Interaction.run (Files.serve 1024) (cmdCp 2 rootCwd.text [ascii "a", ascii "a"])
      twoFiles).1 = some () by decide +kernel] at hyields
  · rintro ⟨s, hs, hs', -⟩
    have hbefore : twoFiles.contentOf (joined rootCwd (ascii "a")) = some [120] := by decide +kernel
    have hafter : (copiedFiles (ascii "a") (ascii "a")).contentOf (joined rootCwd (ascii "a")) =
        some [] := by decide +kernel
    rw [hbefore] at hs
    rw [hafter] at hs'
    exact absurd (hs.trans hs'.symm) (by decide)

/-- The theorem at `cp a b`, where all calls succeed. -/
theorem cp_sound_iff_two : CopyDone twoFiles (copiedFiles (ascii "a") (ascii "b"))
    (joined rootCwd (ascii "a")) (joined rootCwd (ascii "b")) := by
  have hcontent : twoFiles.contentOf (resolve rootCwd.text (ascii "a")) = some [120] := by
    decide +kernel
  have hiff := (cp_sound_iff (fun s hs => by
      obtain rfl := Option.some.inj (hcontent.symm.trans hs)
      decide)
    (Yields.of_run_answers (Files.serve_step 1024) (cmdCp 2 rootCwd.text [ascii "a", ascii "b"])
      twoFiles)).2
  have hholds : CopyHolds twoFiles rootCwd (ascii "a") (ascii "b") :=
    ⟨[120], by decide +kernel, by decide +kernel, by decide +kernel⟩
  refine (hiff.mpr (.inr hholds)).resolve_left ?_
  exact (by decide +kernel : ¬ Printed twoFiles (copiedFiles (ascii "a") (ascii "b")))

end Shell
end Brsh
end Blackroo
