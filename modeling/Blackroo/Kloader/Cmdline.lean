import Blackroo.Kloader.Host
import Mathlib.Data.List.TakeWhile

/-!
# The command line on its way to the kernel

A command line given to the host passes through four programs.  `cmd_boot` of the host
sends its length and its bytes; `cmd_boot` of the console takes it into a buffer of 256
bytes, or falls back to the saved settings; `kernel_launch` leaves it with a mark in the
256 bytes of the BIOS argument area; and `prom_init_cmdline` of the kernel looks for the
mark and a terminated line of printable characters there, or falls back to the line
compiled in.

Each of them has a limit of its own, and none tells the others what it cut off.  The
shortest one counts: 251 characters, what the argument area holds beside the mark and the
terminator.  `bootDelivers_iff` says that every line within it arrives, and no longer one
the host can send at all.

What `head.S` does before `prom_init` is not modelled: it clears the BSS and installs a
handler in the first 32 bytes of memory, and leaves the argument area alone.
-/

namespace Blackroo
namespace Kloader

open ByteMemory LittleEndian Process

/-! ## The host -/

/-- Where `cmd_boot` of the host ends, once the beacon was seen.  In all cases but the
last it reports an error: it returns `False`, or `struct.pack` raises. -/
inductive BootResult where
  | noKernel
  | failed (resp : Option UInt32)
  | packError
  | launched
  deriving DecidableEq, Repr

/-- `cmd_boot` of the host from the command on, with the bytes of the command line. -/
def cmdBootHost (cmdline : List UInt8) : Host BootResult := do
  let resp ← sendCommand cmdBootTag
  if resp = some shellErr then return .noKernel
  else if resp ≠ some shellOk then return .failed resp
  else if cmdline = [] then
    sendU32 0
    return .launched
  else if cmdline.length < 2 ^ 32 then
    sendU32 (UInt32.ofNat cmdline.length)
    sendAll cmdline
    return .launched
  else return .packError

/-! ## The argument area -/

/-- `BOOT_ARG_ADDR`. -/
def bootArgAddr : UInt32 := 0x80000180

/-- `BOOT_ARG_MAGIC`. -/
def bootArgMagic : List UInt8 := "BRCL".toList.map fun c => UInt8.ofNat c.toNat

/-- What `strncpy` writes for the string `src`. -/
def strncpy (src : List UInt8) (n : Nat) : List UInt8 :=
  let copied := (src.takeWhile (· ≠ 0)).take n
  copied ++ List.replicate (n - copied.length) 0

/-- The memory as `kernel_launch` leaves it. -/
def kernelLaunch (mem : Mem) (cmdline : List UInt8) : Mem :=
  apply mem (block bootArgAddr bootArgMagic ++ block (bootArgAddr + 4) (strncpy cmdline 251) ++
    block (bootArgAddr + 255) [0])

/-! ## The kernel -/

/-- `COMMAND_LINE_SIZE`. -/
def commandLineSize : Nat := 256

/-- `CONFIG_CMDLINE`. -/
def configCmdline : List UInt8 :=
  "brmon root=/dev/ram0 init=/bin/sh console=ttyS0,115200 console=tty0".toList.map fun c =>
    UInt8.ofNat c.toNat

/-- A character of a command line. -/
def Printable (c : UInt8) : Prop := 0x20 ≤ c ∧ c ≤ 0x7E

instance (c : UInt8) : Decidable (Printable c) := inferInstanceAs (Decidable (_ ∧ _))

/-- The loop of `prom_init_cmdline`, with some turns to go: the line up to its terminator,
as `strcpy` takes it, or nothing if there is none within bounds. -/
def scanLine (mem : Mem) : Nat → UInt32 → Option (List UInt8)
  | 0, _ => none
  | turns + 1, line =>
    if mem line = 0 then some []
    else if mem line < 0x20 ∨ mem line > 0x7E then none
    else (scanLine mem turns (line + 1)).map (mem line :: ·)

/-- `prom_init_cmdline`: the string in `arcs_cmdline`. -/
def promInitCmdline (mem : Mem) : List UInt8 :=
  if load mem bootArgAddr 4 = bootArgMagic then
    (scanLine mem (commandLineSize - 1) (bootArgAddr + 4)).getD configCmdline
  else configCmdline

/-! ## What the kernel finds -/

theorem length_strncpy (src : List UInt8) (n : Nat) : (strncpy src n).length = n := by
  rw [strncpy, List.length_append, List.length_replicate, List.length_take]
  omega

/-- A string of other characters than the terminator that fits is copied. -/
theorem strncpy_of_le {src : List UInt8} {n : Nat} (hsrc : ∀ c ∈ src, c ≠ 0)
    (hn : src.length ≤ n) : strncpy src n = src ++ List.replicate (n - src.length) 0 := by
  have hwhole : src.takeWhile (· ≠ 0) = src := by
    rw [List.takeWhile_eq_self_iff]
    intro c hc
    exact decide_eq_true (hsrc c hc)
  rw [strncpy, hwhole, List.take_of_length_le hn]

/-- The argument area is written as one block. -/
theorem kernelLaunch_eq (mem : Mem) (cmdline : List UInt8) :
    kernelLaunch mem cmdline =
      apply mem (block bootArgAddr (bootArgMagic ++ strncpy cmdline 251 ++ [0])) := by
  rw [block_append, block_append, List.length_append, length_strncpy]
  rfl

theorem load_kernelLaunch (mem : Mem) (cmdline : List UInt8) :
    load (kernelLaunch mem cmdline) bootArgAddr 4 = bootArgMagic ∧
      load (kernelLaunch mem cmdline) (bootArgAddr + 4) 252 = strncpy cmdline 251 ++ [0] := by
  have hlen : (bootArgMagic ++ strncpy cmdline 251 ++ [0]).length = 4 + 252 := by
    rw [List.length_append, List.length_append, length_strncpy]
    rfl
  have hload := @load_apply_block mem bootArgAddr (bootArgMagic ++ strncpy cmdline 251 ++ [0])
    (by rw [hlen]; decide)
  rw [hlen, ← kernelLaunch_eq, load_add, List.append_assoc] at hload
  exact List.append_inj hload (length_load _ _ _)

/-- A terminated line of printable characters is found. -/
theorem scanLine_eq_some {mem : Mem} {turns : Nat} {p : UInt32} {line : List UInt8}
    (rest : List UInt8) (hline : ∀ c ∈ line, Printable c) (hturns : line.length < turns)
    (hload : load mem p (line.length + 1 + rest.length) = line ++ 0 :: rest) :
    scanLine mem turns p = some line := by
  induction line generalizing turns p with
  | nil =>
    obtain ⟨turns, rfl⟩ : ∃ t, turns = t + 1 := ⟨turns - 1, by omega⟩
    have hzero : mem p = 0 := by
      rw [List.length_nil, Nat.zero_add, Nat.add_comm, load] at hload
      exact (List.cons_eq_cons.mp hload).1
    rw [scanLine, if_pos hzero]
  | cons c line ih =>
    obtain ⟨turns, rfl⟩ : ∃ t, turns = t + 1 := ⟨turns - 1, by omega⟩
    have hc : Printable c := hline c List.mem_cons_self
    have hsplit : (c :: line).length + 1 + rest.length = line.length + 1 + rest.length + 1 := by
      rw [List.length_cons]
      omega
    rw [hsplit, load, List.cons_append] at hload
    obtain ⟨hhead, htail⟩ := List.cons_eq_cons.mp hload
    have hne : mem p ≠ 0 := by
      rw [hhead]
      rintro rfl
      exact absurd hc (by decide)
    have hprint : ¬ (mem p < 0x20 ∨ mem p > 0x7E) := by
      rw [hhead, not_or]
      exact ⟨UInt8.not_lt.mpr hc.1, UInt8.not_lt.mpr hc.2⟩
    rw [List.length_cons] at hturns
    rw [scanLine, if_neg hne, if_neg hprint,
      ih (fun c hc => hline c (List.mem_cons_of_mem _ hc)) (by omega) htail, hhead]
    rfl

/-- A line ends before the first terminator. -/
theorem length_le_of_scanLine {mem : Mem} {turns : Nat} {p : UInt32} {line : List UInt8} {n : Nat}
    (h : scanLine mem turns p = some line) (hzero : mem (p + UInt32.ofNat n) = 0) :
    line.length ≤ n := by
  induction turns generalizing p line n with
  | zero => exact absurd h (by simp [scanLine])
  | succ turns ih =>
    rw [scanLine] at h
    split at h
    · obtain rfl := Option.some.inj h
      exact Nat.zero_le n
    · rename_i hne
      split at h
      · exact absurd h (by simp)
      · obtain ⟨line, hline, rfl⟩ := Option.map_eq_some_iff.mp h
        obtain ⟨n, rfl⟩ : ∃ m, n = m + 1 := by
          refine ⟨n - 1, ?_⟩
          rcases Nat.eq_zero_or_pos n with rfl | hpos
          · exact absurd hzero (by simpa using hne)
          · omega
        have hnext : p + UInt32.ofNat (n + 1) = p + 1 + UInt32.ofNat n := by
          rw [Nat.add_comm, UInt32.ofNat_add, UInt32.add_assoc]
          rfl
        rw [hnext] at hzero
        have := ih hline hzero
        rw [List.length_cons]
        omega

/-- A line of up to 251 printable characters is found as it was. -/
theorem promInitCmdline_of_le (mem : Mem) {line : List UInt8} (hline : ∀ c ∈ line, Printable c)
    (hlen : line.length ≤ 251) : promInitCmdline (kernelLaunch mem line) = line := by
  obtain ⟨hmagic, hload⟩ := load_kernelLaunch mem line
  have hne : ∀ c ∈ line, c ≠ 0 := by
    rintro c hc rfl
    exact absurd (hline 0 hc) (by decide)
  -- the padding and the terminator after the line
  have hrest : List.replicate (251 - line.length) (0 : UInt8) ++ [0] =
      0 :: List.replicate (251 - line.length) 0 := by
    rw [← List.replicate_succ, List.replicate_succ']
  rw [strncpy_of_le hne hlen, List.append_assoc, hrest] at hload
  have hfound : scanLine (kernelLaunch mem line) (commandLineSize - 1) (bootArgAddr + 4) =
    some line := by
    refine scanLine_eq_some (List.replicate (251 - line.length) 0) hline ?_ ?_
    · rw [commandLineSize]
      omega
    · rw [List.length_replicate, ← hload]
      congr 1
      omega
  rw [promInitCmdline, if_pos hmagic, hfound]
  rfl

/-- Whatever the loader was given, the kernel has at most 251 characters. -/
theorem length_promInitCmdline_le (mem : Mem) (line : List UInt8) :
    (promInitCmdline (kernelLaunch mem line)).length ≤ 251 := by
  have hdefault : configCmdline.length ≤ 251 := by decide
  rw [promInitCmdline]
  split
  · cases hscan : scanLine (kernelLaunch mem line) (commandLineSize - 1) (bootArgAddr + 4) with
    | none => exact hdefault
    | some found =>
      refine length_le_of_scanLine hscan ?_
      have hload := (load_kernelLaunch mem line).2
      rw [show 252 = 251 + 1 from rfl, load_add] at hload
      have hlast := (List.append_inj hload (by rw [length_load, length_strncpy])).2
      exact (List.cons_eq_cons.mp hlast).1
  · exact hdefault

/-! ## The exchange -/

theorem shellDispatch_boot (ld : Loader) (s : Shell) :
    shellDispatch ld s cmdBootTag = cmdBoot ld s := by
  rw [shellDispatch]
  iterate 4 rw [if_neg (by decide)]
  rw [if_pos rfl]

/-- `cmd_boot` behind the length of the command line. -/
def bootLine (l : Loader) (s : Shell) : Option UInt32 → Line Turn
  | none => return .again s
  | some cmdlineLen =>
    if 0 < cmdlineLen.toNat ∧ cmdlineLen.toNat < 256 then do
      let some cmdline ← recvCmdline cmdlineLen.toNat | return .again s
      return .left (.launched s.lastEntry l.ramSizeKb cmdline) s
    else return .left (.launched s.lastEntry l.ramSizeKb l.cmdline) s

theorem cmdBoot_of_upload (ld : Loader) {s : Shell} (hupload : s.hasUpload = true) :
    cmdBoot ld s = serialSendU32 shellOk >>= fun _ => serialRecvU32 >>= bootLine ld s := by
  rw [cmdBoot, if_neg (by rw [hupload]; decide)]
  congr 1
  funext _
  congr 1
  funext len
  cases len <;> rfl

/-- The console reads a command line that is there. -/
theorem ends_recvCmdline {α γ : Type} {short : Read → Prop} {short' : Unit → Prop}
    {F : Pair Read Unit UInt8 α γ → Prop} {l : Host α} {g : Option (List UInt8) → Line γ}
    {bs rest tl : List UInt8} (h : Ends short short' F ⟨l, g (some bs), rest, tl⟩) :
    Ends short short' F ⟨l, recvCmdline bs.length >>= g, bs ++ rest, tl⟩ := by
  induction bs generalizing g with
  | nil => exact h
  | cons b bs ih =>
    refine ends_getchar ?_
    show Ends short short' F ⟨l, (recvCmdline bs.length >>= _) >>= g, bs ++ rest, tl⟩
    rw [Proc.bind_assoc]
    exact ih h

/-- How the host ends. -/
def bootResult (cmdline : List UInt8) : BootResult :=
  if cmdline.length < 2 ^ 32 then .launched else .packError

/-- How the console ends, if nothing more comes. -/
def bootTurn (ld : Loader) (s : Shell) (cmdline : List UInt8) : Turn :=
  if cmdline.length < 256 then
    .left (.launched s.lastEntry ld.ramSizeKb cmdline) { s with statusText := "Processing..." }
  else if cmdline.length < 2 ^ 32 then
    .left (.launched s.lastEntry ld.ramSizeKb ld.cmdline) { s with statusText := "Processing..." }
  else .again { s with statusText := "Listening" }

/-- **The exchange of a command line**, in every interleaving. -/
theorem ends_cmdBoot {cmdline : List UInt8} (hne : cmdline ≠ []) (ld : Loader) {s : Shell}
    (hupload : s.hasUpload = true) :
    Ends (fun _ => False) (fun _ => False)
      (fun p => p.left = .done (bootResult cmdline) ∧ p.right.idle = bootTurn ld s cmdline)
      ⟨cmdBootHost cmdline, shellCommand ld s, [], []⟩ := by
  rw [← Proc.bind_done (shellCommand ld s)]
  refine ends_command ?_
  rw [shellDispatch_boot, cmdBoot_of_upload ld (s := { s with statusText := "Processing..." }) hupload]
  simp only [Proc.bind_assoc]
  refine ends_answer not_false ?_
  rw [if_neg (by decide), if_neg (not_not.mpr rfl), if_neg hne]
  have hpos : 0 < cmdline.length := List.length_pos_iff.mpr hne
  by_cases hpack : cmdline.length < 2 ^ 32
  · rw [if_pos hpack, bootResult, if_pos hpack]
    have hnat : (UInt32.ofNat cmdline.length).toNat = cmdline.length :=
      UInt32.toNat_ofNat_of_lt' hpack
    refine ends_tell (.sendAll_left ?_)
    rw [bootLine, hnat]
    by_cases hfit : cmdline.length < 256
    · rw [if_pos ⟨hpos, hfit⟩, Proc.bind_assoc, ← List.append_nil ([] ++ cmdline), List.nil_append]
      refine ends_recvCmdline (.done ⟨rfl, ?_⟩)
      rw [bootTurn, if_pos hfit]
      rfl
    · rw [if_neg (fun h => hfit h.2)]
      refine .done ⟨rfl, ?_⟩
      rw [bootTurn, if_neg hfit, if_pos hpack]
      rfl
  · rw [if_neg hpack, bootResult, if_neg hpack]
    refine .stop (stopped_waiting Nat.one_pos) ⟨rfl, ?_⟩
    rw [bootTurn, if_neg (by omega), if_neg hpack]
    rfl

/-! ## Delivery -/

/-- The kernel has the command line the host was given, or no kernel is launched and the
host reports an error. -/
def Delivered (cmdline : List UInt8) (host : BootResult) : Turn → Prop
  | .left (.launched _ _ line) s => promInitCmdline (kernelLaunch s.mem line) = cmdline
  | _ => host ≠ .launched

/-- Every run of the two programs delivers the command line. -/
def BootDelivers (ld : Loader) (s : Shell) (cmdline : List UInt8) : Prop :=
  Ends (fun _ => False) (fun _ => False)
    (fun p => ∃ host, p.left = .done host ∧ Delivered cmdline host p.right.idle)
    ⟨cmdBootHost cmdline, shellCommand ld s, [], []⟩

theorem delivered_iff {cmdline : List UInt8} (hprint : ∀ c ∈ cmdline, Printable c) (ld : Loader)
    (s : Shell) :
    Delivered cmdline (bootResult cmdline) (bootTurn ld s cmdline) ↔
      cmdline.length ≤ 251 ∨ 2 ^ 32 ≤ cmdline.length := by
  rw [bootTurn]
  split
  · constructor
    · intro h
      have hlen := length_promInitCmdline_le s.mem cmdline
      rw [show promInitCmdline (kernelLaunch s.mem cmdline) = cmdline from h] at hlen
      exact Or.inl hlen
    · intro h
      exact promInitCmdline_of_le _ hprint (by omega)
  · split
    · constructor
      · intro h
        have hlen := length_promInitCmdline_le s.mem ld.cmdline
        rw [show promInitCmdline (kernelLaunch s.mem ld.cmdline) = cmdline from h] at hlen
        exact Or.inl hlen
      · omega
    · constructor
      · omega
      · intro _
        show bootResult cmdline ≠ .launched
        rw [bootResult, if_neg (by omega)]
        decide

theorem bootDelivers_iff_delivered {cmdline : List UInt8} (hne : cmdline ≠ []) (ld : Loader)
    {s : Shell} (hupload : s.hasUpload = true) :
    BootDelivers ld s cmdline ↔
      Delivered cmdline (bootResult cmdline) (bootTurn ld s cmdline) := by
  have hends := ends_cmdBoot hne ld hupload
  constructor
  · intro h
    obtain ⟨p, ⟨host, hleft, hdelivered⟩, hleft', hright⟩ := h.both hends
    obtain rfl : host = bootResult cmdline := Proc.done.inj (hleft.symm.trans hleft')
    rw [← hright]
    exact hdelivered
  · intro h
    refine hends.mono fun p hp => ⟨_, hp.1, ?_⟩
    rw [hp.2]
    exact h

/-- **Which command lines arrive**: those of at most 251 characters.  The host itself
refuses a line whose length is not a word. -/
theorem bootDelivers_iff {cmdline : List UInt8} (hne : cmdline ≠ [])
    (hprint : ∀ c ∈ cmdline, Printable c) (ld : Loader) {s : Shell}
    (hupload : s.hasUpload = true) :
    BootDelivers ld s cmdline ↔ cmdline.length ≤ 251 ∨ 2 ^ 32 ≤ cmdline.length :=
  (bootDelivers_iff_delivered hne ld hupload).trans (delivered_iff hprint ld s)

/-- A console with a kernel in memory. -/
def uploadedShell : Shell := { freshShell with hasUpload := true }

theorem printable_replicate (n : Nat) : ∀ c ∈ List.replicate n (0x61 : UInt8), Printable c := by
  intro c hc
  rw [List.eq_of_mem_replicate hc]
  decide

theorem replicate_ne_nil {n : Nat} (hn : 0 < n) : List.replicate n (0x61 : UInt8) ≠ [] :=
  List.length_pos_iff.mp (by rwa [List.length_replicate])

theorem bootDelivers_iff_short :
    BootDelivers ⟨2048, []⟩ uploadedShell (List.replicate 251 0x61) :=
  (bootDelivers_iff (replicate_ne_nil (by decide)) (printable_replicate 251) ⟨2048, []⟩ rfl).mpr
    (Or.inl (Nat.le_of_eq List.length_replicate))

/-- **One character more is cut off**, and nobody says so. -/
theorem not_bootDelivers_long :
    ¬ BootDelivers ⟨2048, []⟩ uploadedShell (List.replicate 252 0x61) := by
  intro h
  rw [bootDelivers_iff_delivered (replicate_ne_nil (by decide)) _ rfl,
    delivered_iff (printable_replicate 252), List.length_replicate] at h
  omega

end Kloader
end Blackroo
