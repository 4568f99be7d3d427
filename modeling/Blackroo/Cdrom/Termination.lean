import Mathlib.Algebra.Order.Group.Nat
import Blackroo.Cdrom.Registers

/-!
# How many register accesses there are

`psxcd.c` means to be safe against a drive that is absent or broken: every loop that waits
for the drive counts.  The bounds are added up here, function by function, for registers
that return any values whatever.

The drain loop of `psxcd_hw_stop` does not count.  It goes on as long as the interrupt flag reads as
something other than zero, so a drive that interrupts endlessly, or a bus that floats high, keeps it
there for ever.  `cd_path_ends_iff` says that nothing else can, in terms of the values that the
registers return: which of them a drain loop takes for the interrupt flag follows from the values
before (`nextFlag`, `afterPause`), and each of the functions ends exactly when one of these is zero
in every drain loop it comes to.  The accesses it makes are bounded by a constant and the turns of
the drain loops.
-/

namespace Blackroo
namespace Cdrom
namespace Registers

open Interaction

/-- How many reads and how many accesses there have been. -/
structure Position where
  reads : Nat
  accesses : Nat
  deriving DecidableEq, Repr

/-- Registers that return a given sequence of values, and buffers with arbitrary contents. -/
def registers (values : Nat → UInt32) (sectors : Nat → Iso9660.Sector) :
    Handler Query Answer Position
  | .read _, p => (values p.reads, ⟨p.reads + 1, p.accesses + 1⟩)
  | .write _ _, p => ((), { p with accesses := p.accesses + 1 })
  | .note _, p => ((), p)
  | .data, p => (sectors p.reads, p)

/-- Reads and writes count. -/
def price : Query → Nat
  | .read _ => 1
  | .write _ _ => 1
  | .note _ => 0
  | .data => 0

theorem accesses_registers (values : Nat → UInt32) (sectors : Nat → Iso9660.Sector) (q : Query)
    (p : Position) : (registers values sectors q p).2.accesses ≤ p.accesses + price q := by
  cases q <;> exact le_rfl

/-! ## The bounds -/

theorem atMost_readReg (r : Reg) : AtMost price (readReg r) 1 := AtMost.query (Query.read r)

theorem atMost_writeReg (r : Reg) (v : UInt32) : AtMost price (writeReg r v) 1 :=
  AtMost.query (Query.write r v)

theorem atMost_note (n : Note) : AtMost price (note n) 0 := AtMost.query (Query.note n)

theorem atMost_cdTakeIrq (v : Vars) : AtMost price (cdTakeIrq v) 2 :=
  (atMost_readReg _).bind fun _ => (atMost_writeReg _ _).bind fun _ => AtMost.ret _ 0

theorem atMost_cdReleaseIrq (v : Vars) : AtMost price (cdReleaseIrq v) 2 :=
  (atMost_writeReg _ _).bind fun _ => atMost_writeReg _ _

theorem atMost_cdWaitBusy : AtMost price cdWaitBusy 200000 :=
  (((atMost_readReg _).bind fun _ => AtMost.ret _ 0).poll 200000).bind fun _ => AtMost.ret _ 0

theorem atMost_cdInt : AtMost price cdInt 2 :=
  (atMost_writeReg _ _).bind fun _ => (atMost_readReg _).bind fun _ => AtMost.ret _ 0

theorem atMost_cdAck : AtMost price cdAck 3 :=
  (atMost_writeReg _ _).bind fun _ => (atMost_writeReg _ _).bind fun _ => atMost_writeReg _ _

theorem atMost_cdWaitInt (spins : Nat) : AtMost price (cdWaitInt spins) (spins * 2) :=
  (atMost_cdInt.bind fun _ => AtMost.ret _ 0).poll spins

theorem atMost_cdResult (n : Nat) : AtMost price (cdResult n) (2 * n + 1) := by
  induction n with
  | zero => exact (atMost_readReg _).bind fun _ => AtMost.ret _ 0
  | succ n ih =>
    rw [show 2 * (n + 1) + 1 = 1 + (1 + (2 * n + 1 + 0)) by omega]
    refine (atMost_readReg _).bind fun hsts => ?_
    split
    · exact AtMost.ret _ _
    · exact (atMost_readReg _).bind fun _ => ih.bind fun _ => AtMost.ret _ 0

/-- Reading the response and acknowledging it. -/
theorem atMost_cdResult_cdAck {α : Type} {f : Unit → Io α} {n : Nat}
    (hf : AtMost price (f ()) n) :
    AtMost price (cdResult 16 >>= fun _ => cdAck >>= f) (36 + n) := by
  rw [show 36 + n = 2 * 16 + 1 + (3 + n) by omega]
  exact (atMost_cdResult 16).bind fun _ => atMost_cdAck.bind fun _ => hf

theorem atMost_writeParameters (par : List UInt32) :
    AtMost price (writeParameters par) par.length := by
  induction par with
  | nil => exact AtMost.ret _ 0
  | cons p par ih =>
    rw [List.length_cons, Nat.add_comm]
    exact (atMost_writeReg _ _).bind fun _ => ih

theorem atMost_cdDo (cmd : UInt32) (par : List UInt32) (spins : Nat) :
    AtMost price (cdDo cmd par spins) (200038 + par.length + spins * 2) := by
  rw [show 200038 + par.length + spins * 2 =
    200000 + (1 + (par.length + (1 + (spins * 2 + (0 + (36 + 0)))))) by omega]
  refine atMost_cdWaitBusy.bind fun free => ?_
  split
  · refine (atMost_writeReg _ _).bind fun _ => (atMost_writeParameters par).bind fun _ =>
      (atMost_writeReg _ _).bind fun _ => (atMost_cdWaitInt spins).bind fun t => ?_
    cases t with
    | none => exact AtMost.ret _ _
    | some t =>
      exact (atMost_note _).bind fun _ => atMost_cdResult_cdAck (AtMost.ret _ 0)
  · exact AtMost.ret _ _

theorem atMost_probeDrive (n : Nat) : AtMost price (probeDrive n) (n * 1000038) := by
  induction n with
  | zero => exact AtMost.ret _ _
  | succ n ih =>
    rw [show (n + 1) * 1000038 = 200038 + 0 + 400000 * 2 + n * 1000038 by omega]
    refine (atMost_cdDo 0x01 [] 400000).bind fun t => ?_
    cases t with
    | none => exact AtMost.ret _ _
    | some t => exact ih

theorem atMost_setupBus : AtMost price setupBus 10 :=
  (atMost_writeReg _ _).bind fun _ => (atMost_writeReg _ _).bind fun _ =>
    (atMost_readReg _).bind fun _ => (atMost_writeReg _ _).bind fun _ =>
      (atMost_writeReg _ _).bind fun _ => (atMost_writeReg _ _).bind fun _ =>
        (atMost_writeReg _ _).bind fun _ => (atMost_writeReg _ _).bind fun _ =>
          (atMost_writeReg _ _).bind fun _ => atMost_writeReg _ _

theorem atMost_initDrive : AtMost price initDrive 12200074 := by
  rw [show 12200074 = 200038 + 0 + 2000000 * 2 + (4000000 * 2 + (36 + 0)) from rfl]
  refine (atMost_cdDo 0x0a [] 2000000).bind fun t => ?_
  split
  · refine (atMost_cdWaitInt 4000000).bind fun t => ?_
    cases t with
    | none => exact AtMost.ret _ _
    | some t =>
      exact (atMost_cdResult 16).bind fun _ => atMost_cdAck
  · exact AtMost.ret _ _

theorem atMost_psxcdHwInit (v : Vars) : AtMost price (psxcdHwInit v) 17000000 := by
  refine AtMost.mono (m := 2 + (10 + (2 * 1000038 + (12200074 + (1000038 + (1000039 + (2 + 0)))))))
    ?_ (by decide)
  refine (atMost_cdTakeIrq v).bind fun v => atMost_setupBus.bind fun _ =>
    (atMost_probeDrive 2).bind fun found => ?_
  split
  · exact atMost_initDrive.bind fun _ => (atMost_cdDo 0x0c [] 400000).bind fun _ =>
      (atMost_cdDo 0x0e [0x80] 400000).bind fun _ => (atMost_cdReleaseIrq v).bind fun _ =>
        AtMost.ret _ 0
  · refine AtMost.mono (m := 2 + 0) ?_ (by decide)
    exact (atMost_cdReleaseIrq v).bind fun _ => AtMost.ret _ 0

theorem atMost_drainTurn : AtMost price drainTurn 38 := by
  refine atMost_cdInt.bind (n := 36) fun t => ?_
  split
  · exact AtMost.ret _ _
  · exact @atMost_cdResult_cdAck _ (fun _ => pure true) 0 (AtMost.ret _ 0)

theorem atMost_pauseDrive : AtMost price pauseDrive 9000110 := by
  rw [show 9000110 = 200038 + 0 + 400000 * 2 + (4000000 * 2 + 72) from rfl]
  refine (atMost_cdDo 0x09 [] 400000).bind fun t => ?_
  cases t with
  | none => exact AtMost.ret _ _
  | some t =>
    dsimp only
    split
    · refine AtMost.mono (m := 4000000 * 2 + 36) ?_ (by decide)
      exact (atMost_cdWaitInt 4000000).bind fun _ => (atMost_cdResult 16).bind fun _ => atMost_cdAck
    · refine AtMost.mono (m := 36 + (4000000 * 2 + 36)) ?_ (by decide)
      refine atMost_cdResult_cdAck ?_
      refine (atMost_cdWaitInt 4000000).bind fun t => ?_
      cases t with
      | none => exact AtMost.ret _ _
      | some t => exact (atMost_cdResult 16).bind fun _ => atMost_cdAck

theorem atMost_psxcdHwStop (v : Vars) : AtMost (loopCost price) (psxcdHwStop v) 9000118 := by
  rw [psxcdHwStop]
  split
  · rw [show 9000118 = 2 + (0 + (9000110 + 2 + (2 + (0 + (2 + 0))))) from rfl]
    exact (atMost_cdTakeIrq v).lift.bind fun v => AtMost.loop.bind fun _ =>
      (atMost_pauseDrive.bind fun _ => atMost_cdReleaseIrq v).lift.bind fun _ =>
        (atMost_cdTakeIrq _).lift.bind fun v => AtMost.loop.bind fun _ =>
          (atMost_cdReleaseIrq v).lift.bind fun _ => AtMost.ret _ 0
  · exact AtMost.ret _ _

theorem atMost_waitFlag (r : Reg) (up : UInt32 → Bool) (n : Nat) :
    AtMost price (waitFlag r up n) (n + 1) := by
  rw [show n + 1 = n * 1 + (1 + 0) by omega]
  exact (((atMost_readReg r).bind fun _ => AtMost.ret _ 0).poll n).bind fun _ =>
    (atMost_readReg r).bind fun _ => AtMost.ret _ 0

theorem atMost_requestData : AtMost price requestData 6 :=
  (atMost_writeReg _ _).bind fun _ => (atMost_readReg _).bind fun _ =>
    (atMost_writeReg _ _).bind fun _ => (atMost_readReg _).bind fun _ =>
      (atMost_writeReg _ _).bind fun _ => atMost_writeReg _ _

theorem atMost_startDma (buf : UInt32) : AtMost price (startDma buf) 3 :=
  (atMost_writeReg _ _).bind fun _ => (atMost_writeReg _ _).bind fun _ =>
    (atMost_note _).bind fun _ => atMost_writeReg _ _

theorem atMost_giveUp (v : Vars) : AtMost price (giveUp v) 5 :=
  atMost_cdAck.bind fun _ => (atMost_cdReleaseIrq v).bind fun _ => AtMost.ret _ 0

theorem atMost_transfer (v : Vars) (lba buf : UInt32) :
    AtMost price (transfer v lba buf) 2200049 := by
  rw [show 2200049 = 2 * 16 + 1 + (6 + (200000 + 1 + (3 + (2000000 + 1 + 5)))) from rfl]
  refine (atMost_cdResult 16).bind fun _ => atMost_requestData.bind fun _ =>
    (atMost_waitFlag _ _ 200000).bind fun ready => ?_
  split
  · refine (atMost_startDma buf).bind fun _ => (atMost_waitFlag _ _ 2000000).bind fun done => ?_
    split
    · exact (AtMost.query Query.data).bind fun _ => atMost_cdAck.bind fun _ =>
        (atMost_cdReleaseIrq v).bind fun _ => AtMost.ret _ 0
    · exact atMost_giveUp v
  · exact (atMost_giveUp v).mono (by decide)

theorem atMost_fetch (v : Vars) (lba buf : UInt32) :
    AtMost price (fetch v lba buf) 18200049 := by
  rw [show 18200049 = 8000000 * 2 + 2200049 from rfl]
  refine (atMost_cdWaitInt 8000000).bind fun t => ?_
  split
  · exact atMost_transfer v lba buf
  · refine AtMost.mono (m := 2 + 0) ?_ (by decide)
    exact (atMost_cdReleaseIrq v).bind fun _ => AtMost.ret _ 0

theorem atMost_startRun (v : Vars) (lba buf : UInt32) :
    AtMost price (startRun v lba buf) 20200128 := by
  have hfail : AtMost price (cdReleaseIrq v >>= fun _ => pure ((none : Option Iso9660.Sector), v))
      (2 + 0) := (atMost_cdReleaseIrq v).bind fun _ => AtMost.ret _ 0
  rw [show 20200128 = 200038 + 3 + 400000 * 2 + (200038 + 0 + 400000 * 2 + (0 + 18200049)) from rfl]
  refine (atMost_cdDo 0x02 (setlocParameters lba) 400000).bind fun t => ?_
  split
  · refine (atMost_cdDo 0x06 [] 400000).bind fun t => ?_
    split
    · exact (atMost_note _).bind fun _ => atMost_fetch _ lba buf
    · exact hfail.mono (by decide)
  · exact hfail.mono (by decide)

theorem atMost_psxcdHwRead (v : Vars) (lba buf : UInt32) :
    AtMost (loopCost price) (psxcdHwRead v lba buf) 30000000 := by
  rw [show 30000000 = 2 + 29999998 from rfl]
  refine (atMost_cdTakeIrq v).lift.bind fun v => ?_
  split
  · exact (atMost_startRun v lba buf).lift.mono (by decide)
  · split
    · exact (atMost_fetch v lba buf).lift.mono (by decide)
    · refine AtMost.mono (m := 2 + (9000118 + (2 + 20200128))) ?_ (by decide)
      exact (atMost_cdReleaseIrq v).lift.bind fun _ => (atMost_psxcdHwStop v).bind fun v =>
        ((atMost_cdTakeIrq v).bind fun v => atMost_startRun v lba buf).lift

/-! ## The lookup -/

/-- A read of the lookup costs what `psxcd_hw_read` costs. -/
def lookupPrice : Iso9660.Query → Nat
  | .hwRead _ => 30000000
  | .touched _ => 0

theorem atMost_hwRead (lba : UInt32) : AtMost lookupPrice (Iso9660.hwRead lba) 30000000 :=
  AtMost.query (Iso9660.Query.hwRead lba)

theorem atMost_look {α : Type} (x : Traced Iso9660.Access α) :
    AtMost lookupPrice (Iso9660.look x) 0 :=
  (AtMost.query (Iso9660.Query.touched x.log)).bind fun _ => AtMost.ret _ 0

section Lookup

variable (behind : Nat → UInt8) (want : Iso9660.FileName) (lba len : UInt32)

theorem atMost_searchRoot (n j : Nat) :
    AtMost lookupPrice (Iso9660.searchRoot behind want lba len n j) (n * 30000000) := by
  induction n generalizing j with
  | zero => exact AtMost.ret _ _
  | succ n ih =>
    rw [Iso9660.searchRoot]
    split
    · rw [show (n + 1) * 30000000 = 30000000 + (0 + n * 30000000) by omega]
      refine (atMost_hwRead _).bind fun r => ?_
      cases r with
      | none => exact AtMost.ret _ _
      | some b =>
        refine (atMost_look _).bind fun e => ?_
        cases e with
        | none => exact ih (j + 1)
        | some e => exact AtMost.ret _ _
    · exact AtMost.ret _ _

theorem atMost_listRoot (n j : Nat) :
    AtMost lookupPrice (Iso9660.listRoot behind lba len n j) (n * 30000000) := by
  induction n generalizing j with
  | zero => exact AtMost.ret _ _
  | succ n ih =>
    rw [Iso9660.listRoot]
    split
    · rw [show (n + 1) * 30000000 = 30000000 + (0 + n * 30000000) by omega]
      refine (atMost_hwRead _).bind fun r => ?_
      cases r with
      | none => exact AtMost.ret _ _
      | some b => exact (atMost_look _).bind fun _ => ih (j + 1)
    · exact AtMost.ret _ _

/-- At most 129 sectors are read: the descriptor, and the directory twice. -/
theorem atMost_locate : AtMost lookupPrice (Iso9660.locate behind want) (129 * 30000000) := by
  rw [show 129 * 30000000 = 30000000 + (0 + (64 * 30000000 + 64 * 30000000)) from rfl]
  refine (atMost_hwRead 16).bind fun r => ?_
  cases r with
  | none => exact AtMost.ret _ _
  | some b =>
    refine (atMost_look _).bind fun d => ?_
    cases d with
    | error e => exact AtMost.ret _ _
    | ok root =>
      refine (atMost_searchRoot behind want root.1 root.2 64 0).bind fun found => ?_
      match found with
      | .error e => exact AtMost.ret _ _
      | .ok (some e) =>
        dsimp only
        split <;> exact AtMost.ret _ _
      | .ok none =>
        exact (atMost_listRoot behind root.1 root.2 64 0).bind fun _ => AtMost.ret _ 0

theorem atMost_psxcdIsoLookup (probeBuf : UInt32) (place : Iso9660.Place) (v : Vars) :
    AtMost (loopCost price) (psxcdIsoLookup probeBuf behind want place v) (129 * 30000000) := by
  refine AtMost.translate (w := lookupPrice) (fun q v => ?_) ?_ v
  · cases q with
    | hwRead lba => exact atMost_psxcdHwRead v lba probeBuf
    | touched log => exact AtMost.ret _ _
  · refine (atMost_locate behind want).bind (n := 0) fun r => ?_
    cases r <;> exact AtMost.ret _ _

end Lookup

/-! ## Which values are read for what -/

section Values

variable (values : Nat → UInt32)

/-- The number of values that `cd_result` reads from the `i`th on, with room for `n` bytes. -/
def resultReads : Nat → Nat → Nat
  | 0, _ => 1
  | n + 1, i => if values i &&& 0x20 = 0 then 1 else 2 + resultReads n (i + 2)

/-- A drain loop that has read an interrupt at `i` reads the flag again at this place. -/
def nextFlag (i : Nat) : Nat := i + 1 + resultReads values 16 (i + 1)

/-- The drain loop that reads the flag at `i` first finds it clear at `j`. -/
inductive Clears : Nat → Nat → Prop
  | here {i : Nat} (h : values i &&& 7 = 0) : Clears i i
  | next {i j : Nat} (h : values i &&& 7 ≠ 0) (hn : Clears (nextFlag values i) j) : Clears i j

/-- The first of `n` values from the `i`th on that ends a poll. -/
def pollAt (stop : UInt32 → Prop) [DecidablePred stop] : Nat → Nat → Option Nat
  | 0, _ => none
  | n + 1, i => if stop (values i) then some i else pollAt stop n (i + 1)

/-- The value behind a poll. -/
def afterPoll (stop : UInt32 → Prop) [DecidablePred stop] (n i : Nat) : Nat :=
  (pollAt values stop n i).elim (i + n) (· + 1)

/-- The value behind `cd_result`. -/
def afterResult (i : Nat) : Nat := i + resultReads values 16 i

/-- The controller is not busy. -/
abbrev Free (x : UInt32) : Prop := x &&& 0x80 = 0

/-- There is an interrupt. -/
abbrev Flagged (x : UInt32) : Prop := x &&& 7 ≠ 0

/-- The value behind the `Pause` of `psxcd_hw_stop`, if its first one is the `i`th. -/
def afterPause (i : Nat) : Nat :=
  match pollAt values Free 200000 i with
  | none => i + 200000
  | some b =>
    match pollAt values Flagged 400000 (b + 1) with
    | none => b + 1 + 400000
    | some t =>
      if values t &&& 7 = 3 then
        afterResult values (afterPoll values Flagged 4000000 (afterResult values (t + 1)))
      else
        let m := afterResult values (afterResult values (t + 1))
        match pollAt values Flagged 4000000 m with
        | none => m + 4000000
        | some u => afterResult values (u + 1)

/-- **The condition for `psxcd_hw_stop`**: both drain loops find the flag clear.  The first value is
the interrupt mask in either half. -/
def StopClears (v : Vars) (i : Nat) : Prop :=
  v.psxcdStreaming = true →
    ∃ j, Clears values (i + 1) j ∧ ∃ j', Clears values (afterPause values (j + 1) + 1) j'

/-- **The condition for `psxcd_hw_read`**: it stops the drive only on a discontinuity. -/
def ReadClears (v : Vars) (lba : UInt32) (i : Nat) : Prop :=
  lba ≠ v.psxcdNextLba → StopClears values v (i + 1)

end Values

section Reads

variable (values : Nat → UInt32) (sectors : Nat → Iso9660.Sector)

/-- A poll of a register reads its values one by one. -/
theorem run_poll {α : Type} (step : Io (Option α)) (stop : UInt32 → Prop) [DecidablePred stop]
    (f : UInt32 → α) (hstep : ∀ s, (run (registers values sectors) step s).1 =
        (if stop (values s.reads) then some (f (values s.reads)) else none) ∧
      (run (registers values sectors) step s).2.reads = s.reads + 1) (n : Nat) (s : Position) :
    (run (registers values sectors) (step.poll n) s).1 =
        (pollAt values stop n s.reads).map (fun i => f (values i)) ∧
      (run (registers values sectors) (step.poll n) s).2.reads =
        afterPoll values stop n s.reads := by
  induction n generalizing s with
  | zero => exact ⟨rfl, rfl⟩
  | succ n ih =>
    obtain ⟨hvalue, hreads⟩ := hstep s
    rw [Tree.poll, run_bind, hvalue, afterPoll, pollAt]
    by_cases hs : stop (values s.reads)
    · rw [if_pos hs, if_pos hs]
      exact ⟨rfl, hreads⟩
    · rw [if_neg hs, if_neg hs]
      obtain ⟨hvalue', hreads'⟩ := ih (run (registers values sectors) step s).2
      rw [hreads] at hvalue' hreads'
      refine ⟨hvalue', hreads'.trans ?_⟩
      rw [afterPoll, Nat.add_right_comm, Nat.add_assoc]

theorem run_cdWaitBusy (s : Position) :
    (run (registers values sectors) cdWaitBusy s).1 = (pollAt values Free 200000 s.reads).isSome ∧
      (run (registers values sectors) cdWaitBusy s).2.reads =
        afterPoll values Free 200000 s.reads := by
  obtain ⟨hvalue, hreads⟩ := run_poll values sectors
    (do return if (← readReg .cd0) &&& 0x80 = 0 then some () else none) Free (fun _ => ())
    (fun s => ⟨rfl, rfl⟩) 200000 s
  rw [cdWaitBusy, run_bind, hvalue]
  exact ⟨Option.isSome_map, hreads⟩

theorem run_cdWaitInt (spins : Nat) (s : Position) :
    (run (registers values sectors) (cdWaitInt spins) s).1 =
        (pollAt values Flagged spins s.reads).map (fun i => values i &&& 7) ∧
      (run (registers values sectors) (cdWaitInt spins) s).2.reads =
        afterPoll values Flagged spins s.reads := by
  refine run_poll values sectors _ Flagged (fun x => x &&& 7) (fun s => ⟨?_, rfl⟩) spins s
  show (if values s.reads &&& 7 = 0 then none else some (values s.reads &&& 7)) = _
  rw [ite_not]

theorem reads_cdResult (n : Nat) (s : Position) :
    (run (registers values sectors) (cdResult n) s).2.reads =
      s.reads + resultReads values n s.reads := by
  induction n generalizing s with
  | zero => rfl
  | succ n ih =>
    rw [cdResult, run_bind, resultReads]
    show (run (registers values sectors) (if values s.reads &&& 0x20 = 0 then pure [] else _)
      _).2.reads = _
    by_cases h : values s.reads &&& 0x20 = 0
    · rw [if_pos h, if_pos h]
      rfl
    · rw [if_neg h, if_neg h, run_bind, run_bind]
      have hrest := ih ⟨s.reads + 2, s.accesses + 2⟩
      rw [← Nat.add_assoc]
      exact hrest

theorem reads_cdAck (s : Position) : (run (registers values sectors) cdAck s).2.reads =
    s.reads := rfl

/-- A command without parameters. -/
theorem run_cdDo_nil (cmd : UInt32) (spins : Nat) (s : Position) :
    match pollAt values Free 200000 s.reads with
    | none => (run (registers values sectors) (cdDo cmd [] spins) s).1 = none ∧
        (run (registers values sectors) (cdDo cmd [] spins) s).2.reads = s.reads + 200000
    | some b =>
      match pollAt values Flagged spins (b + 1) with
      | none => (run (registers values sectors) (cdDo cmd [] spins) s).1 = none ∧
          (run (registers values sectors) (cdDo cmd [] spins) s).2.reads = b + 1 + spins
      | some t => (run (registers values sectors) (cdDo cmd [] spins) s).1 = some (values t &&& 7) ∧
          (run (registers values sectors) (cdDo cmd [] spins) s).2.reads =
            afterResult values (t + 1) := by
  obtain ⟨hfree, hreads⟩ := run_cdWaitBusy values sectors s
  rw [cdDo, run_bind, hfree]
  rw [afterPoll] at hreads
  cases hb : pollAt values Free 200000 s.reads with
  | none =>
    rw [hb] at hreads
    exact ⟨rfl, hreads⟩
  | some b =>
    rw [hb] at hreads
    -- the bank, no parameters, and the command
    obtain ⟨u, hu, hrun⟩ : ∃ u : Position, u.reads = b + 1 ∧ ∀ {α : Type} (p : Io α),
        run (registers values sectors) (do
          writeReg .cd0 0
          writeParameters []
          writeReg .cd1 cmd
          p) (run (registers values sectors) cdWaitBusy s).2 = run (registers values sectors) p u :=
      ⟨⟨_, (run (registers values sectors) cdWaitBusy s).2.accesses + 1 + 1⟩, hreads, fun p => rfl⟩
    obtain ⟨hvalue, hreads⟩ := run_cdWaitInt values sectors spins u
    rw [hu] at hvalue hreads
    rw [afterPoll] at hreads
    dsimp only [Option.isSome_some]
    rw [if_pos rfl, hrun, run_bind, hvalue]
    cases ht : pollAt values Flagged spins (b + 1) with
    | none =>
      rw [ht] at hreads
      exact ⟨rfl, hreads⟩
    | some t =>
      rw [ht] at hreads
      refine ⟨?_, ?_⟩
      · simp only [Option.map_some, run_bind, run_pure]
      · simp only [Option.map_some, run_bind, run_pure, reads_cdAck, reads_cdResult]
        rw [show ∀ w, (run (registers values sectors) (note .answer) w).2 = w from fun _ => rfl,
          hreads]
        rfl

theorem reads_pauseDrive (s : Position) :
    (run (registers values sectors) pauseDrive s).2.reads = afterPause values s.reads := by
  have hdo := run_cdDo_nil values sectors 0x09 400000 s
  rw [pauseDrive, run_bind, afterPause]
  cases hb : pollAt values Free 200000 s.reads with
  | none =>
    rw [hb] at hdo
    rw [hdo.1]
    exact hdo.2
  | some b =>
    rw [hb] at hdo
    dsimp only at hdo ⊢
    cases ht : pollAt values Flagged 400000 (b + 1) with
    | none =>
      rw [ht] at hdo
      rw [hdo.1]
      exact hdo.2
    | some t =>
      rw [ht] at hdo
      rw [hdo.1]
      dsimp only
      split
      · simp only [run_bind, reads_cdAck, reads_cdResult, (run_cdWaitInt values sectors _ _).2,
          hdo.2]
        rfl
      · obtain ⟨u, hu, hrun⟩ : ∃ u : Position,
            u.reads = afterResult values (afterResult values (t + 1)) ∧ ∀ {α : Type} (p : Io α),
              run (registers values sectors) (do
                let _ ← cdResult 16
                cdAck
                p) (run (registers values sectors) (cdDo 0x09 [] 400000) s).2 =
              run (registers values sectors) p u := by
          refine ⟨_, ?_, fun p => by rw [run_bind, run_bind]⟩
          rw [reads_cdAck, reads_cdResult, hdo.2]
          rfl
        obtain ⟨hvalue, hreads⟩ := run_cdWaitInt values sectors 4000000 u
        rw [hu] at hvalue hreads
        rw [afterPoll] at hreads
        rw [hrun, run_bind, hvalue]
        cases hq : pollAt values Flagged 4000000
          (afterResult values (afterResult values (t + 1))) with
        | none =>
          rw [hq] at hreads
          exact hreads
        | some q =>
          rw [hq] at hreads
          simp only [Option.map_some, run_bind, reads_cdAck, reads_cdResult, hreads]
          rfl

end Reads

/-! ## Termination -/

section Halting

variable {values : Nat → UInt32} {sectors : Nat → Iso9660.Sector}

variable (sectors) in
theorem run_drainTurn_of_clear {s : Position} (h : values s.reads &&& 7 = 0) :
    (run (registers values sectors) drainTurn s).1 = false ∧
      (run (registers values sectors) drainTurn s).2.reads = s.reads + 1 := by
  rw [drainTurn, run_bind]
  show (run (registers values sectors) (if values s.reads &&& 7 = 0 then pure false else _)
    _).1 = _ ∧
    (run (registers values sectors) (if values s.reads &&& 7 = 0 then pure false else _)
      _).2.reads = _
  rw [if_pos h]
  exact ⟨rfl, rfl⟩

variable (sectors) in
theorem run_drainTurn_of_flagged {s : Position} (h : values s.reads &&& 7 ≠ 0) :
    (run (registers values sectors) drainTurn s).1 = true ∧
      (run (registers values sectors) drainTurn s).2.reads = nextFlag values s.reads := by
  rw [drainTurn, run_bind]
  show (run (registers values sectors) (if values s.reads &&& 7 = 0 then pure false else _)
    _).1 = _ ∧
    (run (registers values sectors) (if values s.reads &&& 7 = 0 then pure false else _)
      _).2.reads = _
  rw [if_neg h, run_bind, run_bind, run_pure]
  exact ⟨rfl, reads_cdResult values sectors 16 ⟨s.reads + 1, s.accesses + 2⟩⟩

theorem clears_of_loopEnds {s s' : Position} {k : Nat}
    (h : LoopEnds (registers values sectors) drainTurn s k s') :
    ∃ j, Clears values s.reads j ∧ s'.reads = j + 1 := by
  induction h with
  | @stop s hs =>
    by_cases hflag : values s.reads &&& 7 = 0
    · exact ⟨s.reads, .here hflag, (run_drainTurn_of_clear sectors hflag).2⟩
    · rw [(run_drainTurn_of_flagged sectors hflag).1] at hs
      cases hs
  | @again s s' k hs _ ih =>
    by_cases hflag : values s.reads &&& 7 = 0
    · rw [(run_drainTurn_of_clear sectors hflag).1] at hs
      cases hs
    · obtain ⟨j, hj, hs'⟩ := ih
      rw [(run_drainTurn_of_flagged sectors hflag).2] at hj
      exact ⟨j, .next hflag hj, hs'⟩

theorem loopEnds_of_clears {i j : Nat} (h : Clears values i j) {s : Position} (hs : s.reads = i) :
    ∃ k s', LoopEnds (registers values sectors) drainTurn s k s' ∧ s'.reads = j + 1 := by
  induction h generalizing s with
  | here hflag =>
    subst hs
    obtain ⟨hstop, hreads⟩ := run_drainTurn_of_clear sectors hflag
    exact ⟨1, _, .stop hstop, hreads⟩
  | next hflag _ ih =>
    subst hs
    obtain ⟨hagain, hreads⟩ := run_drainTurn_of_flagged sectors hflag
    obtain ⟨k, s', hl, hs'⟩ := ih hreads
    exact ⟨k + 1, s', .again hagain hl, hs'⟩

/-- A drain loop, and what comes behind it. -/
theorem halts_drain_bind {α : Type} {f : Unit → Driver α} {P : Nat → Prop}
    (hf : ∀ t, Halts (registers values sectors) drainTurn (f ()) t ↔ P t.reads) (s : Position) :
    Halts (registers values sectors) drainTurn (loop >>= f) s ↔
      ∃ j, Clears values s.reads j ∧ P (j + 1) := by
  rw [halts_loop_bind]
  constructor
  · rintro ⟨k, t, hl, ht⟩
    obtain ⟨j, hj, hreads⟩ := clears_of_loopEnds hl
    exact ⟨j, hj, hreads ▸ (hf t).mp ht⟩
  · rintro ⟨j, hj, hP⟩
    obtain ⟨k, t, hl, hreads⟩ := loopEnds_of_clears hj rfl
    exact ⟨k, t, hl, (hf t).mpr (hreads.symm ▸ hP)⟩

theorem halts_psxcdHwStop_iff (v : Vars) (s : Position) :
    Halts (registers values sectors) drainTurn (psxcdHwStop v) s ↔ StopClears values v s.reads := by
  rw [psxcdHwStop]
  by_cases hv : v.psxcdStreaming = true
  · rw [if_pos hv, halts_lift_bind]
    refine (halts_drain_bind (P := fun i => ∃ j, Clears values (afterPause values i + 1) j)
      (fun t => ?_) _).trans ⟨fun h _ => h, fun h => h hv⟩
    rw [halts_lift_bind, halts_lift_bind]
    refine (halts_drain_bind (P := fun _ => True) (fun t => ?_) _).trans ?_
    · rw [halts_lift_bind]
      exact iff_of_true ⟨0, _, _, .done _ _⟩ trivial
    · simp only [and_true]
      rw [run_bind, ← reads_pauseDrive values sectors t]
      exact Iff.rfl
  · rw [if_neg hv]
    exact iff_of_true ⟨0, _, _, .done _ _⟩ fun h => absurd h hv

theorem halts_psxcdHwRead_iff (v : Vars) (lba buf : UInt32) (s : Position) :
    Halts (registers values sectors) drainTurn (psxcdHwRead v lba buf) s ↔
      ReadClears values v lba s.reads := by
  have hstr : (run (registers values sectors) (cdTakeIrq v) s).1.psxcdStreaming =
    v.psxcdStreaming := rfl
  have hnext : (run (registers values sectors) (cdTakeIrq v) s).1.psxcdNextLba =
    v.psxcdNextLba := rfl
  rw [psxcdHwRead, halts_lift_bind, hstr, hnext]
  by_cases hv : v.psxcdStreaming = false
  · rw [if_pos hv]
    exact iff_of_true (halts_lift _ _) fun _ h => absurd (hv.symm.trans h) Bool.false_ne_true
  rw [if_neg hv]
  by_cases hlba : lba = v.psxcdNextLba
  · rw [if_pos hlba]
    exact iff_of_true (halts_lift _ _) fun h => absurd hlba h
  · rw [if_neg hlba, halts_lift_bind, halts_bind_lift, halts_psxcdHwStop_iff]
    exact ⟨fun h _ => h, fun h => h hlba⟩

/-! ### The lookup -/

/-- With these variables and at this position a program over the sectors comes to a call of
`psxcd_hw_read` for `lba`. -/
inductive ComesTo (values : Nat → UInt32) (sectors : Nat → Iso9660.Sector) (buf : UInt32)
    {α : Type} :
    Tree Iso9660.Query Iso9660.Answer α → Vars → Position → UInt32 → Vars → Position → Prop
  | here {lba : UInt32} {next : Iso9660.Answer (.hwRead lba) → Tree Iso9660.Query Iso9660.Answer α}
      (v : Vars) (s : Position) : ComesTo values sectors buf (.ask (.hwRead lba) next) v s lba v s
  | later {lba lba' : UInt32}
      {next : Iso9660.Answer (.hwRead lba) → Tree Iso9660.Query Iso9660.Answer α}
      {v v' v'' : Vars} {s s' s'' : Position} {k : Nat} {r : Option Iso9660.Sector}
      (hr : Ends (registers values sectors) drainTurn (psxcdHwRead v lba buf) s k (r, v') s')
      (h : ComesTo values sectors buf (next r) v' s' lba' v'' s'') :
      ComesTo values sectors buf (.ask (.hwRead lba) next) v s lba' v'' s''
  | touched {log : List Iso9660.Access} {lba : UInt32}
      {next : Iso9660.Answer (.touched log) → Tree Iso9660.Query Iso9660.Answer α}
      {v v' : Vars} {s s' : Position} (h : ComesTo values sectors buf (next ()) v s lba v' s') :
      ComesTo values sectors buf (.ask (.touched log) next) v s lba v' s'

/-- **A program over the sectors ends if all the calls do that it comes to.** -/
theorem halts_translate_iff {α : Type} (buf : UInt32) (p : Tree Iso9660.Query Iso9660.Answer α)
    (v : Vars) (s : Position) :
    Halts (registers values sectors) drainTurn (p.translate (hwAnswer buf) v) s ↔
      ∀ lba v' s', ComesTo values sectors buf p v s lba v' s' →
        ReadClears values v' lba s'.reads := by
  induction p generalizing v s with
  | done a => exact iff_of_true ⟨0, _, _, .done _ _⟩ fun _ _ _ h => nomatch h
  | ask q next ih =>
    cases q with
    | hwRead lba =>
      refine halts_bind.trans ⟨?_, fun h => ?_⟩
      · rintro ⟨k, ⟨r, v₁⟩, s₁, hr, hrest⟩ lba' v' s' hcomes
        cases hcomes with
        | here => exact (halts_psxcdHwRead_iff v lba buf s).mp ⟨k, _, s₁, hr⟩
        | later hr' h =>
          obtain ⟨heq, rfl⟩ := hr.unique hr'
          obtain ⟨rfl, rfl⟩ := Prod.mk.inj heq
          exact (ih r v₁ s₁).mp hrest lba' v' s' h
      · obtain ⟨k, ⟨r, v₁⟩, s₁, hr⟩ := (halts_psxcdHwRead_iff v lba buf s).mpr
          (h lba v s (.here v s))
        exact ⟨k, (r, v₁), s₁, hr, (ih r v₁ s₁).mpr fun lba' v' s' hcomes =>
          h lba' v' s' (.later hr hcomes)⟩
    | touched log =>
      refine (ih () v s).trans ⟨fun h lba v' s' hcomes => ?_, fun h lba v' s' hcomes => ?_⟩
      · cases hcomes with
        | touched hcomes => exact h lba v' s' hcomes
      · exact h lba v' s' (.touched hcomes)

end Halting

variable (values : Nat → UInt32) (sectors : Nat → Iso9660.Sector)

/-- A function comes to an end, with at most `n` accesses outside the drain loops and 38 for
every turn of them. -/
def EndsWithin {α : Type} (p : Driver α) (n : Nat) (s : Position) : Prop :=
  ∃ k a s', Ends (registers values sectors) drainTurn p s k a s' ∧
    s'.accesses ≤ s.accesses + n + 38 * k

theorem endsWithin_iff {α : Type} {p : Driver α} {n : Nat} (hp : AtMost (loopCost price) p n)
    (s : Position) :
    EndsWithin values sectors p n s ↔ Halts (registers values sectors) drainTurn p s := by
  constructor
  · rintro ⟨k, a, s', he, -⟩
    exact ⟨k, a, s', he⟩
  · rintro ⟨k, a, s', he⟩
    exact ⟨k, a, s', he, he.cost (accesses_registers values sectors) atMost_drainTurn hp⟩

/-- **When the CD path ends.**  Initialisation always does, within a fixed number of accesses.
Stopping and reading end exactly when the flag reads as zero in each of their drain loops, and the
lookup exactly when all the reads do that it comes to. -/
theorem cd_path_ends_iff (v : Vars) (s : Position) :
    (run (registers values sectors) (psxcdHwInit v) s).2.accesses ≤ s.accesses + 17000000 ∧
      (EndsWithin values sectors (psxcdHwStop v) 9000118 s ↔ StopClears values v s.reads) ∧
      (∀ lba buf, EndsWithin values sectors (psxcdHwRead v lba buf) 30000000 s ↔
        ReadClears values v lba s.reads) ∧
      ∀ probeBuf behind want place,
        EndsWithin values sectors (psxcdIsoLookup probeBuf behind want place v) (129 * 30000000) s ↔
          ∀ lba v' s', ComesTo values sectors probeBuf
            (Iso9660.psxcdIsoLookup behind want place) v s
            lba v' s' → ReadClears values v' lba s'.reads := by
  refine ⟨run_cost (accesses_registers values sectors) (atMost_psxcdHwInit v) s, ?_, ?_, ?_⟩
  · rw [endsWithin_iff values sectors (atMost_psxcdHwStop v), halts_psxcdHwStop_iff]
  · intro lba buf
    rw [endsWithin_iff values sectors (atMost_psxcdHwRead v lba buf), halts_psxcdHwRead_iff]
  · intro probeBuf behind want place
    rw [endsWithin_iff values sectors (atMost_psxcdIsoLookup behind want probeBuf place v),
      psxcdIsoLookup, halts_translate_iff]

/-- A flag that always reads as 7 keeps `psxcd_hw_stop` in its first drain loop. -/
theorem psxcdHwStop_never_ends :
    ¬ ∃ n, EndsWithin (fun _ => 7) (fun _ _ => 0) (psxcdHwStop ⟨0, true, 0, true⟩) n ⟨0, 0⟩ := by
  have hflag : ∀ i j, ¬ Clears (fun _ => 7) i j := by
    intro i j h
    induction h with
    | here h => exact absurd h (by decide)
    | next _ _ ih => exact ih
  rintro ⟨n, k, a, s', he, -⟩
  obtain ⟨j, hj, -⟩ := (halts_psxcdHwStop_iff _ _).mp ⟨k, a, s', he⟩ rfl
  exact hflag _ _ hj

end Registers
end Cdrom
end Blackroo
