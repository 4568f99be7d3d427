import Blackroo.Cdrom.Registers

/-!
# The drive behind the registers

The drive follows `docs/24`, and what it does is up to it in time.

* A command written to the command register stays there until the controller executes it, and
  the busy flag is up as long.  It then raises its INT3 or its INT5.
* A `Setloc` names the sector for the next `ReadN`.  An accepted `ReadN` leaves the drive reading, and
  every sector it comes to raises an INT1.
* An accepted `Pause` ends that, and raises an INT2 when the drive has come to rest.
* Interrupts are delivered one at a time, in the order they were raised, and each stays pending
  until it is acknowledged.  A sector may take the place of an older one that still waits for its
  turn, without a trace: the drive has room for one INT1 behind the pending one.

The drive makes any number of moves before every access (`Passes`), and the bits and registers that
do not depend on it read as anything.  So a wait of the driver times out when the drive is slow
enough, and a gap between two calls is a long list of moves.  `Rules` are a restriction of what may
happen: which moves the drive makes, to which writes it gets, and in which states data is taken from
it.  Without restrictions these are all runs.

Every command and every interrupt carries a number that the driver cannot see: the number of the
command that the interrupt was raised by.  The `Log` has what the driver takes the interrupts for:
at every `note .answer` the last command issued and the origin of the pending interrupt, and at
every `note .transfer` the `ReadN` of the current run and the pending interrupt.  The second half of
the module are the rules for assertions about the drive and the log.
-/

namespace Blackroo
namespace Cdrom
namespace Registers

open Interaction

/-! ## The drive -/

inductive Command where
  /-- with the sector that the parameters stand for, if they are valid -/
  | setloc (sector : Option Nat)
  | readN
  | pause
  | other
  deriving DecidableEq, Repr

/-- The sector of a `Setloc`, of whose parameters the last one written is the first here. -/
def setlocSector : List UInt32 → Option Nat
  | ff :: ss :: mm :: _ => (Msf.mk mm.toUInt8 ss.toUInt8 ff.toUInt8).sector
  | _ => none

def Command.ofCode (c : UInt32) (parameters : List UInt32) : Command :=
  if c = 0x02 then .setloc (setlocSector parameters)
  else if c = 0x06 then .readN
  else if c = 0x09 then .pause
  else .other

/-- An INT1 has the number of its sector. -/
inductive Irq where
  | int1 (sector : Nat)
  | int2
  | int3
  | int5
  deriving DecidableEq, Repr

def Irq.code : Irq → UInt32
  | .int1 _ => 1
  | .int2 => 2
  | .int3 => 3
  | .int5 => 5

def Irq.sector : Irq → Option Nat
  | .int1 k => some k
  | _ => none

/-- An interrupt, with the number of the command that raised it. -/
structure Reply where
  origin : Nat
  irq : Irq
  deriving DecidableEq, Repr

structure Controller where
  /-- the index of the register bank -/
  bank : UInt32
  /-- the parameters for the next command, the last one first -/
  parameters : List UInt32
  /-- the command register: a command that has not been executed yet -/
  command : Option (Nat × Command)
  /-- the interrupt that has been delivered -/
  pending : Option Reply
  /-- the interrupts that have been raised and wait for their turn -/
  queue : List Reply
  /-- the sector of a `Setloc` that no `ReadN` has used -/
  target : Option Nat
  /-- the `ReadN` under which the drive reads -/
  reading : Option Nat
  /-- the sector it comes to next -/
  head : Nat
  /-- the `Pause` whose INT2 is to come -/
  pausing : Option Nat
  /-- the sector in the data FIFO -/
  dataFifo : Option Nat
  /-- how many commands there have been -/
  issued : Nat
  /-- the sectors that were replaced since the last `ReadN` -/
  dropped : List Nat
  deriving DecidableEq, Repr

/-- What the drive does on its own.  A sector may overwrite one that waits. -/
inductive Move where
  | execute (accept : Bool)
  | sector (overwrite : Bool)
  | complete
  | deliver
  deriving DecidableEq, Repr

namespace Controller

/-- The interrupts in the order in which the driver gets to see them. -/
def line (d : Controller) : List Reply := d.pending.toList ++ d.queue

def raise (d : Controller) (i : Reply) : Controller := { d with queue := d.queue ++ [i] }

/-- The execution of an accepted command, besides its INT3. -/
def accept (d : Controller) (n : Nat) : Command → Controller
  | .setloc sector => { d with target := sector }
  | .readN =>
    { d with reading := some n, head := d.target.getD d.head, target := none, dropped := [] }
  | .pause => { d with reading := none, pausing := some n }
  | .other => d

def execute (d : Controller) (accepted : Bool) : Controller :=
  match d.command with
  | none => d
  | some (n, c) =>
    if accepted = true ∧ c ≠ .setloc none then
      ({ d with command := none }.raise ⟨n, .int3⟩).accept n c
    else { d with command := none }.raise ⟨n, .int5⟩

def sector (d : Controller) (overwrite : Bool) : Controller :=
  match d.reading with
  | none => d
  | some n =>
    match overwrite, d.queue.getLast?.bind fun i => i.irq.sector with
    | true, some k =>
      { d with head := d.head + 1, dropped := k :: d.dropped
               queue := d.queue.dropLast ++ [⟨n, .int1 d.head⟩] }
    | _, _ => { d with head := d.head + 1 }.raise ⟨n, .int1 d.head⟩

def complete (d : Controller) : Controller :=
  match d.pausing with
  | none => d
  | some n => { d with pausing := none }.raise ⟨n, .int2⟩

def deliver (d : Controller) : Controller :=
  match d.pending, d.queue with
  | none, i :: rest => { d with pending := some i, queue := rest }
  | _, _ => d

def move (d : Controller) : Move → Controller
  | .execute accepted => d.execute accepted
  | .sector overwrite => d.sector overwrite
  | .complete => d.complete
  | .deliver => d.deliver

/-- A command is written to the command register. -/
def issue (d : Controller) (c : UInt32) : Controller :=
  { d with command := some (d.issued, .ofCode c d.parameters), parameters := []
           issued := d.issued + 1 }

/-- The pending interrupt is acknowledged. -/
def acknowledge (d : Controller) : Controller := { d with pending := none }

/-- The sector of the pending interrupt is asked for. -/
def request (d : Controller) : Controller :=
  match d.pending with
  | some ⟨_, .int1 k⟩ => { d with dataFifo := some k }
  | _ => d

def write (d : Controller) (r : Reg) (x : UInt32) : Controller :=
  match r with
  | .cd0 => { d with bank := x &&& 3 }
  | .cd1 => if d.bank = 0 then d.issue x else d
  | .cd2 => if d.bank = 0 then { d with parameters := x :: d.parameters } else d
  | .cd3 =>
    if d.bank = 1 ∧ x &&& 7 = 7 then d.acknowledge
    else if d.bank = 0 ∧ x &&& 0x80 ≠ 0 then d.request
    else d
  | _ => d

/-- The interrupt flag register. -/
def flag (d : Controller) : UInt32 :=
  match d.pending with
  | none => 0
  | some i => i.irq.code

/-- A register reads as this, with `x` for what the drive does not determine. -/
def read (d : Controller) (r : Reg) (x : UInt32) : UInt32 :=
  match r with
  | .cd0 => (x &&& 0x7f) ||| (if d.command.isSome then 0x80 else 0)
  | .cd3 => if d.bank = 1 then (x &&& 0xf8) ||| d.flag else x
  | _ => x

/-- Nothing is going on, and nothing is left over. -/
structure Idle (d : Controller) : Prop where
  command : d.command = none
  line : d.line = []
  reading : d.reading = none
  pausing : d.pausing = none

instance (d : Controller) : Decidable d.Idle :=
  decidable_of_iff (d.command = none ∧ d.line = [] ∧ d.reading = none ∧ d.pausing = none)
    ⟨fun ⟨h₁, h₂, h₃, h₄⟩ => ⟨h₁, h₂, h₃, h₄⟩, fun ⟨h₁, h₂, h₃, h₄⟩ => ⟨h₁, h₂, h₃, h₄⟩⟩

end Controller

/-! ## The log -/

structure Log where
  /-- the `ReadN` of the current run -/
  current : Option Nat
  /-- the command for whose answer an interrupt was taken, and the command that raised it -/
  answers : List (Nat × Option Nat)
  /-- the `ReadN` for which data was transferred, and the interrupt that announced it -/
  transfers : List (Option Nat × Option Reply)
  deriving DecidableEq, Repr

namespace Log

/-- The command that was issued last. -/
def noted (l : Log) (d : Controller) : Note → Log
  | .answer => { l with answers := l.answers ++ [(d.issued - 1, d.pending.map Reply.origin)] }
  | .started => { l with current := some (d.issued - 1) }
  | .transfer => { l with transfers := l.transfers ++ [(l.current, d.pending)] }

/-- An interrupt taken as an answer was raised by that very command. -/
def RightAnswer (p : Nat × Option Nat) : Prop := p.2 = some p.1

/-- The interrupt behind a transfer is an INT1 of the `ReadN` of the run. -/
def RightTransfer (p : Option Nat × Option Reply) : Prop :=
  ∃ n k, p.1 = some n ∧ p.2 = some ⟨n, .int1 k⟩

/-- Every interrupt was attributed to the right command. -/
def Right (l : Log) : Prop :=
  (∀ p ∈ l.answers, RightAnswer p) ∧ ∀ p ∈ l.transfers, RightTransfer p

theorem Right.answer {l : Log} {d : Controller} {i : Reply} (h : l.Right) (hi : d.pending = some i)
    (hown : d.issued = i.origin + 1) : (l.noted d .answer).Right := by
  refine ⟨fun p hp => ?_, h.2⟩
  rcases List.mem_append.mp hp with hp | hp
  · exact h.1 p hp
  · rw [List.mem_singleton.mp hp, RightAnswer, hi, hown]
    rfl

theorem Right.transfer {l : Log} {d : Controller} {n k : Nat} (h : l.Right)
    (hn : l.current = some n) (hi : d.pending = some ⟨n, .int1 k⟩) :
    (l.noted d .transfer).Right := by
  refine ⟨h.1, fun p hp => ?_⟩
  rcases List.mem_append.mp hp with hp | hp
  · exact h.2 p hp
  · rw [List.mem_singleton.mp hp]
    exact ⟨n, k, hn, hi⟩

end Log

/-! ## The registers of the drive -/

/-- What may happen. -/
structure Rules where
  move : Controller → Move → Bool
  write : Controller → Reg → UInt32 → Bool
  data : Controller → Bool

/-- Anything may. -/
def anything : Rules := ⟨fun _ _ => true, fun _ _ _ => true, fun _ => true⟩

structure Bench where
  drive : Controller
  log : Log
  deriving DecidableEq, Repr

/-- The drive makes some moves. -/
inductive Passes (R : Rules) : Controller → Controller → Prop
  | refl (d : Controller) : Passes R d d
  | move {d d' : Controller} (m : Move) (h : R.move d m = true) (hp : Passes R (d.move m) d') :
      Passes R d d'

/-- The registers, with a disc in the drive. -/
def Step (R : Rules) (disc : Nat → Iso9660.Sector) :
    (q : Query) → Bench → Answer q → Bench → Prop
  | .read r, b, y, b' =>
    Passes R b.drive b'.drive ∧ b'.log = b.log ∧ ∃ x, y = b'.drive.read r x
  | .write r x, b, _, b' =>
    ∃ d, Passes R b.drive d ∧ R.write d r x = true ∧ b' = ⟨d.write r x, b.log⟩
  | .note n, b, _, b' => b' = ⟨b.drive, b.log.noted b.drive n⟩
  | .data, b, s, b' => R.data b.drive = true ∧ (∀ k, b.drive.dataFifo = some k → s = disc k) ∧
      b' = b

/-! ## Assertions -/

abbrev Assertion : Type := Controller → Log → Prop

def On (P : Assertion) (b : Bench) : Prop := P b.drive b.log

/-- The moves of the drive do not end the assertion. -/
def Stable (R : Rules) (P : Assertion) : Prop :=
  ∀ d l m, R.move d m = true → P d l → P (d.move m) l

/-- The assertion is not about the register bank, nor about the parameters. -/
def Framed (P : Assertion) : Prop :=
  ∀ d l x par, P d l → P { d with bank := x, parameters := par } l

/-- The assertion, in a known bank and with known parameters on top. -/
def Held (x : UInt32) (par : List UInt32) (P : Assertion) : Assertion :=
  fun d l => P d l ∧ d.bank = x ∧ par <+: d.parameters

theorem move_frame (d : Controller) (m : Move) :
    (d.move m).bank = d.bank ∧ (d.move m).parameters = d.parameters := by
  cases m with
  | execute accepted =>
    rw [Controller.move, Controller.execute]
    split
    · exact ⟨rfl, rfl⟩
    · rename_i n c _
      split
      · cases c <;> exact ⟨rfl, rfl⟩
      · exact ⟨rfl, rfl⟩
  | sector overwrite =>
    rw [Controller.move, Controller.sector]
    split
    · exact ⟨rfl, rfl⟩
    · split <;> exact ⟨rfl, rfl⟩
  | complete =>
    rw [Controller.move, Controller.complete]
    split <;> exact ⟨rfl, rfl⟩
  | deliver =>
    rw [Controller.move, Controller.deliver]
    split <;> exact ⟨rfl, rfl⟩

theorem Stable.passes {R : Rules} {P : Assertion} (hP : Stable R P) {d d' : Controller} {l : Log}
    (h : Passes R d d') (hd : P d l) : P d' l := by
  induction h with
  | refl => exact hd
  | move m hm _ ih => exact ih (hP _ _ m hm hd)

theorem Stable.held {R : Rules} {P : Assertion} (hP : Stable R P) (x : UInt32) (par : List UInt32) :
    Stable R (Held x par P) := by
  rintro d l m hm ⟨hd, hbank, hpar⟩
  obtain ⟨hbank', hpar'⟩ := move_frame d m
  exact ⟨hP d l m hm hd, hbank'.trans hbank, hpar'.symm ▸ hpar⟩

theorem or_and_distrib (x y z : UInt32) : (x ||| y) &&& z = (x &&& z) ||| (y &&& z) :=
  UInt32.toBitVec_inj.mp BitVec.and_or_distrib_right

section Rules

variable {R : Rules} {disc : Nat → Iso9660.Sector} {P S : Assertion}

/-- The rule for a read: what it returns is read off the drive as it is then. -/
theorem sat_readReg (hP : Stable R P) (r : Reg) :
    Sat (Step R disc) (On P) (readReg r) fun y => On fun d l => P d l ∧ ∃ x, y = d.read r x :=
  Sat.query fun _ _ _ hb ⟨hp, hl, hy⟩ => ⟨hl ▸ hP.passes hp hb, hy⟩

theorem sat_readReg_keep (hP : Stable R P) (r : Reg) :
    Sat (Step R disc) (On P) (readReg r) fun _ => On P :=
  (sat_readReg hP r).weaken fun _ _ hb => hb.1

/-- The rule for a write. -/
theorem sat_writeReg (hP : Stable R P) {r : Reg} {x : UInt32}
    (hS : ∀ d l, P d l → R.write d r x = true → S (d.write r x) l) :
    Sat (Step R disc) (On P) (writeReg r x) fun _ => On S := by
  refine Sat.query fun b _ b' hb h => ?_
  obtain ⟨d, hp, hw, rfl⟩ := h
  exact hS d b.log (hP.passes hp hb) hw

theorem sat_note {n : Note} (hS : ∀ d l, P d l → S d (l.noted d n)) :
    Sat (Step R disc) (On P) (note n) fun _ => On S := by
  refine Sat.query fun b _ b' hb h => ?_
  obtain rfl : b' = _ := h
  exact hS _ _ hb

/-- The registers behind the assertions: all but those of the drive. -/
theorem sat_writeReg_other (hP : Stable R P) {r : Reg} (x : UInt32)
    (hr : ∀ d, Controller.write d r x = d) :
    Sat (Step R disc) (On P) (writeReg r x) fun _ => On P :=
  sat_writeReg hP fun d l hd _ => by rwa [hr]

theorem sat_selectBank (hP : Stable R P) (hF : Framed P) (x : UInt32) :
    Sat (Step R disc) (On P) (writeReg .cd0 x) fun _ => On (Held (x &&& 3) [] P) :=
  sat_writeReg hP fun d l hd _ => ⟨hF d l _ _ hd, rfl, List.nil_prefix⟩

theorem sat_cdTakeIrq (hP : Stable R P) (v : Vars) :
    Sat (Step R disc) (On P) (cdTakeIrq v) fun v' b =>
      On P b ∧ ∃ mask, v' = { v with psxcdSavedMask := mask } := by
  refine (sat_readReg_keep hP _).bind fun mask => ?_
  refine (sat_writeReg_other hP _ fun _ => rfl).bind fun _ => ?_
  exact Sat.ret fun _ hb => ⟨hb, mask, rfl⟩

theorem sat_cdReleaseIrq (hP : Stable R P) (v : Vars) :
    Sat (Step R disc) (On P) (cdReleaseIrq v) fun _ => On P :=
  (sat_writeReg_other hP _ fun _ => rfl).bind fun _ => sat_writeReg_other hP _ fun _ => rfl

theorem sat_cdWaitBusy (hP : Stable R P) : Sat (Step R disc) (On P) cdWaitBusy fun _ => On P := by
  refine Sat.bind (R := fun _ => On P) (Sat.poll (P := On P) ?_ (fun _ h => h) _) fun _ =>
    Sat.ret fun _ h => h
  refine (sat_readReg_keep hP .cd0).bind fun y => Sat.ret fun b hb => ?_
  split <;> exact hb

theorem sat_cdResult (hP : Stable R P) (n : Nat) :
    Sat (Step R disc) (On P) (cdResult n) fun _ => On P := by
  induction n with
  | zero => exact (sat_readReg_keep hP .cd0).bind fun _ => Sat.ret fun _ hb => hb
  | succ n ih =>
    refine (sat_readReg_keep hP .cd0).bind fun x => ?_
    split
    · exact Sat.ret fun _ hb => hb
    · refine (sat_readReg_keep hP .cd1).bind fun y => ?_
      exact ih.bind fun ys => Sat.ret fun _ hb => hb

/-- The parameters are on top in the end. -/
theorem sat_writeParameters (hP : Stable R P) (hF : Framed P) (par top : List UInt32) :
    Sat (Step R disc) (On (Held 0 top P)) (writeParameters par)
      fun _ => On (Held 0 (par.reverse ++ top) P) := by
  induction par generalizing top with
  | nil => exact Sat.ret fun _ hb => hb
  | cons x par ih =>
    refine Sat.bind (R := fun _ => On (Held 0 (x :: top) P)) ?_ fun _ => ?_
    · refine sat_writeReg (hP.held 0 top) fun d l ⟨hd, hbank, htop⟩ _ => ?_
      rw [Controller.write, if_pos hbank]
      exact ⟨hF d l d.bank _ hd, hbank, List.cons_prefix_cons.mpr ⟨rfl, htop⟩⟩
    · rw [List.reverse_cons, List.append_assoc]
      exact ih (x :: top)

theorem sat_waitFlag (hP : Stable R P) (r : Reg) (up : UInt32 → Bool) (n : Nat) :
    Sat (Step R disc) (On P) (waitFlag r up n) fun _ => On P := by
  refine Sat.bind (R := fun _ => On P) (Sat.poll (P := On P) ?_ (fun _ h => h) n) fun _ => ?_
  · refine (sat_readReg_keep hP r).bind fun x => Sat.ret fun b hb => ?_
    split <;> exact hb
  · exact (sat_readReg_keep hP r).bind fun y => Sat.ret fun b hb => hb

/-! ### Interrupts -/

theorem flag_mask (d : Controller) (x : UInt32) : ((x &&& 0xf8) ||| d.flag) &&& 7 = d.flag := by
  have hx : (x &&& 0xf8) &&& 7 = 0 := by
    rw [UInt32.and_assoc, show (0xf8 &&& 7 : UInt32) = 0 by decide, UInt32.and_zero]
  have hf : d.flag &&& 7 = d.flag := by
    rw [Controller.flag]
    split
    · rfl
    · rename_i i _
      cases i.irq <;> simp only [Irq.code] <;> decide
  rw [or_and_distrib, hx, hf, UInt32.zero_or]

/-- `cd_int` returns the type of the pending interrupt. -/
theorem sat_cdInt (hP : Stable R P) (hF : Framed P) :
    Sat (Step R disc) (On P) cdInt fun t => On fun d l => P d l ∧ t = d.flag := by
  refine (sat_selectBank hP hF 1).bind fun _ => ?_
  refine (sat_readReg (hP.held _ _) .cd3).bind fun y => Sat.ret fun b hb => ?_
  obtain ⟨⟨hd, hbank, -⟩, x, rfl⟩ := hb
  have hbank' : b.drive.bank = 1 := hbank
  refine ⟨hd, ?_⟩
  rw [Controller.read, if_pos hbank', flag_mask]

theorem pending_of_flag_ne_zero {d : Controller} (h : d.flag ≠ 0) :
    ∃ i, d.pending = some i ∧ d.flag = i.irq.code := by
  rw [Controller.flag] at h ⊢
  split at h
  · exact absurd rfl h
  · rename_i i hi
    exact ⟨i, hi, rfl⟩

/-- `cd_wait_int` returns the type of the pending interrupt, or there was none for too long. -/
theorem sat_cdWaitInt (hP : Stable R P) (hF : Framed P) (spins : Nat) :
    Sat (Step R disc) (On P) (cdWaitInt spins) fun r => On fun d l =>
      P d l ∧ ∀ t, r = some t → ∃ i, d.pending = some i ∧ t = i.irq.code := by
  refine Sat.poll (P := On P) ?_ (fun _ h => ⟨h, nofun⟩) spins
  refine (sat_cdInt hP hF).bind fun t => Sat.ret fun b hb => ?_
  obtain ⟨hd, ht⟩ := hb
  by_cases h0 : t = 0
  · rw [if_pos h0]
    exact hd
  · rw [if_neg h0]
    obtain ⟨i, hi, hcode⟩ := pending_of_flag_ne_zero (ht ▸ h0)
    refine ⟨hd, fun t' ht' => ⟨i, hi, ?_⟩⟩
    rw [← Option.some.inj ht', ht, hcode]

theorem sat_cdAck (hP : Stable R P) (hF : Framed P) (hS : ∀ d l, P d l → S d.acknowledge l) :
    Sat (Step R disc) (On P) cdAck fun _ => On S := by
  refine (sat_writeReg_other hP _ fun _ => rfl).bind fun _ => ?_
  refine (sat_selectBank hP hF 1).bind fun _ => ?_
  refine sat_writeReg (hP.held _ _) fun d l hd _ => ?_
  have hbank : d.bank = 1 := hd.2.1
  have h7 : (0x1f : UInt32) &&& 7 = 7 := by decide
  simp only [Controller.write, hbank, h7, and_self, if_true]
  exact hS d l hd.1

theorem pending_move {d : Controller} {i : Reply} (h : d.pending = some i) (m : Move) :
    (d.move m).pending = some i := by
  cases m with
  | execute accepted =>
    rw [Controller.move, Controller.execute]
    split
    · exact h
    · rename_i n c _
      split
      · cases c <;> exact h
      · exact h
  | sector overwrite =>
    rw [Controller.move, Controller.sector]
    split
    · exact h
    · split <;> exact h
  | complete =>
    rw [Controller.move, Controller.complete]
    split <;> exact h
  | deliver =>
    rw [Controller.move, Controller.deliver, h]
    exact h

/-- The assertion, with a known interrupt pending. -/
def Seen (i : Reply) (P : Assertion) : Assertion := fun d l => P d l ∧ d.pending = some i

theorem Stable.seen (hP : Stable R P) (i : Reply) : Stable R (Seen i P) :=
  fun d l m hm hd => ⟨hP d l m hm hd.1, pending_move hd.2 m⟩

theorem Framed.seen (hP : Framed P) (i : Reply) : Framed (Seen i P) :=
  fun d l x par hd => ⟨hP d l x par hd.1, hd.2⟩

/-- **`cd_do`**: `P` before the command, `W` from then on, `A i` when the interrupt `i` has been
taken for the answer and acknowledged, and `F` if there was none. -/
theorem sat_cdDo {W F : Assertion} {A : Reply → Assertion} {cmd : UInt32} {par : List UInt32}
    (hP : Stable R P) (hPF : Framed P) (hW : Stable R W) (hWF : Framed W)
    (hissue : ∀ d l, P d l → d.bank = 0 → par.reverse <+: d.parameters → R.write d .cd1 cmd = true →
      W (d.issue cmd) l)
    (hanswer : ∀ d l i, W d l → d.pending = some i → W d (l.noted d .answer))
    (hack : ∀ d l i, W d l → d.pending = some i → A i d.acknowledge l)
    (hbusy : ∀ d l, P d l → F d l) (htime : ∀ d l, W d l → F d l) (spins : Nat) :
    Sat (Step R disc) (On P) (cdDo cmd par spins) fun r => On fun d l => match r with
      | none => F d l
      | some t => ∃ i, t = i.irq.code ∧ A i d l := by
  refine (sat_cdWaitBusy hP).bind fun ok => ?_
  cases ok with
  | false => exact Sat.ret fun _ hb => hbusy _ _ hb
  | true =>
    refine (sat_selectBank hP hPF 0).bind fun _ => ?_
    refine (sat_writeParameters hP hPF par []).bind fun _ => ?_
    rw [List.append_nil]
    refine Sat.bind (R := fun _ => On W) (sat_writeReg (hP.held _ _)
      fun d l hd hw => ?_) fun _ => ?_
    · obtain ⟨hd, hbank, hpar⟩ := hd
      rw [Controller.write, if_pos hbank]
      exact hissue d l hd hbank hpar hw
    refine (sat_cdWaitInt hW hWF spins).bind fun r => ?_
    cases r with
    | none => exact Sat.ret fun _ hb => htime _ _ hb.1
    | some t =>
      intro b a b' hb hrun
      obtain ⟨hw, ht⟩ := hb
      obtain ⟨i, hi, rfl⟩ := ht t rfl
      have hrest : Sat (Step R disc) (On (Seen i W)) (do
          note .answer
          let _ ← cdResult 16
          cdAck
          return some i.irq.code) fun r => On fun d l => match r with
            | none => F d l
            | some t => ∃ j, t = j.irq.code ∧ A j d l := by
        refine Sat.bind (R := fun _ => On (Seen i W))
          (sat_note fun d l hd => ⟨hanswer d l i hd.1 hd.2, hd.2⟩) fun _ => ?_
        refine (sat_cdResult (hW.seen i) 16).bind fun _ => ?_
        refine Sat.bind (R := fun _ => On (A i)) (sat_cdAck (hW.seen i) (hWF.seen i)
          fun d l hd => hack d l i hd.1 hd.2) fun _ => ?_
        exact Sat.ret fun _ hb => ⟨i, rfl, hb⟩
      exact hrest b a b' ⟨hw, hi⟩ hrun

end Rules

end Registers
end Cdrom
end Blackroo
