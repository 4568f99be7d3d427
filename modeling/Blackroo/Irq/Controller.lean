import Mathlib.Data.List.GetD
import Mathlib.Data.Nat.Basic
import Mathlib.Logic.Function.Basic

/-!
# Interrupts of the PlayStation kernel

`ps/irq.c` keeps a chain of actions for each interrupt number, and the interrupt controller has
two registers: `I_STAT` with the lines that ask for attention, and `I_MASK` with the lines that may
interrupt.  `playstation_handle_int` finds the line with the highest priority and calls `do_IRQ`,
which acknowledges and masks the line, calls the handlers of its chain one after the other, and
unmasks the line again.  A handler without `SA_INTERRUPT` runs with interrupts on, so calls of
`do_IRQ` nest.

Drivers call `request_irq`, `free_irq`, `enable_irq` and `disable_irq` from process context and from
handlers.  Nothing keeps them from doing so in the middle of a call of `do_IRQ` for the same line,
and `do_IRQ` looks at the chain more than once: when it decides that there is an action, again after
it has turned interrupts on, and after each handler, in the action that has just run.

A call of `do_IRQ` is cut into these places (`Service`), and everything else that may happen on the
one processor is an event.

## What is taken as one step

A call of one of the four functions is one event.  `enable_irq` and `disable_irq` turn interrupts
off for what they do, and so do `request_irq` and `free_irq` where they write; but these two walk
the chain before that with interrupts on.  Runs in which an interrupt comes in the middle of the
walk and a handler changes the same chain are not among the runs here: what is proved is about
drivers that are not interrupted in these two functions, by `cli` or because the handlers leave the
chain alone.
-/

namespace Blackroo
namespace Irq

/-! ## The tables -/

/-- `NR_INTS`. -/
def nrInts : Nat := 11

/-- The masks of the lines in the order of their numbers, as `psx_init` puts them in
`cpu_mask_tbl`. -/
def lineMasks : List (BitVec 16) :=
  [0x040, -- TIMER2
    0x080, -- CONTROLLER
    0x400, -- PIO
    0x008, -- DMA
    0x010, -- TIMER0
    0x020, -- TIMER1
    0x002, -- GPU
    0x001, -- VBL
    0x100, -- SIO
    0x200, -- SPU
    0x004] -- CDROM

/-- `cpu_irq_nr`, with the word that ends it. -/
def cpuIrqNr : List Nat := List.range nrInts ++ [nrInts]

/-- `cpu_mask_tbl[irq]`.  Nothing checks the index: behind the masks are the word that ends the
table and `cpu_irq_nr`, and behind that whatever comes next in memory. -/
def cpuMaskTbl (beyond : Nat → BitVec 16) (irq : Nat) : BitVec 16 :=
  (lineMasks ++ [0xffff] ++ cpuIrqNr.map (BitVec.ofNat 16)).getD irq (beyond irq)

/-- The bit of a line in the two registers. -/
def lineBit (i : Nat) : Nat := [6, 7, 10, 3, 4, 5, 1, 0, 8, 9, 2].getD i 0

/-! ## The state -/

/-- `struct irqaction`; `id` stands for its address. -/
structure Irqaction where
  id : Nat
  saInterrupt : Bool
  saShirq : Bool
  devId : Nat

/-- A call of `do_IRQ`: `none` before it reads the chain for the second time, then the action whose
handler is running. -/
structure Service where
  irq : Nat
  running : Option Nat

/-- The interrupt controller, the chains `irq_action`, whether interrupts are on in the processor,
the calls of `do_IRQ` under way with the innermost first, and the address of the next action. -/
structure State where
  stat : BitVec 16
  mask : BitVec 16
  actions : Nat → List Irqaction
  enabled : Bool
  services : List Service
  fresh : Nat

/-- The kernel after `init_IRQ`, with interrupts turned on. -/
def State.boot : State where
  stat := 0
  mask := 0
  actions := fun _ => []
  enabled := true
  services := []
  fresh := 0

/-- How the kernel dies. -/
inductive Fault where
  /-- "unregistered IRQ occured" -/
  | unregistered (irq : Nat)
  /-- "Unimplemented cpu interrupt" -/
  | unimplemented
  /-- the chain was empty when `do_IRQ` read it again -/
  | noAction
  /-- the action that has just run was freed meanwhile -/
  | actionFreed
  /-- `free_irq` of an entry `irq_action` does not have -/
  | noEntry
  deriving DecidableEq, Repr

/-! ## The functions -/

section Functions

variable (beyond : Nat → BitVec 16)

def State.maskIrq (s : State) (irq : Nat) : State :=
  { s with mask := s.mask &&& ~~~(cpuMaskTbl beyond irq &&& 0x7ff) }

def State.unmaskIrq (s : State) (irq : Nat) : State :=
  { s with mask := s.mask ||| (cpuMaskTbl beyond irq &&& 0x7ff) }

def disableIrq (s : State) (irq : Nat) : State := s.maskIrq beyond irq

def enableIrq (s : State) (irq : Nat) : State := s.unmaskIrq beyond irq

/-- `irq_action[irq] = chain`. -/
def State.setActions (s : State) (irq : Nat) (chain : List Irqaction) : State :=
  { s with actions := Function.update s.actions irq chain }

def eNoMem : Int := -12

def eBusy : Int := -16

def eInval : Int := -22

/-- `setup_ps_irq`. -/
def setupPsIrq (s : State) (irq : Nat) (new : Irqaction) : Int × State :=
  match s.actions irq with
  | [] => (0, (s.setActions irq [new]).unmaskIrq beyond irq)
  | old :: rest =>
    if !(old.saShirq && new.saShirq) then (eBusy, s)
    else if old.saInterrupt != new.saInterrupt then (eBusy, s)
    else (0, s.setActions irq (old :: rest ++ [new]))

/-- The parameters of `request_irq`. -/
structure Request where
  irq : Nat
  handler : Bool
  saInterrupt : Bool
  saShirq : Bool
  devId : Nat

/-- `request_irq`; `memory` says whether `kmalloc` finds some. -/
def requestIrq (s : State) (r : Request) (memory : Bool) : Int × State :=
  if r.irq ≥ 32 then (eInval, s)
  else if !r.handler then (eInval, s)
  else if !memory then (eNoMem, s)
  else
    setupPsIrq beyond { s with fresh := s.fresh + 1 } r.irq
      ⟨s.fresh, r.saInterrupt, r.saShirq, r.devId⟩

/-- `free_irq`.  The chains are 32, and the check lets 39 through. -/
def freeIrq (s : State) (irq devId : Nat) : Except Fault State :=
  if irq > 39 then .ok s
  else if irq ≥ 32 then .error .noEntry
  else if (s.actions irq).any (·.devId == devId) then
    let s := s.setActions irq ((s.actions irq).eraseP (·.devId == devId))
    .ok (if s.actions irq = [] then s.maskIrq beyond irq else s)
  else .ok s

/-- `do_IRQ` up to the place where interrupts are on again for a slow handler. -/
def doIrq (s : State) (irq : Nat) : Except Fault State :=
  let s := { s with stat := s.stat &&& ~~~(cpuMaskTbl beyond irq) }.maskIrq beyond irq
  match s.actions irq with
  | [] => .error (.unregistered irq)
  | a :: _ =>
    .ok { s with enabled := !a.saInterrupt, services := ⟨irq, none⟩ :: s.services }

/-- The line with the highest priority that asks and may interrupt. -/
def State.pending (s : State) : Option Nat :=
  (List.range nrInts).find? fun i => s.stat &&& s.mask &&& cpuMaskTbl beyond i != 0

/-- The processor takes an interrupt if it may: `playstation_handle_int`. -/
def takeIrq (s : State) : Except Fault State :=
  if s.enabled && s.stat &&& s.mask != 0 then
    match s.pending beyond with
    | none => .error .unimplemented
    | some i => doIrq beyond { s with enabled := false } (cpuIrqNr.getD i nrInts)
  else .ok s

/-- `do_IRQ` reads the chain again and calls the first handler. -/
def firstHandler (s : State) : Except Fault State :=
  match s.services with
  | ⟨irq, none⟩ :: rest =>
    match s.actions irq with
    | [] => .error .noAction
    | a :: _ => .ok { s with services := ⟨irq, some a.id⟩ :: rest }
  | _ => .ok s

/-- A handler returns: `do_IRQ` goes on with `action->next`, or unmasks the line and returns to
what was interrupted. -/
def handlerReturns (s : State) : Except Fault State :=
  match s.services with
  | ⟨irq, some id⟩ :: rest =>
    match (s.actions irq).dropWhile (·.id != id) with
    | [] => .error .actionFreed
    | [_] => .ok { s.unmaskIrq beyond irq with enabled := true, services := rest }
    | _ :: a :: _ => .ok { s with services := ⟨irq, some a.id⟩ :: rest }
  | _ => .ok s

/-! ## The system -/

/-- Interrupts going their way. -/
inductive Signal where
  /-- a device asks for attention -/
  | raise (line : Fin nrInts)
  | take
  | firstHandler
  | handlerReturns
  /-- the code that is running turns interrupts on or off -/
  | sti
  | cli

/-- What a driver asks for. -/
inductive Call where
  | request (r : Request) (memory : Bool)
  | free (irq devId : Nat)
  | enable (irq : Nat)
  | disable (irq : Nat)

inductive Event where
  | signal (x : Signal)
  | call (c : Call)

/-- Drivers run, in process context or in a handler. -/
def State.driversRun (s : State) : Bool :=
  match s.services with
  | ⟨_, none⟩ :: _ => false
  | _ => true

def signal (s : State) : Signal → Except Fault State
  | .raise line => .ok { s with stat := s.stat ||| cpuMaskTbl beyond line }
  | .take => takeIrq beyond s
  | .firstHandler => firstHandler s
  | .handlerReturns => handlerReturns beyond s
  | .sti => .ok (if s.driversRun then { s with enabled := true } else s)
  | .cli => .ok (if s.driversRun then { s with enabled := false } else s)

def call (s : State) : Call → Except Fault State
  | .request r memory => .ok (requestIrq beyond s r memory).2
  | .free irq devId => freeIrq beyond s irq devId
  | .enable irq => .ok (enableIrq beyond s irq)
  | .disable irq => .ok (disableIrq beyond s irq)

/-- One event. -/
def step (s : State) : Event → Except Fault State
  | .signal x => signal beyond s x
  | .call c => if s.driversRun then call beyond s c else .ok s

end Functions

/-! ## Bits of the registers -/

section Bits

variable {beyond : Nat → BitVec 16}

theorem lineBit_lt {i : Nat} (hi : i < nrInts) : lineBit i < 11 := by
  have h : ∀ i : Fin 11, lineBit i < 11 := by decide
  exact h ⟨i, hi⟩

theorem lineBit_inj {i j : Nat} (hi : i < nrInts) (hj : j < nrInts) (h : lineBit i = lineBit j) :
    i = j := by
  have hall : ∀ i j : Fin 11, lineBit i = lineBit j → i = j := by decide
  exact Fin.mk.inj (hall ⟨i, hi⟩ ⟨j, hj⟩ h)

theorem exists_lineBit {k : Nat} (hk : k < 11) : ∃ i < nrInts, lineBit i = k := by
  have h : ∀ k : Fin 11, ∃ i : Fin 11, lineBit i = k := by decide
  obtain ⟨i, hi⟩ := h ⟨k, hk⟩
  exact ⟨i, i.isLt, hi⟩

/-- The mask of a line has one bit. -/
theorem cpuMaskTbl_line {i : Nat} (hi : i < nrInts) :
    cpuMaskTbl beyond i = BitVec.twoPow 16 (lineBit i) := by
  have htable : cpuMaskTbl beyond i = lineMasks.getD i 0 := by
    have hlen : i < lineMasks.length := hi
    rw [cpuMaskTbl, List.append_assoc, List.getD_append _ _ _ _ hlen]
    simp [List.getD_eq_getElem?_getD, hlen]
  have h : ∀ i : Fin 11, lineMasks.getD i 0 = BitVec.twoPow 16 (lineBit i) := by decide
  rw [htable]
  exact h ⟨i, hi⟩

@[simp] theorem getLsbD_cpuMaskTbl {i : Nat} (hi : i < nrInts) (k : Nat) :
    (cpuMaskTbl beyond i).getLsbD k = decide (k = lineBit i) := by
  have hlt := lineBit_lt hi
  rw [cpuMaskTbl_line hi, BitVec.getLsbD_twoPow]
  by_cases hk : k = lineBit i
  · simp [hk, show lineBit i < 16 by omega]
  · simp [hk, Ne.symm hk]

theorem getLsbD_7ff (k : Nat) : (0x7ff : BitVec 16).getLsbD k = decide (k < 11) := by
  by_cases hk : k < 16
  · have h : ∀ k : Fin 16, (0x7ff : BitVec 16).getLsbD k = decide (k.val < 11) := by decide
    exact h ⟨k, hk⟩
  · rw [BitVec.getLsbD_of_ge _ _ (by omega)]
    simp
    omega

/-- A line asks and may interrupt exactly if its bit is set in both registers. -/
theorem and_cpuMaskTbl_ne_zero {i : Nat} (hi : i < nrInts) (x : BitVec 16) :
    x &&& cpuMaskTbl beyond i ≠ 0 ↔ x.getLsbD (lineBit i) = true := by
  constructor
  · intro h
    by_contra hbit
    refine h (BitVec.eq_of_getLsbD_eq fun k _ => ?_)
    rw [BitVec.getLsbD_and, getLsbD_cpuMaskTbl hi]
    by_cases hk : k = lineBit i
    · simpa [hk] using hbit
    · simp [hk]
  · intro h hzero
    have hbit := congrArg (fun y : BitVec 16 => y.getLsbD (lineBit i)) hzero
    simp [hi, h] at hbit

theorem getLsbD_maskIrq (s : State) (irq k : Nat) (hk : k < 16) :
    (s.maskIrq beyond irq).mask.getLsbD k =
      (s.mask.getLsbD k && !((cpuMaskTbl beyond irq).getLsbD k && decide (k < 11))) := by
  rw [State.maskIrq, BitVec.getLsbD_and, BitVec.getLsbD_not, BitVec.getLsbD_and, getLsbD_7ff]
  simp [hk]

theorem getLsbD_unmaskIrq (s : State) (irq k : Nat) :
    (s.unmaskIrq beyond irq).mask.getLsbD k =
      (s.mask.getLsbD k || (cpuMaskTbl beyond irq).getLsbD k && decide (k < 11)) := by
  rw [State.unmaskIrq, BitVec.getLsbD_or, BitVec.getLsbD_and, getLsbD_7ff]

end Bits

end Irq
end Blackroo
