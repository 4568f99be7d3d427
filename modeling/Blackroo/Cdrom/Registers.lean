import Blackroo.Cdrom.DiscAddress
import Blackroo.Cdrom.Iso9660
import Blackroo.Lib.Loops

/-!
# The hardware layer, register by register

The hardware layer of `drivers/block/psxcd.c` as the accesses it makes: every read and write of a
register is a question, and what the registers answer is left open.  At this level one can ask how
many accesses there are, whatever the registers return.  With a drive behind the registers one can
ask whose answer an interrupt is, and which sector has been read.

All loops of the hardware layer have a bound, except for one: the loop that drains pending
interrupts, `while (cd_int ()) { cd_result (res, 16); cd_ack (); }`, which `psxcd_hw_stop`
runs twice.  It is the loop of `Lib.Loops`, with `drainTurn` for one turn.

Two things are not accesses.  A `note` marks a point of the program: where `cd_do` takes an
interrupt as the answer to its command, where a run of reads starts, and where data is
transferred.  And `data` is the sector that the DMA has put into the buffer.  The drive's own
time passes between any two accesses, so that `udelay` needs no question of its own.
-/

namespace Blackroo
namespace Cdrom
namespace Registers

open Interaction

inductive Reg where
  | cd0
  | cd1
  | cd2
  | cd3
  | cdBusCfg
  | cdComDelay
  | irqStat
  | irqMask
  | d3Madr
  | d3Bcr
  | d3Chcr
  | dmaDpcr
  deriving DecidableEq, Repr

inductive Note where
  | answer
  | started
  | transfer
  deriving DecidableEq, Repr

inductive Query where
  | read (r : Reg)
  | write (r : Reg) (v : UInt32)
  | note (n : Note)
  | data

abbrev Answer : Query → Type
  | .read _ => UInt32
  | .write _ _ => Unit
  | .note _ => Unit
  | .data => Iso9660.Sector

/-- Programs over the registers without the drain loop, and with it. -/
abbrev Io : Type → Type := Tree Query Answer

abbrev Driver : Type → Type := Looping Query Answer

def readReg (r : Reg) : Io UInt32 := .query (Query.read r)

def writeReg (r : Reg) (v : UInt32) : Io Unit := .query (Query.write r v)

def note (n : Note) : Io Unit := .query (Query.note n)

/-- The variables of the hardware layer. -/
structure Vars where
  psxcdSavedMask : UInt32
  psxcdStreaming : Bool
  psxcdNextLba : UInt32
  psxcdPresent : Bool
  deriving DecidableEq, Repr

def cdTakeIrq (v : Vars) : Io Vars := do
  let mask ← readReg .irqMask
  writeReg .irqMask (mask &&& ~~~4)
  return { v with psxcdSavedMask := mask }

def cdReleaseIrq (v : Vars) : Io Unit := do
  writeReg .irqStat (~~~4)
  writeReg .irqMask v.psxcdSavedMask

def cdWaitBusy : Io Bool := do
  let r ← Tree.poll (do
    return if (← readReg .cd0) &&& 0x80 = 0 then some () else none) 200000
  return r.isSome

def cdInt : Io UInt32 := do
  writeReg .cd0 1
  return (← readReg .cd3) &&& 7

def cdAck : Io Unit := do
  writeReg .irqStat (~~~4)
  writeReg .cd0 1
  writeReg .cd3 0x1f

/-- `cd_wait_int`; nothing for -1. -/
def cdWaitInt (spins : Nat) : Io (Option UInt32) :=
  Tree.poll (do
    let t ← cdInt
    return if t = 0 then none else some t) spins

/-- `cd_result`, with room for so many bytes. -/
def cdResult : Nat → Io (List UInt32)
  | 0 => do
      let _ ← readReg .cd0
      return []
  | n + 1 => do
      if (← readReg .cd0) &&& 0x20 = 0 then return []
      else
        let b ← readReg .cd1
        return b :: (← cdResult n)

/-- The parameters of a command. -/
def writeParameters : List UInt32 → Io Unit
  | [] => return ()
  | p :: par => do
      writeReg .cd2 p
      writeParameters par

/-- `cd_do`; nothing for -1. -/
def cdDo (cmd : UInt32) (par : List UInt32) (spins : Nat) : Io (Option UInt32) := do
  if ← cdWaitBusy then
    writeReg .cd0 0
    writeParameters par
    writeReg .cd1 cmd
    match ← cdWaitInt spins with
    | none => return none
    | some t =>
      note .answer
      let _ ← cdResult 16
      cdAck
      return some t
  else return none

/-! ## Initialisation -/

/-- The two `Nop` of `psxcd_hw_init`. -/
def probeDrive : Nat → Io Bool
  | 0 => return true
  | n + 1 => do
      match ← cdDo 0x01 [] 400000 with
      | none => return false
      | some _ => probeDrive n

/-- The registers that `psxcd_hw_init` sets before the first command. -/
def setupBus : Io Unit := do
  writeReg .cdBusCfg 0x00020943
  writeReg .cdComDelay 0x0000132c
  let dpcr ← readReg .dmaDpcr
  writeReg .dmaDpcr (dpcr ||| 0x00008000)
  writeReg .d3Chcr 0
  writeReg .cd0 0
  writeReg .cd3 0x00
  writeReg .cd0 1
  writeReg .cd3 0x1f
  writeReg .cd2 0x1f

/-- `Init`, with its second response. -/
def initDrive : Io Unit := do
  let t ← cdDo 0x0a [] 2000000
  if t = some 3 then
    match ← cdWaitInt 4000000 with
    | none => return ()
    | some _ =>
      let _ ← cdResult 16
      cdAck
  else return ()

def psxcdHwInit (v : Vars) : Io (Bool × Vars) := do
  let v ← cdTakeIrq v
  setupBus
  if ← probeDrive 2 then
    initDrive
    let _ ← cdDo 0x0c [] 400000
    let _ ← cdDo 0x0e [0x80] 400000
    cdReleaseIrq v
    return (true, { v with psxcdStreaming := false, psxcdPresent := true })
  else
    cdReleaseIrq v
    return (false, v)

/-! ## Stopping -/

/-- One turn of the drain loop: whether there was an interrupt to acknowledge. -/
def drainTurn : Io Bool := do
  let t ← cdInt
  if t = 0 then return false
  else
    let _ ← cdResult 16
    cdAck
    return true

/-- The `Pause` of `psxcd_hw_stop`, with whatever it is answered. -/
def pauseDrive : Io Unit := do
  match ← cdDo 0x09 [] 400000 with
  | none => return ()
  | some t =>
    if t = 3 then
      let _ ← cdWaitInt 4000000
      let _ ← cdResult 16
      cdAck
    else
      let _ ← cdResult 16
      cdAck
      match ← cdWaitInt 4000000 with
      | none => return ()
      | some _ =>
        let _ ← cdResult 16
        cdAck

def psxcdHwStop (v : Vars) : Driver Vars := do
  if v.psxcdStreaming then
    let v ← lift (cdTakeIrq v)
    loop
    lift (do
      pauseDrive
      cdReleaseIrq v)
    let v ← lift (cdTakeIrq { v with psxcdStreaming := false })
    loop
    lift (cdReleaseIrq v)
    return v
  else return v

/-! ## Reading -/

/-- The dummy accesses and the request for data. -/
def requestData : Io Unit := do
  writeReg .cd0 0
  let _ ← readReg .cd0
  writeReg .cd3 0
  let _ ← readReg .cd3
  writeReg .cd0 0
  writeReg .cd3 0x80

/-- A flag that is polled up to `n` times and then read once more. -/
def waitFlag (r : Reg) (up : UInt32 → Bool) (n : Nat) : Io Bool := do
  let _ ← Tree.poll (do
    return if up (← readReg r) then some () else none) n
  return up (← readReg r)

/-- A failed transfer: acknowledge, and forget that the drive is streaming. -/
def giveUp (v : Vars) : Io (Option Iso9660.Sector × Vars) := do
  cdAck
  cdReleaseIrq v
  return (none, { v with psxcdStreaming := false })

/-- The DMA into the buffer at `buf`. -/
def startDma (buf : UInt32) : Io Unit := do
  writeReg .d3Madr (buf &&& 0x00ffffff)
  writeReg .d3Bcr 0x00010200
  note .transfer
  writeReg .d3Chcr 0x11000000

/-- Fetching the sector of the pending INT1. -/
def transfer (v : Vars) (lba buf : UInt32) : Io (Option Iso9660.Sector × Vars) := do
  let _ ← cdResult 16
  requestData
  if ← waitFlag .cd0 (fun hsts => hsts &&& 0x40 ≠ 0) 200000 then
    startDma buf
    if ← waitFlag .d3Chcr (fun chcr => chcr &&& 0x01000000 = 0) 2000000 then
      let sector ← Tree.query Query.data
      cdAck
      cdReleaseIrq v
      return (some sector, { v with psxcdNextLba := lba + 1 })
    else giveUp v
  else giveUp v

/-- Waiting for the next INT1, and fetching its sector. -/
def fetch (v : Vars) (lba buf : UInt32) : Io (Option Iso9660.Sector × Vars) := do
  let t ← cdWaitInt 8000000
  if t = some 1 then transfer v lba buf
  else
    cdReleaseIrq v
    return (none, { v with psxcdStreaming := false })

/-- The parameters of a `Setloc`. -/
def setlocParameters (lba : UInt32) : List UInt32 :=
  [(cdLbaToMsf lba).mm.toUInt32, (cdLbaToMsf lba).ss.toUInt32, (cdLbaToMsf lba).ff.toUInt32]

/-- `Setloc`, `ReadN`, and the first sector of the run. -/
def startRun (v : Vars) (lba buf : UInt32) : Io (Option Iso9660.Sector × Vars) := do
  let t ← cdDo 0x02 (setlocParameters lba) 400000
  if t = some 3 then
    let t ← cdDo 0x06 [] 400000
    if t = some 3 then
      note .started
      fetch { v with psxcdStreaming := true } lba buf
    else
      cdReleaseIrq v
      return (none, v)
  else
    cdReleaseIrq v
    return (none, v)

def psxcdHwRead (v : Vars) (lba buf : UInt32) : Driver (Option Iso9660.Sector × Vars) := do
  let v ← lift (cdTakeIrq v)
  if v.psxcdStreaming = false then lift (startRun v lba buf)
  else if lba = v.psxcdNextLba then lift (fetch v lba buf)
  else
    lift (cdReleaseIrq v)
    let v ← psxcdHwStop v
    lift (do
      let v ← cdTakeIrq v
      startRun v lba buf)

/-! ## The lookup on the registers -/

/-- The reads of `psxcd_iso_lookup` are made into `psxcd_probe_buf`; its own accesses to that
buffer are none to the registers. -/
def hwAnswer (probeBuf : UInt32) :
    (q : Iso9660.Query) → Vars → Driver (Iso9660.Answer q × Vars)
  | .hwRead lba, v => psxcdHwRead v lba probeBuf
  | .touched _, v => return ((), v)

/-- `psxcd_iso_lookup`, with the hardware layer under it. -/
def psxcdIsoLookup (probeBuf : UInt32) (behind : Nat → UInt8) (want : Iso9660.FileName)
    (place : Iso9660.Place) (v : Vars) : Driver ((Int × Iso9660.Place) × Vars) :=
  (Iso9660.psxcdIsoLookup behind want place).translate (hwAnswer probeBuf) v

end Registers
end Cdrom
end Blackroo
