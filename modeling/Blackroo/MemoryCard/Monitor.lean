import Blackroo.Lib.LittleEndian
import Blackroo.MemoryCard.Liveness

/-!
# The monitor on the bus

Three commands of `brmon.c` use SIO0 by polling: `sio0`, `kbd` and `card format`.  The comment over
`mon_sio0_grab` says that all three have to take their turn, since the keyboard driver and the card
driver are on the bus too.  Two of them do: they use the bus between `mon_sio0_grab` and
`psx_sio0_unlock`.  `card format` masks the interrupts instead, once for the write and once for the
read-back.  That keeps others from starting, and does nothing about whoever has started before.

The monitor runs beside the driver of `Arbitration`, one instruction at a time (`Activity`).  What a
command does on the bus is a list of `Stretch`es, worked out from the replies it is going to get.
Its state says by itself whether it holds the lock or has masked the interrupts.

`monitor_respects_iff` is about every run: the monitor never touches the bus while somebody else has
it, exactly if `card format` finds nobody there each time it starts; and it never keeps the lock.

Usage errors, which end a command before it comes to the bus, and the output are left out.
-/

namespace Blackroo
namespace MemoryCard
namespace Monitor

open Runs

/-! ## What the commands do on the bus -/

/-- An access to the bus: the select line goes off, or on for a port, or a byte is clocked. -/
inductive BusOp where
  | deselect
  | select (port2 : Bool)
  | xfer (byte : UInt8)
  deriving DecidableEq, Repr

/-- A use of the bus: with the lock, or with the interrupts masked. -/
inductive Stretch where
  | locked (ops : List BusOp)
  | masked (first : BusOp) (ops : List BusOp)
  deriving DecidableEq, Repr

/-- The replies to the bytes of one stretch; `none` is a timeout. -/
abbrev Replies : Type := Nat → Option UInt8

/-- Bytes are clocked, from byte `i` of the stretch on, until one is not answered.  The second
component says that all were. -/
def clockBytes (replies : Replies) : Nat → List UInt8 → List BusOp × Bool
  | _, [] => ([], true)
  | i, b :: bytes =>
    match replies i with
    | none => ([.xfer b], false)
    | some _ =>
      let (ops, ok) := clockBytes replies (i + 1) bytes
      (.xfer b :: ops, ok)

/-- The loop of `cmd_sio0`.  It also stops if nobody acknowledges the address. -/
def sio0Loop (replies : Replies) (acked : Nat → Bool) : Nat → List UInt8 → List BusOp
  | _, [] => []
  | i, b :: bytes =>
    .xfer b ::
      if replies i = none then []
      else if !acked i && 1 ≤ i && i < 3 then []
      else sio0Loop replies acked (i + 1) bytes

/-- `cmd_sio0`, with the number of bytes asked for, if any. -/
def cmdSio0 (port2 : Bool) (addr : Nat) (want : Option Nat) (replies : Replies)
    (acked : Nat → Bool) : List Stretch :=
  let n := want.elim 10 fun want => if 4 ≤ want ∧ want ≤ 40 then want else 10
  let command : UInt8 := if 0x01 ≤ addr ∧ addr ≤ 0x04 then 0x42 else 0x52
  let bytes := UInt8.ofNat addr :: command :: List.replicate (n - 2) 0x00
  [.locked ([.deselect, .select port2] ++ sio0Loop replies acked 0 bytes ++ [.deselect])]

/-- `kbd_poll`. -/
def kbdPoll (port2 : Bool) (addr : Nat) (replies : Replies) : Stretch :=
  let tx := UInt8.ofNat addr :: 0x42 :: List.replicate 12 0x00 ++ [0x06]
  .locked ([.deselect, .select port2] ++ (clockBytes replies 0 tx).1 ++ [.deselect])

/-- Where `kbd_poll` is called, and what it gets. -/
structure Poll where
  port2 : Bool
  addr : Nat
  replies : Replies

/-- `cmd_kbd`: one poll, the polls of a scan, or those of a watch. -/
def cmdKbd (polls : List Poll) : List Stretch :=
  polls.map fun poll => kbdPoll poll.port2 poll.addr poll.replies

/-- The port that `mc_select` selects. -/
def mcPort2 (slot : Nat) : Bool := (slot >>> 2) &&& 1 ≠ 0

/-- The address byte of a slot. -/
def cardAddr (slot : Nat) : UInt8 := UInt8.ofNat (0x81 + (slot &&& 3))

/-- `mc_write_sector` for sector 0, behind `mc_select` and up to `mc_deselect`; and whether it
returns something else than -1. -/
def mcWriteSector (slot : Nat) (buf : List UInt8) (replies : Replies) : List BusOp × Bool :=
  clockBytes replies 0 ([cardAddr slot, 0x57, 0x00, 0x00, 0x00, 0x00] ++ buf ++
    [buf.foldl (· ^^^ ·) 0] ++ List.replicate 8 0x00)

/-- The search for `5C 5D` in `mc_read_sector`, with some turns to go. -/
def findAck (replies : Replies) : (i turns : Nat) → Option UInt8 → List BusOp × Bool
  | _, 0, _ => ([], false)
  | i, turns + 1, prev =>
    match replies i with
    | none => ([.xfer 0x00], false)
    | some rx =>
      if prev = some 0x5c ∧ rx = 0x5d then ([.xfer 0x00], true)
      else
        let (ops, found) := findAck replies (i + 1) turns (some rx)
        (.xfer 0x00 :: ops, found)

/-- `mc_read_sector` for sector 0, behind `mc_select` and up to `mc_deselect`. -/
def mcReadSector (slot : Nat) (replies : Replies) : List BusOp :=
  let (head, answered) :=
    clockBytes replies 0 [cardAddr slot, 0x52, 0x00, 0x00, 0x00, 0x00]
  if answered then
    let (search, found) := findAck replies 6 16 none
    if found then
      head ++ search ++ (clockBytes replies (6 + search.length) (List.replicate (2 + 128) 0x00)).1
    else head ++ search
  else head

/-- The header block that `card format` writes. -/
def headerBlock (slot seq : UInt32) : List UInt8 :=
  LittleEndian.bytes32 0x1234 ++ LittleEndian.bytes32 1024 ++
    LittleEndian.bytes32 ((0xb1acc000 : UInt32) + (slot <<< (8 : UInt32)) + seq) ++
    LittleEndian.bytes32 seq ++ List.replicate 112 0

/-- `cmd_card_format`: the write and, unless it has failed, the read-back. -/
def cmdCardFormat (slot seq : UInt32) (write read : Replies) : List Stretch :=
  let select := BusOp.select (mcPort2 slot.toNat)
  let (ops, ok) := mcWriteSector slot.toNat (headerBlock slot seq) write
  .masked .deselect (select :: ops ++ [.deselect]) ::
    if ok then [.masked .deselect (select :: mcReadSector slot.toNat read ++ [.deselect])] else []

/-- A command, with what it is going to read. -/
inductive Command where
  | sio0 (port2 : Bool) (addr : Nat) (want : Option Nat) (replies : Replies) (acked : Nat → Bool)
  | kbd (polls : List Poll)
  | cardFormat (slot seq : UInt32) (write read : Replies)

def Command.stretches : Command → List Stretch
  | .sio0 port2 addr want replies acked => cmdSio0 port2 addr want replies acked
  | .kbd polls => cmdKbd polls
  | .cardFormat slot seq write read => cmdCardFormat slot seq write read

/-! ## The monitor beside the driver -/

/-- Where the monitor is.  `todo` are the stretches that the command has not come to. -/
inductive Phase where
  /-- off the bus; at the prompt if nothing is left to do -/
  | ready (todo : List Stretch)
  /-- in `mon_sio0_grab`, with so many tries left -/
  | grabbing (tries : Nat) (ops : List BusOp) (todo : List Stretch)
  /-- between `mon_sio0_grab` and `psx_sio0_unlock` -/
  | holding (ops : List BusOp) (todo : List Stretch)
  /-- the interrupts have just been masked -/
  | masking (first : BusOp) (ops : List BusOp) (todo : List Stretch)
  /-- the interrupts are masked, and the bus is in use -/
  | masked (ops : List BusOp) (todo : List Stretch)
  deriving DecidableEq, Repr

/-- The next instruction of the monitor touches the bus. -/
def Phase.touches : Phase → Bool
  | .holding (_ :: _) _ | .masking _ _ _ | .masked (_ :: _) _ => true
  | _ => false

/-- The monitor has the lock. -/
def Phase.holds : Phase → Bool
  | .holding _ _ => true
  | _ => false

/-- The interrupts are masked: neither handlers nor timers run, and no other process. -/
def Phase.masks : Phase → Bool
  | .masking _ _ _ | .masked _ _ => true
  | _ => false

structure System where
  driver : State
  phase : Phase

/-- The driver after `bu_init`, with the monitor at its prompt. -/
def System.boot (d : Joined) : System := ⟨State.boot d, .ready []⟩

/-- The number of tries of `mon_sio0_grab`. -/
def grabTries : Nat := 2000

/-- One instruction of the monitor. -/
def System.advance (s : System) : System :=
  match s.phase with
  | .ready [] => s
  | .ready (.locked ops :: todo) => { s with phase := .grabbing grabTries ops todo }
  | .ready (.masked first ops :: todo) => { s with phase := .masking first ops todo }
  | .grabbing 0 _ todo => { s with phase := .ready todo }
  | .grabbing (tries + 1) ops todo =>
    { driver := psxSio0Trylock s.driver .monitor
      phase :=
        if !s.driver.buLock && !s.driver.buProbing then .holding ops todo
        else .grabbing tries ops todo }
  | .holding (_ :: ops) todo => { s with phase := .holding ops todo }
  | .holding [] todo => ⟨psxSio0Unlock s.driver .monitor, .ready todo⟩
  | .masking _ ops todo => { s with phase := .masked ops todo }
  | .masked (_ :: ops) todo => { s with phase := .masked ops todo }
  | .masked [] todo => { s with phase := .ready todo }

/-- The event is one of the monitor's own. -/
def ofMonitor : Event → Bool
  | .trylock .monitor | .unlock .monitor => true
  | _ => false

/-- What happens next: an event of the driver or of the keyboard, a command is typed, or the monitor
goes on. -/
inductive Activity where
  | driver (e : Event) (foreign : ofMonitor e = false)
  | typed (c : Command)
  | monitor

def sysStep (s : System) : Activity → Option System
  | .driver e _ =>
    if s.phase.masks then some s
    else (step s.driver e).map fun driver => { s with driver := driver }
  | .typed c => some (if s.phase = .ready [] then { s with phase := .ready c.stretches } else s)
  | .monitor => some s.advance

/-- The monitor touches the bus while somebody else has it. -/
def Conflict (s : System) (a : Activity) : Prop :=
  a = .monitor ∧ s.phase.touches = true ∧ ∃ o ∈ s.driver.owners, o ≠ .client .monitor

/-- `card format` finds nobody on the bus when it starts on the write or the read-back. -/
def FormatClear (s : System) (a : Activity) : Prop :=
  a = .monitor → ∀ first ops todo, s.phase = .masking first ops todo → s.driver.owners = []

/-! ## Who has the bus -/

/-- Whoever goes through the queue leaves the bus to nobody or to a block transfer. -/
theorem monitor_not_mem_of_settled {s s' : State} (h : Settled s s') :
    Owner.client .monitor ∉ s'.owners := by
  rcases h.place with ⟨hfree, -⟩ | ⟨r, rest, hserving⟩
  · rw [hfree.owners]
    exact List.not_mem_nil
  · rw [hserving.owners]
    decide

theorem monitor_mem_doBuRequest {s s' : State} (hlog : Log s) (hplace : Place s)
    {stale : CardInput} (h : doBuRequest s stale = some s') :
    .client .monitor ∈ s'.owners ↔ .client .monitor ∈ s.owners := by
  obtain ⟨t, ht, hcases⟩ := doBuRequest_spec hlog hplace stale
  obtain rfl := Option.some.inj (ht.symm.trans h)
  rcases hcases with ⟨-, rfl⟩ | ⟨hlock, -, hsettled⟩
  · exact Iff.rfl
  · refine iff_of_false (monitor_not_mem_of_settled hsettled) ?_
    cases hplace with
    | free hp => rw [hp.owners]; exact List.not_mem_nil
    | serving hp => rw [hp.owners]; decide
    | held hp => rw [hp.lock] at hlock; cases hlock
    | sweeping hp => rw [hp.owners]; decide

/-- Nobody else takes the bus from the monitor, or for it. -/
theorem monitor_mem_step {s s' : State} (hinv : Inv s) {e : Event} (he : ofMonitor e = false)
    (h : step s e = some s') : .client .monitor ∈ s'.owners ↔ .client .monitor ∈ s.owners := by
  have hserving : ∀ {r rest}, Serving s r rest → Owner.client .monitor ∉ s.owners := by
    intro r rest hserving
    rw [hserving.owners]
    decide
  cases e with
  | arrive r pos stale =>
    obtain ⟨hlog, hplace⟩ := hinv.queued r pos
    rw [step, arrive] at h
    split at h
    · cases h
      exact Iff.rfl
    · have howners := monitor_mem_doBuRequest hlog hplace h
      exact howners
  | unplug stale =>
    rw [step, unplug] at h
    split at h
    · have howners := monitor_mem_doBuRequest (hinv.log.timed false _) (hinv.place.timed false _) h
      exact howners
    · cases h
      exact Iff.rfl
  | retry stale =>
    rw [step, buRetry] at h
    split at h
    · have howners := monitor_mem_doBuRequest (hinv.log.timed _ false) (hinv.place.timed _ false) h
      exact howners
    · cases h
      exact Iff.rfl
  | ack input stale =>
    obtain ⟨t, ht, hcases⟩ := buInterrupt_spec hinv input stale
    obtain rfl := Option.some.inj (ht.symm.trans h)
    rcases hcases with ⟨r, rest, hserve, -, hsettled, -⟩ | ⟨-, st, rfl⟩
    · exact iff_of_false (monitor_not_mem_of_settled hsettled) (hserving hserve)
    · exact Iff.rfl
  | timeout stale =>
    obtain ⟨t, ht, hcases⟩ := buTimeout_spec hinv stale
    obtain rfl := Option.some.inj (ht.symm.trans h)
    rcases hcases with ⟨r, rest, hserve, -, hsettled, -⟩ | ⟨-, st, b, rfl, -⟩
    · exact iff_of_false (monitor_not_mem_of_settled hsettled) (hserving hserve)
    · exact Iff.rfl
  | trylock c =>
    cases c with
    | monitor => cases he
    | keyboard =>
      cases h
      rw [psxSio0Trylock]
      split <;> simp
  | unlock c =>
    cases c with
    | monitor => cases he
    | keyboard =>
      cases h
      rw [psxSio0Unlock]
      split
      · exact List.mem_erase_of_ne (by decide)
      · exact Iff.rfl
  | sweepCatch =>
    cases h
    rw [sweepCatch]
    split <;> simp
  | sweepOpen =>
    cases h
    rw [sweepOpen]
    split <;> rfl
  | sweepWait =>
    cases h
    rw [sweepWait]
    split <;> rfl
  | sweepWake =>
    cases h
    rw [sweepWake]
    split <;> rfl
  | sweepClose cards =>
    cases h
    rw [sweepClose]
    split
    · exact List.mem_erase_of_ne (by decide)
    · exact Iff.rfl
  | sweepEnd =>
    cases h
    rw [sweepEnd]
    split <;> rfl

/-! ## The invariant -/

/-- The driver is sound, and the monitor is an owner of the bus exactly while it has the lock. -/
structure SysInv (s : System) : Prop where
  driver : Inv s.driver
  holds : .client .monitor ∈ s.driver.owners ↔ s.phase.holds = true

theorem sysInv_boot (d : Joined) : SysInv (System.boot d) := by
  refine ⟨inv_boot d, iff_of_false ?_ ?_⟩
  · exact List.not_mem_nil
  · exact Bool.false_ne_true

/-- While the monitor has the lock nobody else has the bus. -/
theorem SysInv.alone {s : System} (h : SysInv s) (hholds : s.phase.holds = true) :
    s.driver.owners = [.client .monitor] := by
  obtain ⟨o, ho⟩ : ∃ o, s.driver.owners = [o] := by
    refine List.length_eq_one_iff.mp (Nat.le_antisymm h.driver.owners_le_one ?_)
    exact List.length_pos_of_mem (h.holds.mpr hholds)
  have hmem := h.holds.mpr hholds
  rw [ho, List.mem_singleton] at hmem
  rw [ho, hmem]

/-- `psx_sio0_unlock` frees the bus. -/
theorem SysInv.unlock {s : System} (h : SysInv s) (hholds : s.phase.holds = true) :
    (psxSio0Unlock s.driver .monitor).buLock = false ∧
      (psxSio0Unlock s.driver .monitor).owners = [] := by
  rw [psxSio0Unlock, if_pos (h.holds.mpr hholds)]
  refine ⟨rfl, ?_⟩
  show s.driver.owners.erase _ = []
  rw [h.alone hholds, List.erase_cons_head]

theorem SysInv.advance {s : System} (h : SysInv s) : SysInv s.advance := by
  -- a move that touches neither the driver nor the lock
  have hmove : ∀ phase : Phase, phase.holds = s.phase.holds → SysInv { s with phase := phase } :=
    fun phase hphase => ⟨h.driver, by rw [hphase]; exact h.holds⟩
  rw [System.advance]
  match hphase : s.phase with
  | .ready [] => exact h
  | .ready (.locked ops :: todo) => exact hmove _ (by rw [hphase]; rfl)
  | .ready (.masked first ops :: todo) => exact hmove _ (by rw [hphase]; rfl)
  | .grabbing 0 ops todo => exact hmove _ (by rw [hphase]; rfl)
  | .grabbing (tries + 1) ops todo =>
    have hout : Owner.client .monitor ∉ s.driver.owners := by
      intro hmem
      have := h.holds.mp hmem
      rw [hphase] at this
      cases this
    refine ⟨psxSio0Trylock_inv h.driver .monitor, ?_⟩
    dsimp only
    rw [psxSio0Trylock]
    split
    · exact iff_of_true List.mem_cons_self rfl
    · exact iff_of_false hout Bool.false_ne_true
  | .holding (op :: ops) todo => exact hmove _ (by rw [hphase]; rfl)
  | .holding [] todo =>
    obtain ⟨-, howners⟩ := h.unlock (by rw [hphase]; rfl)
    refine ⟨psxSio0Unlock_inv h.driver .monitor, iff_of_false ?_ Bool.false_ne_true⟩
    dsimp only
    rw [howners]
    exact List.not_mem_nil
  | .masking first ops todo => exact hmove _ (by rw [hphase]; rfl)
  | .masked (op :: ops) todo => exact hmove _ (by rw [hphase]; rfl)
  | .masked [] todo => exact hmove _ (by rw [hphase]; rfl)

/-- **Every activity keeps the invariant**, and none crashes the driver. -/
theorem sysInv_step (s : System) (a : Activity) (h : SysInv s) :
    ∃ s', sysStep s a = some s' ∧ SysInv s' := by
  cases a with
  | monitor => exact ⟨_, rfl, h.advance⟩
  | typed c =>
    refine ⟨_, rfl, ?_⟩
    split
    · next hready =>
      refine ⟨h.driver, ?_⟩
      rw [h.holds, hready]
      rfl
    · exact h
  | driver e he =>
    rw [sysStep]
    split
    · exact ⟨s, rfl, h⟩
    · obtain ⟨driver, hdriver, hinv⟩ := inv_step s.driver e h.driver
      rw [hdriver]
      exact ⟨_, rfl, hinv, (monitor_mem_step h.driver he hdriver).trans h.holds⟩

/-- The same, for the step that is taken. -/
theorem SysInv.of_step {s s' : System} {a : Activity} (h : SysInv s)
    (hstep : sysStep s a = some s') : SysInv s' := by
  obtain ⟨t, ht, hinv⟩ := sysInv_step s a h
  obtain rfl := Option.some.inj (ht.symm.trans hstep)
  exact hinv

/-! ## Masked stretches -/

/-- Once `card format` is under way, nobody has the bus. -/
def Undisturbed (s : System) : Prop :=
  ∀ ops todo, s.phase = .masked ops todo → s.driver.owners = []

/-- Nobody comes to the bus while the interrupts are masked. -/
theorem Undisturbed.of_step {s s' : System} {a : Activity} (h : Undisturbed s)
    (hclear : FormatClear s a) (hstep : sysStep s a = some s') : Undisturbed s' := by
  intro ops todo hmasked
  cases a with
  | typed c =>
    cases hstep
    split at hmasked
    · cases hmasked
    · next hready =>
      rw [if_neg hready]
      exact h ops todo hmasked
  | driver e he =>
    rw [sysStep] at hstep
    split at hstep
    · cases hstep
      exact h ops todo hmasked
    · next hopen =>
      obtain ⟨driver, -, rfl⟩ := Option.map_eq_some_iff.mp hstep
      have hphase : s.phase = .masked ops todo := hmasked
      rw [hphase] at hopen
      exact absurd rfl hopen
  | monitor =>
    cases hstep
    rw [System.advance] at hmasked ⊢
    match hphase : s.phase with
    | .ready [] => rw [hphase] at hmasked; cases hphase.symm.trans hmasked
    | .ready (.locked _ :: _) => rw [hphase] at hmasked; cases hmasked
    | .ready (.masked _ _ :: _) => rw [hphase] at hmasked; cases hmasked
    | .grabbing 0 _ _ => rw [hphase] at hmasked; cases hmasked
    | .grabbing (_ + 1) _ _ =>
      rw [hphase] at hmasked
      dsimp only at hmasked
      split at hmasked <;> cases hmasked
    | .holding (_ :: _) _ => rw [hphase] at hmasked; cases hmasked
    | .holding [] _ => rw [hphase] at hmasked; cases hmasked
    | .masking first ops' todo' => exact hclear rfl first ops' todo' hphase
    | .masked (op :: ops') todo' => exact h _ _ hphase
    | .masked [] _ => rw [hphase] at hmasked; cases hmasked

/-- A command that takes its turn, or finds nobody, disturbs nobody. -/
theorem not_conflict {s : System} (h : SysInv s) (hmasked : Undisturbed s) {a : Activity}
    (hclear : FormatClear s a) : ¬ Conflict s a := by
  rintro ⟨rfl, htouches, o, ho, hother⟩
  have hnobody : s.driver.owners ≠ [] := List.ne_nil_of_mem ho
  match hphase : s.phase with
  | .ready _ => rw [hphase] at htouches; cases htouches
  | .grabbing _ _ _ => rw [hphase] at htouches; cases htouches
  | .holding _ _ =>
    rw [h.alone (by rw [hphase]; rfl), List.mem_singleton] at ho
    exact hother ho
  | .masking first ops todo => exact hnobody (hclear rfl first ops todo hphase)
  | .masked ops todo => exact hnobody (hmasked ops todo hphase)

/-- `card format` disturbs whoever it finds on the bus. -/
theorem formatClear_of_not_conflict {s : System} (h : SysInv s) {a : Activity}
    (hquiet : ¬ Conflict s a) : FormatClear s a := by
  rintro rfl first ops todo hphase
  refine List.eq_nil_iff_forall_not_mem.mpr fun o ho => hquiet ⟨rfl, by rw [hphase]; rfl, o, ho, ?_⟩
  rintro rfl
  have hholds := h.holds.mp ho
  rw [hphase] at hholds
  cases hholds

/-! ## The whole -/

/-- **When the monitor respects the bus.**  In every run of commands, card transfers, sweeps and
keyboard polls the monitor touches the bus only while nobody else has it, exactly if nobody has it
whenever `card format` starts on its write or its read-back.  In any case no run crashes the driver,
the monitor has the lock only between `mon_sio0_grab` and `psx_sio0_unlock`, and so not when a
command has returned; and `psx_sio0_unlock` leaves the bus free. -/
theorem monitor_respects_iff (d : Joined) (activities : List Activity) :
    (Along sysStep (fun s a => ¬ Conflict s a) (System.boot d) activities ↔
      Along sysStep FormatClear (System.boot d) activities) ∧
    ∃ s, run sysStep (System.boot d) activities = some s ∧
      (s.phase = .ready [] → .client .monitor ∉ s.driver.owners) ∧
      ∀ todo, s.phase = .holding [] todo →
        ∃ s', sysStep s .monitor = some s' ∧ s'.phase = .ready todo ∧
          s'.driver.buLock = false ∧ s'.driver.owners = [] := by
  refine ⟨⟨fun h => ?_, fun h => ?_⟩, ?_⟩
  · exact Along.of_inv (I := SysInv) (fun s a s' hs _ => hs.of_step)
      (fun s a hs => formatClear_of_not_conflict hs) (sysInv_boot d) h
  · refine Along.of_inv (I := fun s => SysInv s ∧ Undisturbed s) ?_ ?_
      ⟨sysInv_boot d, fun ops todo hphase => rfl⟩ h
    · exact fun s a s' hs hclear hstep => ⟨hs.1.of_step hstep, hs.2.of_step hclear hstep⟩
    · exact fun s a hs hclear => not_conflict hs.1 hs.2 hclear
  · obtain ⟨s, hrun, hinv⟩ := run_inv sysInv_step (sysInv_boot d) activities
    refine ⟨s, hrun, fun hready hmem => ?_, fun todo hphase => ?_⟩
    · have hholds := hinv.holds.mp hmem
      rw [hready] at hholds
      cases hholds
    · obtain ⟨hlock, howners⟩ := hinv.unlock (by rw [hphase]; rfl)
      have hstep : sysStep s .monitor =
          some ⟨psxSio0Unlock s.driver .monitor, .ready todo⟩ := by
        rw [sysStep, System.advance, hphase]
      exact ⟨_, hstep, rfl, hlock, howners⟩

/-- A block read is in flight when `card format` is typed. -/
def formatDuringRead : List Activity :=
  [.driver (.arrive ⟨7, 0, .read, 0, 1, fun _ => 0⟩ 0 ⟨0, false, 0⟩) rfl,
    .driver (.unplug ⟨0, false, 0⟩) rfl,
    .typed (.cardFormat 0 0 (fun _ => none) (fun _ => none)), .monitor]

/-- Its first access to the bus meets the block transfer. -/
theorem format_disturbs_read :
    ∃ s, run sysStep (System.boot oneCard) formatDuringRead = some s ∧ Conflict s .monitor ∧
      s.driver.owners = [.block] :=
  ⟨_, rfl, ⟨rfl, rfl, .block, List.mem_singleton_self _, by decide⟩, rfl⟩

end Monitor
end MemoryCard
end Blackroo
