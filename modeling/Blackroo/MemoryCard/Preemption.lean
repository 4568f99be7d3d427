import Blackroo.Lib.Runs
import Blackroo.MemoryCard.HandlerTable
import Blackroo.MemoryCard.Preparation
import Blackroo.MemoryCard.Request

/-!
# Sweeps, one instruction at a time

`Blackroo.MemoryCard.Request` takes the assignments with which a sweep opens the bus as one event,
and those with which it gives the bus back as another one.  The code makes them one by one, with
interrupts enabled, and `bu_interrupt` and `bu_timeout` look at `bu_current` and `bu_open`
separately.  Here every such assignment is a step of its own, so that a handler can run between any
two of them.

Any number of processes can be in `bu_revalidate`, because `bu_catch` sleeps.  One process begins in
`bu_init`, which catches the bus once for each slot; `bu_revalidate` catches it once for all of
them. A process carries the transfer that `bu_check` drives with it, and never touches `bu_curr`.
What runs with interrupts disabled is one step: the test and set in `bu_catch`, and `bu_ready` from
`cli` until the process sleeps.

The handlers are those of `Blackroo.MemoryCard.Request`.  A spurious acknowledge can let them run
with an empty queue, where `CURRENT` is no request at all; then it is `phantom`, any request, and
what is done to it concerns nobody (`onCurrent`).  The run of the system ends with a fault when
`bu_rd_routine` is called with a transfer that is not `Bu.InTable`, and never else.
-/

namespace Blackroo
namespace MemoryCard
namespace Preemption

open Runs

/-! ## Processes -/

/-- Which sweep a process is in. -/
inductive Job where
  /-- `bu_init`, at this slot -/
  | init (slot : Slot)
  | revalidate
  deriving DecidableEq

/-- What `bu_current` is set to. -/
def Job.card : Job → Slot
  | .init slot => slot
  | .revalidate => 0

/-- The next instruction in `bu_check`, with `bu_ready` taken apart. -/
inductive Phase where
  /-- the label `try` -/
  | attempt
  /-- the head of the loop -/
  | turn
  | asleep
  /-- `del_timer` of `bu_ready` -/
  | leaving
  /-- the test of `bu_state` of `bu_ready` -/
  | testing
  /-- `bu_rd_routine` -/
  | calling
  deriving DecidableEq

/-- The next instruction of a process. -/
inductive Pc where
  /-- not in a sweep -/
  | idle
  | catching
  /-- `bu_current = card` -/
  | setCurrent
  /-- `bu_state = BU_NONE` -/
  | setState
  /-- `bu_open = TRUE` -/
  | setOpen
  | starting
  /-- in `bu_check`, after so many tries -/
  | probing (slot : Slot) (tries : Nat) (bu : Bu) (phase : Phase)
  /-- behind `bu_check`, with what it has read -/
  | judging (slot : Slot) (found : Option FirstBlock)
  /-- `bu_current = -1` -/
  | clearCurrent
  /-- `bu_open = FALSE` -/
  | clearOpen
  /-- `bu_lock = FALSE` -/
  | clearLock
  /-- `bu_probing = FALSE` -/
  | clearProbing

/-- A process, with its variables `bu_size` and `bu_seen`. -/
structure Proc where
  job : Job
  pc : Pc
  size : Int
  seen : Slot → Bool

/-- The driver with its processes, and the static variables `bu_serials`. -/
structure Sys where
  driver : State
  serials : List UInt32
  procs : Nat → Proc

/-- `bu_rd_routine` is called outside of its table, or a handler outside of its buffer. -/
inductive Fault where
  | outside
  deriving DecidableEq

/-- The process has run to here, and the driver with it. -/
def Sys.put (s : Sys) (pid : Nat) (d : State) (p : Proc) : Sys :=
  { s with driver := d, procs := Function.update s.procs pid p }

/-- The process goes on at `pc`. -/
def Sys.goto (s : Sys) (pid : Nat) (d : State) (pc : Pc) : Sys :=
  s.put pid d { s.procs pid with pc := pc }

/-! ## The sweeps -/

def nextSlot (slot : Slot) : Option Slot :=
  if h : slot.val + 1 < buMinors then some ⟨slot.val + 1, h⟩ else none

/-- The transfer of `bu_read_first_block`. -/
def probeBu (slot : Slot) : Bu :=
  ⟨⟨buFloor slot, 0, slot, List.replicate buBlkSize 0, modeRead⟩, 0, 0, 0, false, 0, 0⟩

/-- `bu_check`.  `input` is what a handler reads, and `expired` tells whether the time of a sleep is
over. -/
def buCheck (s : Sys) (pid : Nat) (slot : Slot) (tries : Nat) (bu : Bu) (input : CardInput)
    (expired : Bool) : Phase → Except Fault Sys
  | .attempt =>
    if tries ≥ nChecks then .ok (s.goto pid s.driver (.judging slot none))
    else
      match buSwInit bu with
      | none => .ok (s.goto pid s.driver (.judging slot none))
      | some bu => .ok (s.goto pid s.driver (.probing slot (tries + 1) bu .turn))
  | .turn =>
    if bu.state % 16 ≠ 0 then
      .ok (s.goto pid { s.driver with buState := .wait, buTimer := true }
        (.probing slot tries bu .asleep))
    else .ok (s.goto pid s.driver (.probing slot tries bu .calling))
  | .asleep =>
    if expired then
      .ok (s.goto pid { s.driver with buState := .timeout } (.probing slot tries bu .leaving))
    else if s.driver.buState = .wait then .ok s
    else .ok (s.goto pid s.driver (.probing slot tries bu .leaving))
  | .leaving =>
    .ok (s.goto pid { s.driver with buTimer := false } (.probing slot tries bu .testing))
  | .testing =>
    if s.driver.buState = .ready then
      .ok (s.goto pid s.driver (.probing slot tries bu .calling))
    else .ok (s.goto pid s.driver (.probing slot tries bu .attempt))
  | .calling =>
    if bu.InTable then
      match buRdRoutine bu input with
      | none => .error .outside
      | some o =>
        if o.status < 0 then .ok (s.goto pid s.driver (.probing slot tries o.bu .attempt))
        else if o.bu.stop then
          .ok (s.goto pid s.driver
            (.judging slot (some (FirstBlock.ofBytes o.bu.request.buffer))))
        else .ok (s.goto pid s.driver (.probing slot tries o.bu .turn))
    else .error .outside

/-- The slot is judged by what was found in it, and the sweep goes on. -/
def judge (s : Sys) (pid : Nat) (slot : Slot) (found : Option FirstBlock) : Sys :=
  let p := s.procs pid
  let sweep : Sweep := { s.driver.joined with size := p.size, seen := p.seen, serials := s.serials }
  match p.job with
  | .init _ =>
    let sweep := initSlot (fun _ => found) sweep slot
    s.put pid { s.driver with joined := sweep.toJoined }
      { p with size := sweep.size, seen := sweep.seen, pc := .clearCurrent }
  | .revalidate =>
    let sweep := revalidateSlot (fun _ => found) sweep slot
    let p := { p with size := sweep.size, seen := sweep.seen }
    let s := { s with serials := sweep.serials }
    match nextSlot slot with
    | some slot =>
      s.put pid { s.driver with joined := sweep.toJoined }
        { p with pc := .probing slot 0 (probeBu slot) .attempt }
    | none => s.put pid { s.driver with joined := sweep.finish } { p with pc := .clearCurrent }

/-- Behind the slot: the next turn of the loop of `bu_init`, or the end of the sweep. -/
def Proc.next (p : Proc) : Proc :=
  match p.job with
  | .init slot =>
    match nextSlot slot with
    | some slot => { p with job := .init slot, pc := .catching }
    | none => { p with pc := .clearProbing }
  | .revalidate => { p with pc := .clearProbing }

/-- `bu_catch` has given up: `bu_init` leaves the slot out, `bu_revalidate` returns. -/
def Proc.giveUp (p : Proc) : Proc :=
  match p.job with
  | .init _ => p.next
  | .revalidate => { p with pc := .idle }

/-- One step of a process. -/
def advance (s : Sys) (pid : Nat) (input : CardInput) (expired : Bool) : Except Fault Sys :=
  let p := s.procs pid
  let d := s.driver
  match p.pc with
  | .idle => .ok s
  | .catching =>
    if d.buLock then if expired then .ok (s.put pid d p.giveUp) else .ok s
    else .ok (s.goto pid { d with buLock := true, owners := .sweep :: d.owners } .setCurrent)
  | .setCurrent => .ok (s.goto pid { d with buCurrent := p.job.card } .setState)
  | .setState => .ok (s.goto pid { d with buState := .none } .setOpen)
  | .setOpen => .ok (s.goto pid { d with buOpen := true } .starting)
  | .starting =>
    match p.job with
    | .init slot => .ok (s.goto pid d (.probing slot 0 (probeBu slot) .attempt))
    | .revalidate =>
      .ok (s.goto pid
        { d with
          joined := { d.joined with total := 0, accepted := fun _ => false }
          buProbing := true }
        (.probing 0 0 (probeBu 0) .attempt))
  | .probing slot tries bu phase => buCheck s pid slot tries bu input expired phase
  | .judging slot found => .ok (judge s pid slot found)
  | .clearCurrent => .ok (s.goto pid { d with buCurrent := -1 } .clearOpen)
  | .clearOpen => .ok (s.goto pid { d with buOpen := false } .clearLock)
  | .clearLock =>
    .ok (s.put pid { d with buLock := false, owners := d.owners.erase .sweep } p.next)
  | .clearProbing =>
    match p.job with
    | .init _ =>
      .ok (s.goto pid
        { d with
          joined := { d.joined with sizes := Function.update d.joined.sizes 0 p.size }
          buProbing := false }
        .idle)
    | .revalidate => .ok (s.goto pid { d with buProbing := false } .idle)

/-- The device is opened: the process enters `bu_revalidate`. -/
def enter (s : Sys) (pid : Nat) : Sys :=
  match (s.procs pid).pc with
  | .idle =>
    { s with serials := [] }.put pid s.driver ⟨.revalidate, .catching, 0, fun _ => false⟩
  | _ => s

/-! ## The system -/

/-- A handler that looks at `CURRENT`.  Without a request it takes `phantom` for one. -/
def onCurrent (phantom : Request) (handler : State → Option State) (d : State) : Option State :=
  match d.queue with
  | [] => (handler { d with queue := [phantom] }).map fun t => { t with queue := [] }
  | _ :: _ => handler d

inductive Event where
  | arrive (r : Request) (pos : Nat) (stale : CardInput)
  | unplug (stale : CardInput)
  | ack (input stale : CardInput) (phantom : Request)
  | timeout (stale : CardInput) (phantom : Request)
  | retry (stale : CardInput)
  | trylock (c : Client)
  | unlock (c : Client)
  | enter (pid : Nat)
  | advance (pid : Nat) (input : CardInput) (expired : Bool)

/-- `bu_interrupt` calls `bu_rd_routine`. -/
def Calls (d : State) : Prop := 0 ≤ d.buCurrent ∧ d.buOpen = false

instance (d : State) : Decidable (Calls d) := inferInstanceAs (Decidable (_ ∧ _))

/-- The driver goes on with the result of a handler.  The other calls of `bu_rd_routine` in a
handler are those of `do_bu_request`, behind `bu_sw_init`: there is no index in the first handler of
a transfer, and if there were no handler, there would be no result. -/
def Sys.handled (s : Sys) : Option State → Except Fault Sys
  | none => .error .outside
  | some d => .ok { s with driver := d }

/-- One event. -/
def step (s : Sys) : Event → Except Fault Sys
  | .arrive r pos stale => s.handled (arrive s.driver r pos stale)
  | .unplug stale => s.handled (unplug s.driver stale)
  | .ack input stale phantom =>
    if Calls s.driver ∧ ¬ s.driver.buCurr.InTable then .error .outside
    else s.handled (onCurrent phantom (fun d => buInterrupt d input stale) s.driver)
  | .timeout stale phantom =>
    s.handled (onCurrent phantom (fun d => buTimeout d stale) s.driver)
  | .retry stale => s.handled (buRetry s.driver stale)
  | .trylock c => .ok { s with driver := psxSio0Trylock s.driver c }
  | .unlock c => .ok { s with driver := psxSio0Unlock s.driver c }
  | .enter pid => .ok (enter s pid)
  | .advance pid input expired => advance s pid input expired

/-- Nobody is in a sweep. -/
def idleProcs : Nat → Proc := fun _ => ⟨.revalidate, .idle, 0, fun _ => false⟩

/-- The driver after `bu_init`, with these cards. -/
def Sys.boot (d : Joined) : Sys := ⟨.boot d, [], idleProcs⟩

/-- The driver when `bu_init` starts its sweep. -/
def Sys.load : Sys :=
  (Sys.boot .zero).put 0 { State.boot .zero with buProbing := true }
    ⟨.init 0, .catching, 0, fun _ => false⟩

end Preemption
end MemoryCard
end Blackroo
