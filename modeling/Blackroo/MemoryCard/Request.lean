import Blackroo.MemoryCard.Sweep
import Blackroo.MemoryCard.Transfer

/-!
# Serving block requests over a shared bus

The request function `do_bu_request`, the acknowledge interrupt `bu_interrupt`, the
timer functions `bu_timeout` and `bu_retry`, and the other users of the SIO0 bus
they share `bu_lock` with: the keyboard and the monitor, which take it with
`psx_sio0_trylock`, and the sweep of `bu_revalidate`, which catches it and then probes
the slots with `bu_open` set.

The driver keeps its place in static variables between two interrupts, so the model
is a state machine.  `State` has the statics, and `Event` everything that can happen
to them.  Handlers are atomic: they run with `io_request_lock` held or with interrupts
off.  A sweep is a process that sleeps and can be interrupted, so it is several events.  The
assignments that open the bus to it are one of them, and those that give the bus back another one;
`Blackroo.MemoryCard.Preemption` takes them apart.

## The queue

Every buffer of the queue counts as a request: `end_request` ends one buffer and moves
to the next one of the same request.  A buffer that is merged into a request stands before or
behind the buffers of that request, so where a new buffer goes is a place on the queue.

The block layer plugs an empty queue: the first buffer is put on it and the request function is
not called before the queue is unplugged, so that the buffers of one transfer can be sorted.  While
the queue is plugged a buffer can go anywhere, also to the front.  Otherwise the head is left alone,
since the driver works on it (`head_active`), and the request function is called at once.

This protects the request in service as long as it was the block layer that started it.  But
`bu_retry` calls the request function as well, and does not look at the plug.
-/

namespace Blackroo
namespace MemoryCard

open Dialogue

/-! ## Requests and their history -/

inductive Cmd where
  | read
  | write
  | other
  deriving DecidableEq, Repr

/-- One buffer of the request queue.  `id` stands for its address. -/
structure Request where
  id : Nat
  device : Nat
  cmd : Cmd
  sector : UInt32
  currentNrSectors : UInt32
  buffer : Nat → UInt8

/-- The 128 bytes of a buffer that belong to step `i`. -/
def Request.slice (r : Request) (i : Nat) : List UInt8 :=
  (List.range buBlkSize).map fun k => r.buffer (buBlkSize * i + k)

/-- `memcpy` of a card block to its place in the buffer. -/
def Request.store (r : Request) (i : Nat) (data : List UInt8) : Request :=
  { r with
    buffer := fun a =>
      if buBlkSize * i ≤ a ∧ a < buBlkSize * i + buBlkSize then data.getD (a - buBlkSize * i) 0
      else r.buffer a }

/-- A transfer that is over: the card and block it was for, what went over the bus, how
many acknowledges it took, and whether the driver accepted it. -/
structure Attempt where
  card : Slot
  block : UInt16
  wire : List (Exchange UInt8)
  acks : Nat
  accepted : Bool

/-- A request that was ended: the buffer as it was left, the cards it was served from, the
verdict, and the attempts made for it, step by step, with those of the step it failed at. -/
structure Ended where
  request : Request
  joined : Joined
  uptodate : Bool
  steps : List (List Attempt)
  failures : List Attempt

/-! ## The state -/

inductive BuState where
  | none
  | wait
  | ready
  | timeout
  deriving DecidableEq, Repr

/-- Who takes the bus with `psx_sio0_trylock`. -/
inductive Client where
  | keyboard
  | monitor
  deriving DecidableEq, Repr

inductive Owner where
  | block
  | sweep
  | client (c : Client)
  deriving DecidableEq, Repr

/-- Where the process in `bu_revalidate` is. -/
inductive SweepPhase where
  | idle
  /-- the bus is caught -/
  | caught
  /-- `bu_open` and `bu_probing` are set -/
  | probing
  /-- asleep in `bu_ready` -/
  | waiting
  /-- the bus is given back, `bu_probing` not yet cleared -/
  | closing
  deriving DecidableEq, Repr

/-- The queue of the block layer and the statics of the driver.  From `owners` on nothing is stored
by either: who is between taking and releasing the bus, the requests that arrived and ended, whether
one was put in front of the request in service, the attempts made for the request in service, the
bytes and acknowledges of the transfer in progress, and the value of `bu_lock` after each end. -/
structure State where
  queue : List Request
  plugged : Bool
  joined : Joined
  buLock : Bool
  buProbing : Bool
  buOpen : Bool
  buCurrent : Int
  buState : BuState
  buStep : Nat
  buTry : Nat
  start : UInt32
  len : UInt32
  buCurr : Bu
  buTimer : Bool
  buRetryArmed : Bool
  sweep : SweepPhase
  owners : List Owner
  arrived : List Nat
  ended : List Ended
  overtaken : Bool
  steps : List (List Attempt)
  failures : List Attempt
  wire : List (Exchange UInt8)
  acks : Nat
  lockLog : List Bool

/-- The driver after `bu_init`. -/
def State.boot (d : Joined) : State where
  queue := []
  plugged := false
  joined := d
  buLock := false
  buProbing := false
  buOpen := false
  buCurrent := -1
  buState := .none
  buStep := 0
  buTry := 0
  start := 0
  len := 0
  buCurr := ⟨⟨0, 0, 0, List.replicate buBlkSize 0, 0⟩, 0, 0, 0, false, 0, 0⟩
  buTimer := false
  buRetryArmed := false
  sweep := .idle
  owners := []
  arrived := []
  ended := []
  overtaken := false
  steps := []
  failures := []
  wire := []
  acks := 0
  lockLog := []

/-! ## The request function -/

/-- `end_request`: the head of the queue is ended. -/
def State.endRequest (s : State) (uptodate : Bool) : State :=
  match s.queue with
  | [] => s
  | r :: rest =>
    { s with
      queue := rest
      ended := s.ended ++ [⟨r, s.joined, uptodate, s.steps, s.failures⟩]
      steps := []
      failures := [] }

/-- `bu_current = -1; bu_lock = FALSE;`. -/
def State.release (s : State) : State :=
  { s with buCurrent := -1, buLock := false, owners := s.owners.erase .block }

/-- Going on after a request was ended. -/
def State.noteLock (s : State) : State := { s with lockLog := s.lockLog ++ [s.buLock] }

/-- The end of a request in service. -/
def State.finish (s : State) (uptodate : Bool) : State := (s.endRequest uptodate).release.noteLock

/-- The end of a request that is refused before it is started. -/
def State.refuse (s : State) : State := (s.endRequest false).noteLock

/-- `CURRENT->sector << 2` and `CURRENT->current_nr_sectors << 2`. -/
def Request.start (r : Request) : UInt32 := r.sector <<< 2

def Request.len (r : Request) : UInt32 := r.currentNrSectors <<< 2

/-- The mode of a request, if it is one the driver knows. -/
def Request.mode (r : Request) : Option UInt8 :=
  match r.cmd with
  | .read => some modeRead
  | .write => some modeWrite
  | .other => none

/-- `bu_arm_retry`. -/
def State.armRetry (s : State) : State := { s with buRetryArmed := true }

/-- The parameters of the next transfer. -/
def State.fill (s : State) (r : Request) (card : Slot) (block : UInt16) : Bu :=
  { s.buCurr with
    request :=
      { s.buCurr.request with
        buffer := if r.cmd = .write then r.slice s.buStep else s.buCurr.request.buffer
        block := block
        card := card
        floor := buFloor card } }

/-- How a pass through the second half of `do_bu_request` ends: with a transfer under
way, or back at the label `start`. -/
inductive Next where
  | running (s : State)
  | again (s : State)

/-- The second half of `do_bu_request`, for the request `r` at the head of the queue.
`none` is a call through an empty entry of `bu_rd_states`. -/
def State.serve (s : State) (r : Request) (input : CardInput) : Option Next :=
  if s.buStep < s.len.toNat then
    if s.buTry ≥ nChecks then some (.again (s.finish false))
    else
      let s := { s with buTry := s.buTry + 1 }
      match s.joined.locate (s.start + UInt32.ofNat s.buStep) with
      | none => some (.again (s.finish false))
      | some (card, block) =>
        let s := { s with buState := .none }
        match buSwInit (s.fill r card block) with
        | none => some (.again (s.finish false))
        | some bu =>
          match buRdRoutine bu input with
          | none => none
          | some o =>
            let s := { s with buCurr := o.bu, wire := o.wire, acks := 0 }
            if o.status < 0 then some (.again (s.finish false))
            else some (.running { s with buTimer := true })
  else some (.again (s.finish true))

/-- A request is taken into service. -/
def State.take (s : State) (r : Request) (mode : UInt8) : State :=
  { s with
    start := r.start
    len := r.len
    buCurr := { s.buCurr with request := { s.buCurr.request with mode := mode } }
    buLock := true
    owners := .block :: s.owners
    buCurrent := r.device
    buStep := 0
    buTry := 0 }

/-- `do_bu_request` from the label `start` on, with `bu_lock` free: refuse what cannot
be served, start the first request that can. -/
def startLoop (input : CardInput) : List Request → State → Option State
  | [], s => some s
  | r :: rest, s =>
    if r.device > 0 then startLoop input rest s.refuse
    else if (r.start + r.len).toNat > toUlong s.joined.total then startLoop input rest s.refuse
    else
      match r.mode with
      | none => startLoop input rest s.refuse
      | some mode =>
        match (s.take r mode).serve r input with
        | none => none
        | some (.running s) => some s
        | some (.again s) => startLoop input rest s

/-- `do_bu_request` as the block layer and `bu_retry` call it. -/
def doBuRequest (s : State) (input : CardInput) : Option State :=
  if s.buLock then some s.armRetry else startLoop input s.queue s

/-- `do_bu_request` with `bu_continue` set.  There must be a current request. -/
def continueRequest (s : State) (input : CardInput) : Option State :=
  match s.queue with
  | [] => none
  | r :: rest =>
    match s.serve r input with
    | none => none
    | some (.running s) => some s
    | some (.again s) => startLoop input rest s

/-! ## The handlers -/

/-- The transfer in progress, when it is over. -/
def State.attempt (s : State) (accepted : Bool) : Attempt :=
  ⟨s.buCurr.request.card, s.buCurr.request.block, s.wire, s.acks, accepted⟩

/-- The transfer in progress is over without success. -/
def State.failAttempt (s : State) : State :=
  { s with failures := s.failures ++ [s.attempt false] }

/-- The transfer in progress is accepted: the data of a read go to the buffer, and the
next step is due. -/
def State.acceptAttempt (s : State) (r : Request) (rest : List Request) : State :=
  { s with
    queue :=
      (if r.cmd = .read then r.store s.buStep s.buCurr.request.buffer else r) :: rest
    steps := s.steps ++ [s.failures ++ [s.attempt true]]
    failures := []
    buStep := s.buStep + 1
    buTry := 0 }

/-- `bu_interrupt`.  `input` is what the handler of the transfer reads, `stale` what the
first state of a new transfer reads. -/
def buInterrupt (s : State) (input stale : CardInput) : Option State :=
  if s.buCurrent < 0 then some s
  else if s.buOpen then some { s with buState := .ready }
  else
    match buRdRoutine s.buCurr input with
    | none => none
    | some o =>
      let s := { s with buCurr := o.bu, wire := s.wire ++ o.wire, acks := s.acks + 1 }
      if o.status < 0 then continueRequest { s.failAttempt with buTimer := false } stale
      else if o.bu.stop then
        match s.queue with
        | [] => none
        | r :: rest => continueRequest { s.acceptAttempt r rest with buTimer := false } stale
      else some { s with buTimer := true }

/-- `bu_timeout`, when the timer is armed. -/
def buTimeout (s : State) (stale : CardInput) : Option State :=
  if s.buTimer then
    let s := { s with buTimer := false, buState := .timeout }
    if s.buCurrent < 0 then some s
    else if s.buOpen then some s
    else continueRequest s.failAttempt stale
  else some s

/-- `bu_retry`, when the timer is armed. -/
def buRetry (s : State) (stale : CardInput) : Option State :=
  if s.buRetryArmed then doBuRequest { s with buRetryArmed := false } stale else some s

/-! ## The block layer -/

/-- A buffer is put on the queue behind the first `i` ones. -/
def enqueue (r : Request) (i : Nat) (q : List Request) : List Request := q.take i ++ r :: q.drop i

/-- How many buffers `__make_request` and the elevator leave alone: the head, unless the queue is
plugged. -/
def State.fixed (s : State) : Nat := if s.plugged then 0 else 1

/-- `__make_request` up to the call of the request function: the queue is plugged if it was empty,
and the buffer goes to a place the elevator has chosen. -/
def State.queueUp (s : State) (r : Request) (pos : Nat) : State :=
  { s with
    queue := enqueue r (s.fixed + pos) s.queue
    plugged := s.plugged || s.queue.isEmpty
    arrived := s.arrived ++ [r.id]
    overtaken := s.overtaken || decide (.block ∈ s.owners ∧ s.fixed + pos = 0) }

/-- `__make_request`: the request function of a plugged queue is not called. -/
def arrive (s : State) (r : Request) (pos : Nat) (stale : CardInput) : Option State :=
  if (s.queueUp r pos).plugged then some (s.queueUp r pos)
  else doBuRequest (s.queueUp r pos) stale

/-- `generic_unplug_device`. -/
def unplug (s : State) (stale : CardInput) : Option State :=
  if s.plugged && !s.queue.isEmpty then doBuRequest { s with plugged := false } stale
  else some { s with plugged := false }

/-- `psx_sio0_trylock`. -/
def psxSio0Trylock (s : State) (c : Client) : State :=
  if !s.buLock && !s.buProbing then
    { s with buLock := true, owners := .client c :: s.owners }
  else s

/-- `psx_sio0_unlock`, which only a client that got the lock calls. -/
def psxSio0Unlock (s : State) (c : Client) : State :=
  if .client c ∈ s.owners then { s with buLock := false, owners := s.owners.erase (.client c) }
  else s

/-! ## The sweep -/

/-- `bu_catch` of `bu_revalidate`, when the bus is free. -/
def sweepCatch (s : State) : State :=
  if s.sweep = .idle ∧ s.buLock = false then
    { s with buLock := true, owners := .sweep :: s.owners, sweep := .caught }
  else s

/-- The sweep starts to probe. -/
def sweepOpen (s : State) : State :=
  if s.sweep = .caught then
    { s with
      buCurrent := 0, buState := .none, buOpen := true, buProbing := true, sweep := .probing }
  else s

/-- `bu_ready`: wait for the card, with the timer. -/
def sweepWait (s : State) : State :=
  if s.sweep = .probing then { s with buState := .wait, buTimer := true, sweep := .waiting } else s

/-- The end of `bu_ready`, woken up or not. -/
def sweepWake (s : State) : State :=
  if s.sweep = .waiting then { s with buTimer := false, sweep := .probing } else s

/-- The sweep has found these cards and gives the bus back. -/
def sweepClose (s : State) (cards : Cards) : State :=
  if s.sweep = .probing then
    { s with
      joined := (buRevalidate s.joined cards).1
      buCurrent := -1
      buOpen := false
      buLock := false
      owners := s.owners.erase .sweep
      sweep := .closing }
  else s

/-- `bu_probing = FALSE;`. -/
def sweepEnd (s : State) : State :=
  if s.sweep = .closing then { s with buProbing := false, sweep := .idle } else s

/-! ## The system -/

inductive Event where
  | arrive (r : Request) (pos : Nat) (stale : CardInput)
  | unplug (stale : CardInput)
  | ack (input stale : CardInput)
  | timeout (stale : CardInput)
  | retry (stale : CardInput)
  | trylock (c : Client)
  | unlock (c : Client)
  | sweepCatch
  | sweepOpen
  | sweepWait
  | sweepWake
  | sweepClose (cards : Cards)
  | sweepEnd

/-- One event.  `none` is a crash: a call through an empty handler, or a current request
that does not exist. -/
def step (s : State) : Event → Option State
  | .arrive r pos stale => arrive s r pos stale
  | .unplug stale => unplug s stale
  | .ack input stale => buInterrupt s input stale
  | .timeout stale => buTimeout s stale
  | .retry stale => buRetry s stale
  | .trylock c => some (psxSio0Trylock s c)
  | .unlock c => some (psxSio0Unlock s c)
  | .sweepCatch => some (sweepCatch s)
  | .sweepOpen => some (sweepOpen s)
  | .sweepWait => some (sweepWait s)
  | .sweepWake => some (sweepWake s)
  | .sweepClose cards => some (sweepClose s cards)
  | .sweepEnd => some (sweepEnd s)

/-! ## A card without faults -/

/-- One card of 128 blocks. -/
def oneCard : Joined :=
  ⟨fun j => if j = 0 then ⟨buId, 128, 1, 0⟩ else .zero, fun j => if j = 0 then 15 else 0, 120,
    fun j => j == 0⟩

/-- What a card answers that has zeros in the block. -/
def readAnswers (block : UInt16) : List UInt8 :=
  [0, 0, 0x5a, 0x5d, 0, 0, 0x5c, 0x5d, msb block, lsb block] ++ List.replicate buBlkSize 0 ++
    [lsb block ^^^ msb block]

/-- What a card answers to a write. -/
def writeAnswers (_block : UInt16) : List UInt8 :=
  [0, 0, 0x5a, 0x5d, 0] ++ List.replicate buBlkSize 0 ++ [0, 0, 0x5c, 0x5d]

/-- What a card answers to a request for the first sector, which is four blocks. -/
def sectorAnswers (answers : UInt16 → List UInt8) : List UInt8 :=
  (List.range 4).flatMap fun i => answers (UInt16.ofNat (8 + i))

end MemoryCard
end Blackroo
