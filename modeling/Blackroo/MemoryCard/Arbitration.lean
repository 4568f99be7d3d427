import Mathlib.Data.UInt
import Blackroo.Lib.Runs
import Blackroo.MemoryCard.Service

/-!
# The driver and the other users of the bus

Between two events the driver is in one of four situations (`Place`): the bus is free, a
request is in service, a client of `psx_sio0_trylock` has the bus, or a sweep has it.
`Inv` adds the books and the promise that a waiting queue is always looked after.  Every
event keeps `Inv` and none crashes the driver (`inv_step`), so the same is true of every
run.

The two results read it off.  `requests_served_right` is about the requests: what was
ended with success was transferred, block by block.  `bus_never_shared` is about the bus
and the queue.

## What the plug adds

The block layer calls the request function of an empty queue only when it unplugs it, so there is a
third way for a request to wait, beside a transfer and the retry timer: `Inv.waiting` has it.  And
`bu_retry` does not look at the plug.  It may start a transfer from a plugged queue, whose head is
not protected, and the next buffer may then become the head (`overtakingRun`).  `InPlace` is the
condition on a single event that rules this out; `overtaken_run` carries it over a run, and
everything in `requests_served_right` but the contents holds without it.
-/

namespace Blackroo
namespace MemoryCard

open Runs

/-! ## Situations -/

/-- A client of `psx_sio0_trylock` has the bus. -/
structure Held (s : State) (c : Client) : Prop where
  off : Off s
  lock : s.buLock = true
  owners : s.owners = [.client c]

/-- A sweep between `bu_open = TRUE` and `bu_open = FALSE`. -/
structure Probing (s : State) : Prop where
  phase : s.sweep = .probing ∨ s.sweep = .waiting
  current : s.buCurrent = 0
  opened : s.buOpen = true
  steps : s.steps = []
  failures : s.failures = []
  timer : s.sweep = .probing → s.buTimer = false

/-- A sweep has the bus. -/
structure Sweeping (s : State) : Prop where
  lock : s.buLock = true
  owners : s.owners = [.sweep]
  phase : s.sweep = .caught ∧ Off s ∨ Probing s

/-- No sweep has the bus. -/
def Unswept (s : State) : Prop := s.sweep = .idle ∨ s.sweep = .closing

/-- The four situations. -/
inductive Place (s : State) : Prop
  | free (h : Free s) (hs : Unswept s)
  | serving {r : Request} {rest : List Request} (h : Serving s r rest) (hs : Unswept s)
  | held {c : Client} (h : Held s c) (hs : Unswept s)
  | sweeping (h : Sweeping s)

/-- A transfer is in flight, with its timer armed. -/
def InFlight (s : State) : Prop := .block ∈ s.owners ∧ s.buTimer = true

/-- **The invariant.** -/
structure Inv (s : State) : Prop where
  log : Log s
  place : Place s
  pending : s.queue ≠ [] → InFlight s ∨ s.buRetryArmed = true ∨ s.plugged = true

theorem inv_boot (d : Joined) : Inv (State.boot d) := by
  refine ⟨⟨?_, List.Perm.nil, ?_, rfl, rfl⟩, .free ⟨⟨rfl, rfl, rfl, rfl, rfl⟩, rfl, rfl⟩
    (.inl rfl), ?_⟩
  · exact fun e he => absurd he List.not_mem_nil
  · exact fun b hb => absurd hb List.not_mem_nil
  · exact fun h => absurd rfl h

theorem Serving.inFlight {s : State} {r : Request} {rest : List Request} (h : Serving s r rest) :
    InFlight s := by
  refine ⟨?_, h.timer⟩
  rw [h.owners]
  exact List.mem_singleton_self _

theorem Sweeping.block_not_mem {s : State} (h : Sweeping s) : Owner.block ∉ s.owners := by
  rw [h.owners]
  decide

/-- Outside a transfer the queue waits for the retry timer, or to be unplugged. -/
theorem Inv.waiting {s : State} (h : Inv s) (howners : Owner.block ∉ s.owners) :
    s.queue ≠ [] → s.buRetryArmed = true ∨ s.plugged = true := fun hq =>
  (h.pending hq).resolve_left fun hf => howners hf.1

/-! ## The request function -/

theorem Settled.inv {s s' : State} (h : Settled s s') (hs : Unswept s) : Inv s' := by
  have hs' : Unswept s' := by
    unfold Unswept
    rw [h.frame.sweep]
    exact hs
  rcases h.place with ⟨hfree, hq⟩ | ⟨r, rest, hserving⟩
  · exact ⟨h.log, .free hfree hs', fun hne => absurd hq hne⟩
  · exact ⟨h.log, .serving hserving hs', fun _ => .inl hserving.inFlight⟩

/-- The situation does not depend on the retry timer, nor on the queue, as long as there is a buffer
at its head while a request is in service. -/
theorem Place.update {s : State} (h : Place s) {q : List Request} (plugged : Bool)
    (arrived : List Nat) (armed overtaken : Bool)
    (hq : ∀ r rest, Owner.block ∈ s.owners → s.queue = r :: rest →
      ∃ r' rest', q = r' :: rest' ∧ (overtaken = false → r' = r ∧ s.overtaken = false)) :
    Place { s with
      queue := q
      plugged := plugged
      arrived := arrived
      buRetryArmed := armed
      overtaken := overtaken } := by
  cases h with
  | free h hs =>
    obtain ⟨⟨h₁, h₂, h₃, h₄, h₅⟩, h₆, h₇⟩ := h
    exact .free ⟨⟨h₁, h₂, h₃, h₄, h₅⟩, h₆, h₇⟩ hs
  | serving h hs =>
    obtain ⟨r', rest', hrest, hsame⟩ := hq _ _ h.inFlight.1 h.queue
    obtain ⟨card, block, data, hloc, hat, hdata⟩ := h.underWay
    refine .serving (r := r') ⟨⟨h.lock, h.owners, h.current, h.closed, hrest, h.mode, h.steps,
      h.short,
      h.try_le, h.rejected, h.acks, fun hnot => ?_⟩, h.timer, h.step_lt, h.tries, h.acks_lt,
      card, block, data, hloc, hat, fun hnot => ?_⟩ hs
    · obtain ⟨rfl, hbefore⟩ := hsame hnot
      obtain ⟨hstart, hlen, hmode, hserved⟩ := h.taken hbefore
      exact ⟨hstart, hlen, hmode, hserved⟩
    · obtain ⟨rfl, hbefore⟩ := hsame hnot
      exact hdata hbefore
  | held h hs =>
    obtain ⟨⟨h₁, h₂, h₃, h₄, h₅⟩, h₆, h₇⟩ := h
    exact .held ⟨⟨h₁, h₂, h₃, h₄, h₅⟩, h₆, h₇⟩ hs
  | sweeping h =>
    obtain ⟨hlock, howners, ⟨hphase, h₁, h₂, h₃, h₄, h₅⟩ | h⟩ := h
    · exact .sweeping ⟨hlock, howners, .inl ⟨hphase, h₁, h₂, h₃, h₄, h₅⟩⟩
    · exact .sweeping ⟨hlock, howners, .inr ⟨h.phase, h.current, h.opened, h.steps, h.failures,
        h.timer⟩⟩

/-- The plug and the retry timer say nothing about the situation. -/
theorem Place.timed {s : State} (h : Place s) (plugged armed : Bool) :
    Place { s with plugged := plugged, buRetryArmed := armed } :=
  h.update plugged s.arrived armed s.overtaken fun r rest _ hq =>
    ⟨r, rest, hq, fun hnot => ⟨rfl, hnot⟩⟩

theorem Log.timed {s : State} (h : Log s) (plugged armed : Bool) :
    Log { s with plugged := plugged, buRetryArmed := armed } :=
  ⟨h.ended, h.ids, h.locks, h.count, h.buffer⟩

/-- `do_bu_request` arms the retry timer if the bus is taken, and goes through the queue if
it is free. -/
theorem doBuRequest_spec {s : State} (hlog : Log s) (hplace : Place s) (stale : CardInput) :
    ∃ s', doBuRequest s stale = some s' ∧
      (s.buLock = true ∧ s' = s.armRetry ∨ s.buLock = false ∧ Unswept s ∧ Settled s s') := by
  have hbusy (hlock : s.buLock = true) : ∃ s', doBuRequest s stale = some s' ∧
      (s.buLock = true ∧ s' = s.armRetry ∨ s.buLock = false ∧ Unswept s ∧ Settled s s') :=
    ⟨_, if_pos hlock, .inl ⟨hlock, rfl⟩⟩
  cases hplace with
  | free h hs =>
    obtain ⟨s', heq, hsettled⟩ := startLoop_spec stale h hlog rfl
    refine ⟨s', ?_, .inr ⟨h.lock, hs, hsettled⟩⟩
    unfold doBuRequest
    rw [if_neg (Bool.eq_false_iff.mp h.lock)]
    exact heq
  | serving h hs => exact hbusy h.lock
  | held h hs => exact hbusy h.lock
  | sweeping h => exact hbusy h.lock

/-- Either way the queue is looked after. -/
theorem doBuRequest_inv {s : State} (hlog : Log s) (hplace : Place s) (stale : CardInput) :
    ∃ s', doBuRequest s stale = some s' ∧ Inv s' := by
  obtain ⟨s', heq, ⟨-, rfl⟩ | ⟨-, hs, hsettled⟩⟩ := doBuRequest_spec hlog hplace stale
  · exact ⟨_, heq, hlog.timed s.plugged true, hplace.timed s.plugged true,
      fun _ => .inr (.inl rfl)⟩
  · exact ⟨s', heq, hsettled.inv hs⟩

/-! ## The events -/

theorem enqueue_perm (r : Request) (i : Nat) (q : List Request) :
    (enqueue r i q).Perm (q ++ [r]) := by
  have hswap : (q.take i ++ ([r] ++ q.drop i)).Perm (q.take i ++ (q.drop i ++ [r])) :=
    List.perm_append_comm.append_left _
  rwa [← List.append_assoc _ _ [r], List.take_append_drop] at hswap

/-- Only at the front a new buffer takes the place of the head. -/
theorem enqueue_cons (r head : Request) (rest : List Request) (i : Nat) :
    enqueue r i (head :: rest) =
      if i = 0 then r :: head :: rest else head :: enqueue r (i - 1) rest := by
  cases i with
  | zero => rfl
  | succ i => rfl

/-- A new buffer changes neither the books nor the situation. -/
theorem Inv.queued {s : State} (h : Inv s) (r : Request) (pos : Nat) :
    Log (s.queueUp r pos) ∧ Place (s.queueUp r pos) := by
  obtain ⟨hlog, hplace, -⟩ := h
  have hbefore (hnot : (s.queueUp r pos).overtaken = false) :
      s.overtaken = false ∧ ¬ (Owner.block ∈ s.owners ∧ s.fixed + pos = 0) := by
    simpa [State.queueUp] using hnot
  refine ⟨⟨fun e he => ⟨(hlog.ended e he).1, fun hnot => (hlog.ended e he).2 (hbefore hnot).1⟩, ?_,
    hlog.locks, hlog.count, hlog.buffer⟩, hplace.update _ _ s.buRetryArmed _ ?_⟩
  · have henq := ((enqueue_perm r (s.fixed + pos) s.queue).map Request.id).append_left
      (s.ended.map fun e => e.request.id)
    rw [List.map_append, ← List.append_assoc] at henq
    exact henq.trans (hlog.ids.append_right _)
  · intro head rest hblock hq
    rw [hq, enqueue_cons]
    split
    · next hfront => exact ⟨r, head :: rest, rfl, fun hnot =>
        absurd ⟨hblock, hfront⟩ (hbefore hnot).2⟩
    · exact ⟨head, _, rfl, fun hnot => ⟨rfl, (hbefore hnot).1⟩⟩

theorem arrive_inv {s : State} (h : Inv s) (r : Request) (pos : Nat) (stale : CardInput) :
    ∃ s', arrive s r pos stale = some s' ∧ Inv s' := by
  obtain ⟨hlog, hplace⟩ := h.queued r pos
  unfold arrive
  split
  · next hplugged => exact ⟨_, rfl, hlog, hplace, fun _ => .inr (.inr hplugged)⟩
  · exact doBuRequest_inv hlog hplace stale

theorem unplug_inv {s : State} (h : Inv s) (stale : CardInput) :
    ∃ s', unplug s stale = some s' ∧ Inv s' := by
  have hlog := h.log.timed false s.buRetryArmed
  have hplace := h.place.timed false s.buRetryArmed
  unfold unplug
  split
  · exact doBuRequest_inv hlog hplace stale
  · next hidle =>
      refine ⟨_, rfl, hlog, hplace, fun hq => ?_⟩
      rcases h.pending hq with hflight | harmed | hplugged
      · exact .inl hflight
      · exact .inr (.inl harmed)
      · exact absurd (by simp [hplugged, List.isEmpty_eq_false_iff.mpr hq]) hidle

theorem buRetry_inv {s : State} (h : Inv s) (stale : CardInput) :
    ∃ s', buRetry s stale = some s' ∧ Inv s' := by
  unfold buRetry
  split
  · exact doBuRequest_inv (h.log.timed s.plugged false) (h.place.timed s.plugged false) stale
  · exact ⟨s, rfl, h⟩

/-- Outside a transfer the handlers only change what a sweep waits for. -/
theorem Inv.woken {s : State} (h : Inv s) (hblock : Owner.block ∉ s.owners) (st : BuState)
    {t : Bool}
    (ht : s.buTimer = false → t = false) : Inv { s with buState := st, buTimer := t } := by
  refine ⟨⟨h.log.ended, h.log.ids, h.log.locks, h.log.count, h.log.buffer⟩, ?_,
    fun hq => .inr (h.waiting hblock hq)⟩
  cases h.place with
  | free hp hs =>
    obtain ⟨⟨h₁, h₂, h₃, h₄, h₅⟩, h₆, h₇⟩ := hp
    exact .free ⟨⟨h₁, h₂, ht h₃, h₄, h₅⟩, h₆, h₇⟩ hs
  | serving hp hs => exact absurd hp.inFlight.1 hblock
  | held hp hs =>
    obtain ⟨⟨h₁, h₂, h₃, h₄, h₅⟩, h₆, h₇⟩ := hp
    exact .held ⟨⟨h₁, h₂, ht h₃, h₄, h₅⟩, h₆, h₇⟩ hs
  | sweeping hp =>
    obtain ⟨hlock, howners, ⟨hphase, h₁, h₂, h₃, h₄, h₅⟩ | hp⟩ := hp
    · exact .sweeping ⟨hlock, howners, .inl ⟨hphase, h₁, h₂, ht h₃, h₄, h₅⟩⟩
    · exact .sweeping ⟨hlock, howners, .inr ⟨hp.phase, hp.current, hp.opened, hp.steps,
        hp.failures, fun hphase => ht (hp.timer hphase)⟩⟩

/-- Outside a transfer the driver is off, or a sweep is waiting for it. -/
theorem Inv.outside {s : State} (h : Inv s) :
    (∃ r rest, Serving s r rest ∧ Unswept s) ∨
      Owner.block ∉ s.owners ∧ (Off s ∨ s.buCurrent = 0 ∧ s.buOpen = true) := by
  cases h.place with
  | free hp hs =>
    rw [hp.owners]
    exact .inr ⟨List.not_mem_nil, .inl hp.off⟩
  | serving hp hs => exact .inl ⟨_, _, hp, hs⟩
  | held hp hs =>
    rw [hp.owners]
    exact .inr ⟨by simp, .inl hp.off⟩
  | sweeping hp =>
    refine .inr ⟨hp.block_not_mem, ?_⟩
    obtain ⟨-, hoff⟩ | hprobing := hp.phase
    · exact .inl hoff
    · exact .inr ⟨hprobing.current, hprobing.opened⟩

/-- The acknowledge interrupt: a transfer comes forward, or nothing but `bu_state` changes. -/
theorem buInterrupt_spec {s : State} (h : Inv s) (input stale : CardInput) :
    ∃ s', buInterrupt s input stale = some s' ∧
      ((∃ r rest, Serving s r rest ∧ Unswept s ∧ Settled s s' ∧ Progress s s') ∨
        Owner.block ∉ s.owners ∧ ∃ st, s' = { s with buState := st }) := by
  rcases h.outside with ⟨r, rest, hserving, hs⟩ | ⟨hblock, hoff | ⟨hcur, hopen⟩⟩
  · obtain ⟨s', heq, hsettled, hprogress⟩ := hserving.interrupt h.log input stale
    exact ⟨s', heq, .inl ⟨r, rest, hserving, hs, hsettled, hprogress⟩⟩
  · exact ⟨s, if_pos (by rw [hoff.current]; exact neg_one_lt_zero), .inr ⟨hblock, s.buState, rfl⟩⟩
  · refine ⟨{ s with buState := .ready }, ?_, .inr ⟨hblock, _, rfl⟩⟩
    unfold buInterrupt
    rw [if_neg (by rw [hcur]; exact lt_irrefl 0), if_pos hopen]

theorem buInterrupt_inv {s : State} (h : Inv s) (input stale : CardInput) :
    ∃ s', buInterrupt s input stale = some s' ∧ Inv s' := by
  obtain ⟨s', heq, ⟨r, rest, -, hs, hsettled, -⟩ | ⟨hblock, st, rfl⟩⟩ :=
    buInterrupt_spec h input stale
  · exact ⟨s', heq, hsettled.inv hs⟩
  · exact ⟨_, heq, h.woken hblock st fun ht => ht⟩

/-- The timeout: the attempt is given up, or nothing but `bu_state` and the timer changes. -/
theorem buTimeout_spec {s : State} (h : Inv s) (stale : CardInput) :
    ∃ s', buTimeout s stale = some s' ∧
      ((∃ r rest, Serving s r rest ∧ Unswept s ∧ Settled s s' ∧ Progress s s') ∨
        Owner.block ∉ s.owners ∧ ∃ st t, s' = { s with buState := st, buTimer := t } ∧
          (s.buTimer = false → t = false)) := by
  rcases h.outside with ⟨r, rest, hserving, hs⟩ | ⟨hblock, hoff | ⟨hcur, hopen⟩⟩
  · obtain ⟨s', heq, hsettled, hprogress⟩ := hserving.timeout h.log stale
    exact ⟨s', heq, .inl ⟨r, rest, hserving, hs, hsettled, hprogress⟩⟩
  · exact ⟨s, if_neg (Bool.eq_false_iff.mp hoff.timer),
      .inr ⟨hblock, s.buState, s.buTimer, rfl, fun ht => ht⟩⟩
  · unfold buTimeout
    split
    · refine ⟨{ s with buState := .timeout, buTimer := false }, ?_,
        .inr ⟨hblock, _, _, rfl, fun _ => rfl⟩⟩
      dsimp only
      rw [if_neg (by rw [hcur]; exact lt_irrefl 0), if_pos hopen]
    · exact ⟨s, rfl, .inr ⟨hblock, s.buState, s.buTimer, rfl, fun ht => ht⟩⟩

theorem buTimeout_inv {s : State} (h : Inv s) (stale : CardInput) :
    ∃ s', buTimeout s stale = some s' ∧ Inv s' := by
  obtain ⟨s', heq, ⟨r, rest, -, hs, hsettled, -⟩ | ⟨hblock, st, t, rfl, ht⟩⟩ :=
    buTimeout_spec h stale
  · exact ⟨s', heq, hsettled.inv hs⟩
  · exact ⟨_, heq, h.woken hblock st ht⟩

/-- Nobody has the bus while the lock is off. -/
theorem Inv.free {s : State} (h : Inv s) (hlock : s.buLock = false) :
    Free s ∧ Unswept s ∧ Owner.block ∉ s.owners := by
  cases h.place with
  | serving hp hs => simp [hp.lock] at hlock
  | held hp hs => simp [hp.lock] at hlock
  | sweeping hp => simp [hp.lock] at hlock
  | free hp hs =>
    refine ⟨hp, hs, ?_⟩
    rw [hp.owners]
    exact List.not_mem_nil

/-- A client that finds the bus free takes it. -/
theorem psxSio0Trylock_inv {s : State} (h : Inv s) (c : Client) : Inv (psxSio0Trylock s c) := by
  unfold psxSio0Trylock
  split
  case isFalse => exact h
  case isTrue hfree =>
    have hlock : s.buLock = false := by
      rw [Bool.and_eq_true, Bool.not_eq_true'] at hfree
      exact hfree.1
    have hlog := h.log
    obtain ⟨⟨⟨h₁, h₂, h₃, h₄, h₅⟩, -, howners⟩, hs, hblock⟩ := h.free hlock
    exact ⟨⟨hlog.ended, hlog.ids, hlog.locks, hlog.count, hlog.buffer⟩,
      .held ⟨⟨h₁, h₂, h₃, h₄, h₅⟩, rfl, congrArg (List.cons (Owner.client c)) howners⟩ hs,
      fun hq => .inr (h.waiting hblock hq)⟩

/-- Only the client that has the bus gives it back. -/
theorem psxSio0Unlock_inv {s : State} (h : Inv s) (c : Client) : Inv (psxSio0Unlock s c) := by
  unfold psxSio0Unlock
  split
  case isFalse => exact h
  case isTrue hmem =>
    have hlog := h.log
    cases h.place with
    | free hp hs => simp [hp.owners] at hmem
    | serving hp hs => simp [hp.owners] at hmem
    | sweeping hp => simp [hp.owners] at hmem
    | held hp hs =>
      have hblock : Owner.block ∉ s.owners := by
        rw [hp.owners]
        simp
      obtain ⟨⟨h₁, h₂, h₃, h₄, h₅⟩, -, howners⟩ := hp
      refine ⟨⟨hlog.ended, hlog.ids, hlog.locks, hlog.count, hlog.buffer⟩,
        .free ⟨⟨h₁, h₂, h₃, h₄, h₅⟩, rfl, ?_⟩ hs, fun hq => .inr (h.waiting hblock hq)⟩
      show s.owners.erase (.client c) = []
      rw [howners, List.mem_singleton] at hmem
      rw [howners, hmem, List.erase_cons_head]

/-- A sweep that finds the bus free catches it. -/
theorem sweepCatch_inv {s : State} (h : Inv s) : Inv (sweepCatch s) := by
  unfold sweepCatch
  split
  case isFalse => exact h
  case isTrue hcond =>
    obtain ⟨-, hlock⟩ := hcond
    have hlog := h.log
    obtain ⟨⟨⟨h₁, h₂, h₃, h₄, h₅⟩, -, howners⟩, -, hblock⟩ := h.free hlock
    exact ⟨⟨hlog.ended, hlog.ids, hlog.locks, hlog.count, hlog.buffer⟩,
      .sweeping ⟨rfl, congrArg (List.cons Owner.sweep) howners, .inl ⟨rfl, h₁, h₂, h₃, h₄, h₅⟩⟩,
      fun hq => .inr (h.waiting hblock hq)⟩

/-- A sweep that is in one of the phases in which it has the bus has it. -/
theorem Inv.sweeping {s : State} (h : Inv s) (hphase : ¬ Unswept s) : Sweeping s := by
  cases h.place with
  | free hp hs => exact absurd hs hphase
  | serving hp hs => exact absurd hs hphase
  | held hp hs => exact absurd hs hphase
  | sweeping hp => exact hp

theorem sweepOpen_inv {s : State} (h : Inv s) : Inv (sweepOpen s) := by
  unfold sweepOpen
  split
  case isFalse => exact h
  case isTrue hphase =>
    have hp := h.sweeping (by simp [Unswept, hphase])
    have hlog := h.log
    obtain ⟨-, hoff⟩ | hprobing := hp.phase
    · exact ⟨⟨hlog.ended, hlog.ids, hlog.locks, hlog.count, hlog.buffer⟩,
        .sweeping ⟨hp.lock, hp.owners, .inr ⟨.inl rfl, rfl, rfl, hoff.steps, hoff.failures,
          fun _ => hoff.timer⟩⟩,
        fun hq => .inr (h.waiting hp.block_not_mem hq)⟩
    · exact absurd hprobing.phase (by simp [hphase])

/-- A sweep that is past `bu_open = TRUE` has the bus and probes. -/
theorem Inv.probing {s : State} (h : Inv s) (hphase : s.sweep = .probing ∨ s.sweep = .waiting) :
    Sweeping s ∧ Probing s := by
  have hp : Sweeping s := h.sweeping (by rcases hphase with hs | hs <;> simp [Unswept, hs])
  refine ⟨hp, hp.phase.resolve_left fun hcaught => ?_⟩
  rcases hphase with hs | hs <;> simp [hs] at hcaught

theorem sweepWait_inv {s : State} (h : Inv s) : Inv (sweepWait s) := by
  unfold sweepWait
  split
  case isFalse => exact h
  case isTrue hphase =>
    obtain ⟨hp, hprobing⟩ := h.probing (.inl hphase)
    have hlog := h.log
    exact ⟨⟨hlog.ended, hlog.ids, hlog.locks, hlog.count, hlog.buffer⟩,
      .sweeping ⟨hp.lock, hp.owners, .inr ⟨.inr rfl, hprobing.current, hprobing.opened,
        hprobing.steps, hprobing.failures, fun hf => absurd hf (by simp)⟩⟩,
      fun hq => .inr (h.waiting hp.block_not_mem hq)⟩

theorem sweepWake_inv {s : State} (h : Inv s) : Inv (sweepWake s) := by
  unfold sweepWake
  split
  case isFalse => exact h
  case isTrue hphase =>
    obtain ⟨hp, hprobing⟩ := h.probing (.inr hphase)
    have hlog := h.log
    exact ⟨⟨hlog.ended, hlog.ids, hlog.locks, hlog.count, hlog.buffer⟩,
      .sweeping ⟨hp.lock, hp.owners, .inr ⟨.inl rfl, hprobing.current, hprobing.opened,
        hprobing.steps, hprobing.failures, fun _ => rfl⟩⟩,
      fun hq => .inr (h.waiting hp.block_not_mem hq)⟩

theorem sweepClose_inv {s : State} (h : Inv s) (cards : Cards) : Inv (sweepClose s cards) := by
  unfold sweepClose
  split
  case isFalse => exact h
  case isTrue hphase =>
    obtain ⟨hp, hprobing⟩ := h.probing (.inl hphase)
    have hlog := h.log
    refine ⟨⟨hlog.ended, hlog.ids, hlog.locks, hlog.count, hlog.buffer⟩,
      .free ⟨⟨rfl, rfl, hprobing.timer hphase, hprobing.steps, hprobing.failures⟩, rfl, ?_⟩
        (.inr rfl), fun hq => .inr (h.waiting hp.block_not_mem hq)⟩
    show s.owners.erase .sweep = []
    rw [hp.owners, List.erase_cons_head]

theorem sweepEnd_inv {s : State} (h : Inv s) : Inv (sweepEnd s) := by
  unfold sweepEnd
  split
  case isFalse => exact h
  case isTrue hphase =>
    have hlog := h.log
    refine ⟨⟨hlog.ended, hlog.ids, hlog.locks, hlog.count, hlog.buffer⟩, ?_, h.pending⟩
    cases h.place with
    | free hp hs =>
      obtain ⟨⟨h₁, h₂, h₃, h₄, h₅⟩, h₆, h₇⟩ := hp
      exact .free ⟨⟨h₁, h₂, h₃, h₄, h₅⟩, h₆, h₇⟩ (.inl rfl)
    | serving hp hs =>
      refine .serving ⟨⟨hp.lock, hp.owners, hp.current, hp.closed, hp.queue, hp.mode, hp.steps,
        hp.short, hp.try_le, hp.rejected, hp.acks, fun hnot => ?_⟩, hp.timer, hp.step_lt,
        hp.tries, hp.acks_lt, hp.underWay⟩ (.inl rfl)
      obtain ⟨hstart, hlen, hmode, hserved⟩ := hp.taken hnot
      exact ⟨hstart, hlen, hmode, hserved⟩
    | held hp hs =>
      obtain ⟨⟨h₁, h₂, h₃, h₄, h₅⟩, h₆, h₇⟩ := hp
      exact .held ⟨⟨h₁, h₂, h₃, h₄, h₅⟩, h₆, h₇⟩ (.inl rfl)
    | sweeping hp =>
      obtain ⟨hc, -⟩ | hprobing := hp.phase
      · exact absurd (hphase.symm.trans hc) (by decide)
      · exact absurd hprobing.phase (by simp [hphase])

/-- **Every event keeps the invariant**, and none crashes the driver. -/
theorem inv_step (s : State) (e : Event) (h : Inv s) : ∃ s', step s e = some s' ∧ Inv s' := by
  cases e with
  | arrive r pos stale => exact arrive_inv h r pos stale
  | unplug stale => exact unplug_inv h stale
  | ack input stale => exact buInterrupt_inv h input stale
  | timeout stale => exact buTimeout_inv h stale
  | retry stale => exact buRetry_inv h stale
  | trylock c => exact ⟨_, rfl, psxSio0Trylock_inv h c⟩
  | unlock c => exact ⟨_, rfl, psxSio0Unlock_inv h c⟩
  | sweepCatch => exact ⟨_, rfl, sweepCatch_inv h⟩
  | sweepOpen => exact ⟨_, rfl, sweepOpen_inv h⟩
  | sweepWait => exact ⟨_, rfl, sweepWait_inv h⟩
  | sweepWake => exact ⟨_, rfl, sweepWake_inv h⟩
  | sweepClose cards => exact ⟨_, rfl, sweepClose_inv h cards⟩
  | sweepEnd => exact ⟨_, rfl, sweepEnd_inv h⟩

/-- **Every run keeps the invariant**, and none crashes the driver. -/
theorem inv_run (d : Joined) (events : List Event) :
    ∃ s, run step (State.boot d) events = some s ∧ Inv s :=
  run_inv inv_step (inv_boot d) events

/-! ## The requests -/

/-- The effort spent on the request in service so far, with the transfer under way. -/
theorem Inv.effort {s : State} (h : Inv s) :
    Bounded s.steps s.failures ∧ (Owner.block ∈ s.owners → s.failures.length + 1 ≤ nChecks) := by
  cases h.place with
  | free hp hs =>
    rw [hp.off.steps, hp.off.failures, hp.owners]
    exact ⟨bounded_nil, fun hf => absurd hf List.not_mem_nil⟩
  | held hp hs =>
    rw [hp.off.steps, hp.off.failures, hp.owners]
    exact ⟨bounded_nil, fun hf => absurd hf (by simp)⟩
  | serving hp hs =>
    have htry : s.failures.length + 1 ≤ nChecks := hp.tries ▸ hp.try_le
    exact ⟨⟨List.forall_mem_cons.mpr ⟨Nat.le_of_succ_le htry, hp.short⟩, hp.acks⟩, fun _ => htry⟩
  | sweeping hp =>
    refine ⟨?_, fun hf => absurd hf hp.block_not_mem⟩
    obtain ⟨-, hoff⟩ | hprobing := hp.phase
    · rw [hoff.steps, hoff.failures]
      exact bounded_nil
    · rw [hprobing.steps, hprobing.failures]
      exact bounded_nil

/-- The event puts no buffer in front of the request in service.  The block layer does that only on
a plugged queue, and a request of a plugged queue is in service only if `bu_retry` has started it.
-/
def InPlace (s : State) : Event → Prop
  | .arrive _ pos _ => s.plugged = true → .block ∈ s.owners → pos ≠ 0
  | _ => True

/-- The request function overtakes nothing. -/
theorem doBuRequest_overtaken {s s' : State} (hlog : Log s) (hplace : Place s) {stale : CardInput}
    (hs : doBuRequest s stale = some s') : s'.overtaken = s.overtaken := by
  obtain ⟨s'', heq, hcases⟩ := doBuRequest_spec hlog hplace stale
  obtain rfl := Option.some.inj (hs.symm.trans heq)
  rcases hcases with ⟨-, rfl⟩ | ⟨-, -, hsettled⟩
  · rfl
  · exact hsettled.frame.overtaken

theorem queueUp_overtaken {s : State} {r : Request} {pos : Nat} {stale : CardInput}
    (he : InPlace s (.arrive r pos stale)) (hnot : s.overtaken = false) :
    (s.queueUp r pos).overtaken = false := by
  have hfront : ¬ (Owner.block ∈ s.owners ∧ s.fixed + pos = 0) := by
    rintro ⟨hblock, hpos⟩
    unfold State.fixed at hpos
    split at hpos
    · next hplugged => exact he hplugged hblock (by omega)
    · omega
  show (s.overtaken || decide _) = false
  rw [hnot, decide_eq_false hfront]
  rfl

theorem Inv.overtaken_step {s s' : State} {e : Event} (h : Inv s) (hs : step s e = some s')
    (he : InPlace s e) (hnot : s.overtaken = false) : s'.overtaken = false := by
  cases e with
  | arrive r pos stale =>
    have hqueued := queueUp_overtaken he hnot
    change arrive s r pos stale = some s' at hs
    unfold arrive at hs
    split at hs
    · exact Option.some.inj hs ▸ hqueued
    · exact (doBuRequest_overtaken (h.queued r pos).1 (h.queued r pos).2 hs).trans hqueued
  | unplug stale =>
    change unplug s stale = some s' at hs
    unfold unplug at hs
    split at hs
    · exact (doBuRequest_overtaken (h.log.timed false _) (h.place.timed false _) hs).trans hnot
    · exact Option.some.inj hs ▸ hnot
  | retry stale =>
    change buRetry s stale = some s' at hs
    unfold buRetry at hs
    split at hs
    · exact (doBuRequest_overtaken (h.log.timed _ false) (h.place.timed _ false) hs).trans hnot
    · exact Option.some.inj hs ▸ hnot
  | ack input stale =>
    obtain ⟨s'', heq, hcases⟩ := buInterrupt_spec h input stale
    obtain rfl := Option.some.inj (hs.symm.trans heq)
    rcases hcases with ⟨r, rest, -, -, hsettled, -⟩ | ⟨-, st, rfl⟩
    · exact hsettled.frame.overtaken.trans hnot
    · exact hnot
  | timeout stale =>
    obtain ⟨s'', heq, hcases⟩ := buTimeout_spec h stale
    obtain rfl := Option.some.inj (hs.symm.trans heq)
    rcases hcases with ⟨r, rest, -, -, hsettled, -⟩ | ⟨-, st, t, rfl, -⟩
    · exact hsettled.frame.overtaken.trans hnot
    · exact hnot
  | _ =>
    -- the other users of the bus leave the queue alone
    obtain rfl := Option.some.inj hs
    simp only [psxSio0Trylock, psxSio0Unlock, sweepCatch, sweepOpen, sweepWait, sweepWake,
      sweepClose, sweepEnd]
    split <;> exact hnot

/-- No request in service is overtaken in a run that puts no buffer in front of one. -/
theorem overtaken_run {d : Joined} {events : List Event}
    (h : Along step InPlace (State.boot d) events) :
    ∃ s, run step (State.boot d) events = some s ∧ s.overtaken = false := by
  obtain ⟨s, hrun, -, hnot⟩ := run_inv_of_along (I := fun s => Inv s ∧ s.overtaken = false)
    (fun s e hs he => by
      obtain ⟨s', hs', hinv⟩ := inv_step s e hs.1
      exact ⟨s', hs', hinv, hs.1.overtaken_step hs' he hs.2⟩) ⟨inv_boot d, rfl⟩ h
  exact ⟨s, hrun, hnot⟩

/-- A request was ended with success though its first step went elsewhere. -/
def Ended.misplaced (e : Ended) : Bool :=
  e.uptodate && (e.steps.head?.bind List.getLast?).any fun a =>
    decide (e.joined.locate e.request.start ≠ some (a.card, a.block))

theorem Ended.not_right_of_misplaced {e : Ended} (h : e.misplaced = true) : ¬ e.Right := by
  intro hright
  obtain ⟨huptodate, hany⟩ := Bool.and_eq_true_iff.mp h
  obtain ⟨-, hserved⟩ := hright.served huptodate
  cases hsteps : e.steps with
  | nil => simp [hsteps] at hany
  | cons attempts steps =>
    obtain ⟨-, fails, a, rfl, -, -, hloc, -⟩ := hserved 0 attempts (by rw [hsteps]; rfl)
    rw [show e.request.start + UInt32.ofNat 0 = e.request.start from add_zero _] at hloc
    simp [hsteps, hloc] at hany

/-- The keyboard has the bus when the first read is unplugged, so the retry timer is armed.  The
second read has the request function called before it fires, and wrong bytes make both reads fail.
The third one, of sector 0, plugs the queue, `bu_retry` starts it all the same, and a read of sector
1 is put in front of it. -/
def overtakingRun : List Event :=
  let read (id : Nat) (sector : UInt32) : Event :=
    .arrive ⟨id, 0, .read, sector, 1, fun _ => 0⟩ 0 ⟨0, true, 0⟩
  let ack (byte : UInt8) : Event := .ack ⟨byte, true, 0x47⟩ ⟨0, true, 0⟩
  [read 0 0, .trylock .keyboard, .unplug ⟨0, true, 0⟩, .unlock .keyboard, read 1 0] ++
    List.replicate 60 (ack 0) ++ [read 2 0, .retry ⟨0, true, 0⟩, read 3 1] ++
    (sectorAnswers readAnswers).map ack

theorem Inv.owners_le_one {s : State} (h : Inv s) : s.owners.length ≤ 1 := by
  cases h.place with
  | free hp hs => simp [hp.owners]
  | held hp hs => simp [hp.owners]
  | serving hp hs => simp [hp.owners]
  | sweeping hp => simp [hp.owners]

/-- **The bus is never shared and no request is stranded.**  In every run at most one of
the block transfer, the sweep and the clients is between taking and releasing SIO0, and
while the queue is not empty a transfer is in flight with `bu_timer` armed, or the retry
timer is armed, or the block layer has plugged the queue and will call the request function when it
unplugs it. -/
theorem bus_never_shared (d : Joined) (events : List Event) :
    ∃ s, run step (State.boot d) events = some s ∧ s.owners.length ≤ 1 ∧
      (s.queue ≠ [] →
        .block ∈ s.owners ∧ s.buTimer = true ∨ s.buRetryArmed = true ∨ s.plugged = true) := by
  obtain ⟨s, hrun, hinv⟩ := inv_run d events
  exact ⟨s, hrun, hinv.owners_le_one, hinv.pending⟩

/-- **The first buffer of an empty queue waits for the block layer alone**: no driver code runs, no
transfer is in flight and no timer is armed. -/
theorem first_buffer_waits :
    ∃ s, run step (State.boot oneCard) [.arrive ⟨0, 0, .read, 0, 1, fun _ => 0⟩ 0 ⟨0, true, 0⟩] =
      some s ∧
      s.queue ≠ [] ∧ s.owners = [] ∧ s.buTimer = false ∧ s.buRetryArmed = false :=
  ⟨_, rfl, List.cons_ne_nil _ _, rfl, rfl, rfl⟩

end MemoryCard
end Blackroo
