import Blackroo.MemoryCard.Arbitration

/-!
# Every request is ended

The driver never waits for anything but its two timers, the acknowledges of a card and the
unplugging of its queue, so a request can only hang if one of these goes on for ever: transfers that
neither end nor time out, retries of the same step, or a retry timer that always finds the bus
taken.  `work` measures what is left of the request in service; an acknowledge or a timeout during a
transfer reduces it, and nothing else that happens to the driver increases it.

## Who can starve a request

The keyboard takes the bus a hundred times a second and never starves the retry: both are timer
functions, and on one processor timer functions do not interrupt each other, so a retry never runs
in the middle of a keyboard frame.  A sweep and a probe of the monitor can: `bu_retry` gives up and
arms itself again whenever it finds the bus taken, nothing queues it behind the one who has the bus,
and a process that reads the card file over and over can have a new sweep under way each time
(`request_starved`).  So `Fair` asks that the timer fires at some time when neither has the bus.

Nor does the elevator bound how often a request is overtaken: `elevator_linus_merge` passes a
request of the other direction without looking at its `elevator_sequence`, counts it down below
zero, and `elevator_linus`, which stops at zero, then passes it too.  That a request is overtaken
finitely often (`Behind`, from some time on) is therefore a premise.
-/

namespace Blackroo
namespace MemoryCard

open Runs

/-! ## What is left to do -/

/-- More than what can be left of any request in service. -/
def idleWork : Nat := 2 ^ 32 * (nChecks + 1) * (maxAcks + 1)

/-- What is left of the request in service: steps, tries of this step, and acknowledges of
this try. -/
def work (s : State) : Nat :=
  if .block ∈ s.owners then
    ((s.len.toNat - s.buStep) * (nChecks + 1) + (nChecks - s.buTry)) * (maxAcks + 1) +
      (maxAcks - s.acks)
  else idleWork

theorem work_lt_idleWork {s : State} (h : .block ∈ s.owners) : work s < idleWork := by
  have hlen : s.len.toNat < 4294967296 := s.len.toNat_lt
  unfold work
  rw [if_pos h]
  show ((s.len.toNat - s.buStep) * 11 + (10 - s.buTry)) * 140 + (139 - s.acks) <
    4294967296 * 11 * 140
  omega

theorem work_eq_idleWork {s : State} (h : .block ∉ s.owners) : work s = idleWork := if_neg h

theorem work_le_idleWork (s : State) : work s ≤ idleWork := by
  by_cases h : .block ∈ s.owners
  · exact (work_lt_idleWork h).le
  · exact (work_eq_idleWork h).le

theorem work_eq {s s' : State} (howners : .block ∈ s'.owners ↔ .block ∈ s.owners)
    (hlen : s'.len = s.len) (hstep : s'.buStep = s.buStep) (htry : s'.buTry = s.buTry)
    (hacks : s'.acks = s.acks) : work s' = work s := by
  unfold work
  simp only [howners, hlen, hstep, htry, hacks]

theorem Serving.block_mem {s : State} {r : Request} {rest : List Request} (h : Serving s r rest) :
    .block ∈ s.owners := h.inFlight.1

/-- The block driver has the bus only to serve a request. -/
theorem Inv.serving {s : State} (h : Inv s) (hblock : .block ∈ s.owners) :
    ∃ r rest, Serving s r rest ∧ Unswept s :=
  h.outside.resolve_right fun hout => hout.1 hblock

/-- A request function that ended nothing has left a request in service. -/
theorem Settled.serving {s s' : State} (h : Settled s s') (hq : s.queue ≠ [])
    (hended : ¬ s.ended.length < s'.ended.length) : ∃ r rest, Serving s' r rest := by
  refine h.place.resolve_left fun hfree => ?_
  obtain ⟨es, heq, hqueue⟩ := h.advance
  rw [heq, List.length_append] at hended
  obtain rfl : es = [] := List.eq_nil_of_length_eq_zero (by omega)
  rw [hfree.2] at hqueue
  exact hq (List.map_eq_nil_iff.mp hqueue)

/-- **An acknowledge or a timeout leaves less to do.** -/
theorem Serving.work_lt {s s' : State} {r : Request} {rest : List Request} (h : Serving s r rest)
    (hsettled : Settled s s') (hprogress : Progress s s') :
    s.ended.length < s'.ended.length ∨ work s' < work s := by
  by_cases hended : s.ended.length < s'.ended.length
  · exact .inl hended
  · obtain ⟨r', rest', h'⟩ := hsettled.serving (by rw [h.queue]; exact List.cons_ne_nil _ _) hended
    obtain ⟨hlen, hcases⟩ := hprogress.resolve_left hended
    have hacks : s'.acks < maxAcks := h'.acks_lt.trans_le (h'.routine ⟨0, false, 0⟩).1
    have hstep : s'.buStep < s.len.toNat := hlen ▸ h'.step_lt
    have htry := h'.try_le
    right
    unfold work
    rw [if_pos h.block_mem, if_pos h'.block_mem, hlen]
    unfold nChecks at htry ⊢
    unfold maxAcks at hacks ⊢
    rcases hcases with hlt | ⟨heq, hlt | ⟨heq', hlt⟩⟩ <;> omega

/-! ## What an event does -/

/-- The queue as the event leaves it to the driver. -/
def Event.queue (e : Event) (s : State) : List Request :=
  match e with
  | .arrive r pos _ => enqueue r (s.fixed + pos) s.queue
  | _ => s.queue

/-- What every event does to the queue and to the request in service. -/
structure Effect (s : State) (e : Event) (s' : State) : Prop where
  advance : Advance { s with queue := e.queue s } s'
  work_le : s.ended.length < s'.ended.length ∨ work s' ≤ work s

theorem effect_of_eq {s s' : State} {e : Event} (hended : s'.ended = s.ended)
    (hqueue : s'.queue = e.queue s) (hwork : work s' = work s) : Effect s e s' :=
  ⟨advance_of_eq hended (congrArg (List.map Request.id) hqueue), .inr hwork.le⟩

theorem Settled.effect {s t s' : State} {e : Event} (h : Settled t s')
    (hended : t.ended = s.ended) (hqueue : t.queue = e.queue s)
    (hwork : s.ended.length < s'.ended.length ∨ work s' ≤ work s) : Effect s e s' := by
  obtain ⟨es, heq, hq⟩ := h.advance
  rw [hended] at heq
  rw [hqueue] at hq
  exact ⟨⟨es, heq, hq⟩, hwork⟩

theorem Inv.work_of_lock {s : State} (h : Inv s) (hlock : s.buLock = false) :
    work s = idleWork := by
  refine work_eq_idleWork fun hblock => ?_
  obtain ⟨r, rest, hserving, -⟩ := h.serving hblock
  rw [hserving.lock] at hlock
  exact absurd hlock (by decide)

/-- `do_bu_request`, called by an event that changed no more than the queue and the retry
timer. -/
theorem Inv.effect_of_doBuRequest {s t s' : State} {e : Event} (h : Inv s) (hlog : Log t)
    (hplace : Place t) (hended : t.ended = s.ended) (hqueue : t.queue = e.queue s)
    (hlock : t.buLock = s.buLock) (hwork : work t.armRetry = work s) {stale : CardInput}
    (hs : doBuRequest t stale = some s') : Effect s e s' := by
  obtain ⟨s'', heq, hcases⟩ := doBuRequest_spec hlog hplace stale
  obtain rfl := Option.some.inj (hs.symm.trans heq)
  rcases hcases with ⟨-, rfl⟩ | ⟨hfree, -, hsettled⟩
  · exact effect_of_eq hended hqueue hwork
  · refine hsettled.effect hended hqueue (.inr ?_)
    rw [h.work_of_lock (hlock.symm.trans hfree)]
    exact work_le_idleWork _

theorem step_effect {s s' : State} {e : Event} (h : Inv s) (hs : step s e = some s') :
    Effect s e s' := by
  cases e with
  | arrive r pos stale =>
    obtain ⟨hlog, hplace⟩ := h.queued r pos
    change arrive s r pos stale = some s' at hs
    unfold arrive at hs
    split at hs
    · obtain rfl := Option.some.inj hs
      exact effect_of_eq rfl rfl rfl
    · exact h.effect_of_doBuRequest hlog hplace rfl rfl rfl rfl hs
  | unplug stale =>
    change unplug s stale = some s' at hs
    unfold unplug at hs
    split at hs
    · exact h.effect_of_doBuRequest (h.log.timed false _) (h.place.timed false _) rfl rfl rfl rfl hs
    · obtain rfl := Option.some.inj hs
      exact effect_of_eq rfl rfl rfl
  | retry stale =>
    change buRetry s stale = some s' at hs
    unfold buRetry at hs
    split at hs
    · exact h.effect_of_doBuRequest (h.log.timed _ false) (h.place.timed _ false) rfl rfl rfl rfl hs
    · obtain rfl := Option.some.inj hs
      exact effect_of_eq rfl rfl rfl
  | ack input stale =>
    obtain ⟨s'', heq, hcases⟩ := buInterrupt_spec h input stale
    obtain rfl := Option.some.inj (hs.symm.trans heq)
    rcases hcases with ⟨r, rest, hserving, -, hsettled, hprogress⟩ | ⟨-, st, rfl⟩
    · exact hsettled.effect rfl rfl ((hserving.work_lt hsettled hprogress).imp_right Nat.le_of_lt)
    · exact effect_of_eq rfl rfl rfl
  | timeout stale =>
    obtain ⟨s'', heq, hcases⟩ := buTimeout_spec h stale
    obtain rfl := Option.some.inj (hs.symm.trans heq)
    rcases hcases with ⟨r, rest, hserving, -, hsettled, hprogress⟩ | ⟨-, st, t, rfl, -⟩
    · exact hsettled.effect rfl rfl ((hserving.work_lt hsettled hprogress).imp_right Nat.le_of_lt)
    · exact effect_of_eq rfl rfl rfl
  | trylock c =>
    obtain rfl := Option.some.inj hs
    unfold psxSio0Trylock
    split
    · exact effect_of_eq rfl rfl (work_eq (by simp) rfl rfl rfl rfl)
    · exact effect_of_eq rfl rfl rfl
  | unlock c =>
    obtain rfl := Option.some.inj hs
    unfold psxSio0Unlock
    split
    · exact effect_of_eq rfl rfl (work_eq (List.mem_erase_of_ne (by simp)) rfl rfl rfl rfl)
    · exact effect_of_eq rfl rfl rfl
  | sweepCatch =>
    obtain rfl := Option.some.inj hs
    unfold sweepCatch
    split
    · exact effect_of_eq rfl rfl (work_eq (by simp) rfl rfl rfl rfl)
    · exact effect_of_eq rfl rfl rfl
  | sweepOpen =>
    obtain rfl := Option.some.inj hs
    unfold sweepOpen
    split <;> exact effect_of_eq rfl rfl rfl
  | sweepWait =>
    obtain rfl := Option.some.inj hs
    unfold sweepWait
    split <;> exact effect_of_eq rfl rfl rfl
  | sweepWake =>
    obtain rfl := Option.some.inj hs
    unfold sweepWake
    split <;> exact effect_of_eq rfl rfl rfl
  | sweepClose cards =>
    obtain rfl := Option.some.inj hs
    unfold sweepClose
    split
    · exact effect_of_eq rfl rfl (work_eq (List.mem_erase_of_ne (by simp)) rfl rfl rfl rfl)
    · exact effect_of_eq rfl rfl rfl
  | sweepEnd =>
    obtain rfl := Option.some.inj hs
    unfold sweepEnd
    split <;> exact effect_of_eq rfl rfl rfl

/-- **A transfer that is acknowledged or times out leaves less to do.** -/
theorem step_serving {s s' : State} {e : Event} (h : Inv s) (hs : step s e = some s')
    (hblock : .block ∈ s.owners)
    (he : (∃ input stale, e = .ack input stale) ∨ ∃ stale, e = .timeout stale) :
    s.ended.length < s'.ended.length ∨ work s' < work s := by
  obtain ⟨r, rest, hserving, -⟩ := h.serving hblock
  rcases he with ⟨input, stale, rfl⟩ | ⟨stale, rfl⟩
  · obtain ⟨s'', heq, hsettled, hprogress⟩ := hserving.interrupt h.log input stale
    obtain rfl := Option.some.inj (hs.symm.trans heq)
    exact hserving.work_lt hsettled hprogress
  · obtain ⟨s'', heq, hsettled, hprogress⟩ := hserving.timeout h.log stale
    obtain rfl := Option.some.inj (hs.symm.trans heq)
    exact hserving.work_lt hsettled hprogress

/-- Nobody has the bus if none of its users has. -/
theorem Inv.lock_free {s : State} (h : Inv s) (hblock : .block ∉ s.owners)
    (hsweep : .sweep ∉ s.owners) (hclient : ∀ c, .client c ∉ s.owners) : s.buLock = false := by
  cases h.place with
  | free hp hs => exact hp.lock
  | serving hp hs => exact absurd hp.block_mem hblock
  | held hp hs => exact absurd (by rw [hp.owners]; exact List.mem_singleton_self _) (hclient _)
  | sweeping hp => exact absurd (by rw [hp.owners]; exact List.mem_singleton_self _) hsweep

/-- **A retry that finds the bus free starts the queue**: the timer is not armed again, and
a transfer is in flight unless the whole queue was ended at once. -/
theorem step_retry {s s' : State} {stale : CardInput} (h : Inv s)
    (hs : step s (.retry stale) = some s') (harmed : s.buRetryArmed = true)
    (hlock : s.buLock = false) :
    s'.buRetryArmed = false ∧ Advance s s' ∧ (InFlight s' ∨ s'.queue = []) := by
  obtain ⟨s'', heq, hcases⟩ :=
    doBuRequest_spec (h.log.timed s.plugged false) (h.place.timed s.plugged false) stale
  have hs' : doBuRequest { s with buRetryArmed := false } stale = some s' := by
    rw [← hs]
    exact (if_pos harmed).symm
  obtain rfl := Option.some.inj (hs'.symm.trans heq)
  rcases hcases with ⟨hbusy, -⟩ | ⟨-, -, hsettled⟩
  · exact absurd (hlock.symm.trans hbusy) (by decide)
  · refine ⟨hsettled.frame.retry, hsettled.advance, ?_⟩
    rcases hsettled.place with ⟨-, hq⟩ | ⟨r, rest, hserving⟩
    · exact .inr hq
    · exact .inl hserving.inFlight

/-- **A queue that is unplugged is started**, or its retry timer is armed. -/
theorem step_unplug {s s' : State} {stale : CardInput} (h : Inv s)
    (hs : step s (.unplug stale) = some s') (hplugged : s.plugged = true) (hq : s.queue ≠ []) :
    s'.buRetryArmed = true ∨ InFlight s' ∨ s'.queue = [] := by
  obtain ⟨s'', heq, hcases⟩ :=
    doBuRequest_spec (h.log.timed false s.buRetryArmed) (h.place.timed false s.buRetryArmed) stale
  have hs' : doBuRequest { s with plugged := false } stale = some s' := by
    rw [← hs]
    exact (if_pos (by simp [hplugged, List.isEmpty_eq_false_iff.mpr hq])).symm
  obtain rfl := Option.some.inj (hs'.symm.trans heq)
  rcases hcases with ⟨-, rfl⟩ | ⟨-, -, hsettled⟩
  · exact .inl rfl
  · rcases hsettled.place with ⟨-, hempty⟩ | ⟨r, rest, hserving⟩
    · exact .inr (.inr hempty)
    · exact .inr (.inl hserving.inFlight)

/-! ## One request -/

/-- The place of a request on the queue. -/
def position (s : State) (id : Nat) : Nat := (s.queue.map Request.id).idxOf id

/-- The request waits on the queue, or is in service. -/
def Queued (s : State) (id : Nat) : Prop := id ∈ s.queue.map Request.id

/-- The event puts no new buffer ahead of the request. -/
def Behind (s : State) (id : Nat) (e : Event) : Prop :=
  ∀ r pos stale, e = .arrive r pos stale → position s id < s.fixed + pos

/-- What is left before the request is ended: those ahead of it, and the work in service. -/
def rank (id : Nat) (s : State) : Nat := position s id * (idleWork + 1) + work s

theorem Queued.queue_ne_nil {s : State} {id : Nat} (h : Queued s id) : s.queue ≠ [] := by
  rintro hq
  rw [Queued, hq] at h
  exact List.not_mem_nil h

/-- The request that was just ended. -/
def JustEnded (s s' : State) (id : Nat) : Prop :=
  ∃ e ∈ s'.ended.drop s.ended.length, e.request.id = id

/-- A buffer that is put behind a request does not change its place. -/
theorem idxOf_enqueue {r : Request} {q : List Request} {i id : Nat} (hid : id ∈ q.map Request.id)
    (hpos : (q.map Request.id).idxOf id < i) :
    ((enqueue r i q).map Request.id).idxOf id = (q.map Request.id).idxOf id := by
  have hfront : id ∈ (q.take i).map Request.id := by
    rw [List.map_take, List.mem_take_iff_idxOf_lt hid]
    exact hpos
  have hsplit : q.map Request.id = (q.take i).map Request.id ++ (q.drop i).map Request.id := by
    rw [← List.map_append, List.take_append_drop]
  rw [enqueue, List.map_append, List.idxOf_append_of_mem hfront]
  conv_rhs => rw [hsplit, List.idxOf_append_of_mem hfront]

theorem Event.mem_queue {s : State} {id : Nat} (h : Queued s id) (e : Event) :
    id ∈ (e.queue s).map Request.id := by
  cases e with
  | arrive r pos stale =>
    refine ((enqueue_perm r (s.fixed + pos) s.queue).map Request.id).mem_iff.mpr ?_
    rw [List.map_append]
    exact List.mem_append_left _ h
  | _ => exact h

theorem Behind.idxOf_queue {s : State} {id : Nat} {e : Event} (h : Behind s id e)
    (hqueued : Queued s id) : ((e.queue s).map Request.id).idxOf id = position s id := by
  cases e with
  | arrive r pos stale => exact idxOf_enqueue hqueued (h r pos stale rfl)
  | _ => rfl

/-- No event drops a request: it stays on the queue or is ended. -/
theorem queued_step {s s' : State} {e : Event} (h : Inv s) (hs : step s e = some s') {id : Nat}
    (hqueued : Queued s id) : JustEnded s s' id ∨ Queued s' id := by
  obtain ⟨es, hended, hq⟩ := (step_effect h hs).advance
  have hmem : id ∈ (e.queue s).map Request.id := Event.mem_queue hqueued e
  rw [show (e.queue s).map Request.id = _ from hq] at hmem
  rcases List.mem_append.mp hmem with hmem | hmem
  · obtain ⟨x, hx, hid⟩ := List.mem_map.mp hmem
    refine .inl ⟨x, ?_, hid⟩
    rw [hended, List.drop_left]
    exact hx
  · exact .inr hmem

/-- **No event increases the rank**, and what ends a request or reduces the work reduces
it. -/
theorem rank_step {s s' : State} {e : Event} (h : Inv s) (hs : step s e = some s') {id : Nat}
    (hqueued : Queued s id) (hbehind : Behind s id e) (hnot : ¬ JustEnded s s' id) :
    rank id s' ≤ rank id s ∧
      (s.ended.length < s'.ended.length ∨ work s' < work s → rank id s' < rank id s) := by
  obtain ⟨⟨es, hended, hq⟩, hwork⟩ := step_effect h hs
  have hout : id ∉ es.map fun x => x.request.id := by
    intro hmem
    obtain ⟨x, hx, hid⟩ := List.mem_map.mp hmem
    refine hnot ⟨x, ?_, hid⟩
    rw [hended, List.drop_left]
    exact hx
  have hpos : position s id = es.length + position s' id := by
    rw [← hbehind.idxOf_queue hqueued, show (e.queue s).map Request.id = _ from hq,
      List.idxOf_append_of_notMem hout, List.length_map]
    rfl
  rw [hended, List.length_append] at hwork ⊢
  have hle := work_le_idleWork s'
  unfold rank
  rw [hpos]
  cases es with
  | nil =>
    rw [List.length_nil, Nat.zero_add]
    have hw : work s' ≤ work s := hwork.resolve_left (by simp)
    exact ⟨by omega, fun hlt => by simp at hlt; omega⟩
  | cons x es =>
    rw [List.length_cons, Nat.add_comm _ (position s' id), ← Nat.add_assoc, Nat.succ_mul,
      Nat.add_mul]
    exact ⟨by omega, fun _ => by omega⟩

/-! ## Fair runs -/

/-- What a processor with working timers and the block layer guarantee. -/
structure Timely {d : Joined} (b : Behavior step (State.boot d)) : Prop where
  /-- `bu_timer` fires, unless an acknowledge restarts it or it is deleted -/
  timer : ∀ i, (b.state i).buTimer = true → ∃ j ≥ i, (∃ stale, b.event j = .timeout stale) ∨
    (∃ input stale, b.event j = .ack input stale) ∨ (b.state j).buTimer = false
  /-- timer functions run to completion: a retry does not interrupt a keyboard tick -/
  keyboard : ∀ i stale, b.event i = .retry stale → .client .keyboard ∉ (b.state i).owners
  /-- a plugged queue is unplugged -/
  unplug : ∀ i, (b.state i).plugged = true →
    ∃ j ≥ i, (b.state j).plugged = true ∧ ∃ stale, b.event j = .unplug stale

/-- The retry timer fires at time `i`. -/
def Fires {d : Joined} (b : Behavior step (State.boot d)) (i : Nat) : Prop :=
  (b.state i).buRetryArmed = true ∧ ∃ stale, b.event i = .retry stale

/-- No sweep and no probe of the monitor has the bus. -/
def Unprobed (s : State) : Prop := .sweep ∉ s.owners ∧ .client .monitor ∉ s.owners

/-- **Fair runs**: an armed retry timer fires at some time when no sweep and no probe of the monitor
has the bus. -/
structure Fair {d : Joined} (b : Behavior step (State.boot d)) : Prop extends Timely b where
  retry : ∀ i, (b.state i).buRetryArmed = true → ∃ j ≥ i, Fires b j ∧ Unprobed (b.state j)

section Fair

variable {d : Joined} {b : Behavior step (State.boot d)}

theorem inv_state (b : Behavior step (State.boot d)) (i : Nat) : Inv (b.state i) :=
  b.inv inv_step (inv_boot d) i

theorem ended_mono (b : Behavior step (State.boot d)) {i j : Nat} (h : i ≤ j) :
    (b.state i).ended <+: (b.state j).ended := by
  induction j, h using Nat.le_induction with
  | base => exact List.prefix_refl _
  | succ j _ ih =>
    obtain ⟨es, hended, -⟩ := (step_effect (inv_state b j) (b.next j)).advance
    exact ih.trans ⟨es, hended.symm⟩

/-- A request that was queued at time `i` is ended since, or queued still. -/
theorem ended_or_queued (b : Behavior step (State.boot d)) {i : Nat} {id : Nat}
    (h : Queued (b.state i) id) {j : Nat} (hij : i ≤ j) :
    JustEnded (b.state i) (b.state j) id ∨ Queued (b.state j) id := by
  induction j, hij using Nat.le_induction with
  | base => exact .inr h
  | succ j hij ih =>
    have hlen := (ended_mono b hij).length_le
    rcases ih with ⟨x, hx, hid⟩ | hqueued
    · obtain ⟨es, hes⟩ := ended_mono b (Nat.le_succ j)
      refine .inl ⟨x, ?_, hid⟩
      rw [← hes, List.drop_append_of_le_length hlen]
      exact List.mem_append_left _ hx
    · rcases queued_step (inv_state b j) (b.next j) hqueued with ⟨x, hx, hid⟩ | hqueued'
      · exact .inl ⟨x, List.drop_subset_drop_left _ hlen hx, hid⟩
      · exact .inr hqueued'

/-- What nothing reduces for ever: a request in service is acknowledged or times out, and
a waiting queue is started by the retry timer. -/
theorem Fair.work_lt (hfair : Fair b) {n : Nat}
    (hqueue : ∀ i ≥ n, (b.state i).queue ≠ []) :
    ∃ i ≥ n, (b.state i).ended.length < (b.state (i + 1)).ended.length ∨
      work (b.state (i + 1)) < work (b.state i) := by
  by_contra hnone
  push Not at hnone
  have hwork (i : Nat) (hi : i ≥ n) : work (b.state (i + 1)) = work (b.state i) := by
    have hle := (step_effect (inv_state b i) (b.next i)).work_le.resolve_left
      (Nat.not_lt.mpr (hnone i hi).1)
    exact Nat.le_antisymm hle (hnone i hi).2
  have hconst (i : Nat) (hi : i ≥ n) : work (b.state i) = work (b.state n) := by
    induction i, hi using Nat.le_induction with
    | base => rfl
    | succ i hi ih => exact (hwork i hi).trans ih
  by_cases hblock : .block ∈ (b.state n).owners
  · -- the transfer under way is acknowledged or times out
    have hserving (i : Nat) (hi : i ≥ n) : .block ∈ (b.state i).owners := by
      by_contra hout
      have hidle := work_eq_idleWork hout
      rw [hconst i hi] at hidle
      exact absurd hidle (work_lt_idleWork hblock).ne
    obtain ⟨r, rest, h, -⟩ := (inv_state b n).serving hblock
    have hprogress (j : Nat) (hj : j ≥ n)
        (he : (∃ input stale, b.event j = .ack input stale) ∨ ∃ stale, b.event j = .timeout stale) :
        False := by
      rcases step_serving (inv_state b j) (b.next j) (hserving j hj) he with hlt | hlt
      · exact absurd (hnone j hj).1 (Nat.not_le.mpr hlt)
      · exact absurd (hnone j hj).2 (Nat.not_le.mpr hlt)
    obtain ⟨j, hj, htimeout | hack | hoff⟩ := hfair.timer n h.timer
    · exact hprogress j hj (.inr htimeout)
    · exact hprogress j hj (.inl hack)
    · obtain ⟨r', rest', h', -⟩ := (inv_state b j).serving (hserving j hj)
      exact absurd (hoff.symm.trans h'.timer) (by decide)
  · -- the retry timer is armed, at the latest by the unplugging, and finds the bus free
    have hidle (i : Nat) (hi : i ≥ n) : .block ∉ (b.state i).owners := by
      intro hin
      have hlt := work_lt_idleWork hin
      rw [hconst i hi, work_eq_idleWork hblock] at hlt
      exact absurd hlt (lt_irrefl _)
    have hstarted {i : Nat} (hi : i ≥ n) (h : InFlight (b.state i) ∨ (b.state i).queue = []) :
        False := by
      rcases h with hflight | hempty
      · exact hidle i hi hflight.1
      · exact hqueue i hi hempty
    have harmed : ∃ i ≥ n, (b.state i).buRetryArmed = true := by
      rcases (inv_state b n).waiting hblock (hqueue n le_rfl) with h | hplugged
      · exact ⟨n, le_rfl, h⟩
      · obtain ⟨j, hj, hplugged', stale, hevent⟩ := hfair.unplug n hplugged
        have hnext := b.next j
        rw [hevent] at hnext
        rcases step_unplug (inv_state b j) hnext hplugged' (hqueue j hj) with h | h
        · exact ⟨j + 1, by omega, h⟩
        · exact absurd h (hstarted (by omega))
    obtain ⟨i, hi, hnow⟩ := harmed
    obtain ⟨j, hj, ⟨hfires, stale, hretry⟩, hsweep, hmonitor⟩ := hfair.retry i hnow
    have hlock := (inv_state b j).lock_free (hidle j (by omega)) hsweep
      (Client.rec (hfair.keyboard j stale hretry) hmonitor)
    have hnext := b.next j
    rw [hretry] at hnext
    exact hstarted (by omega) (step_retry (inv_state b j) hnext hfires hlock).2.2

/-- **A queued request is ended**, if the block layer lets only finitely many buffers
overtake it. -/
theorem Fair.eventually_ended (hfair : Fair b) {i id : Nat} (hqueued : Queued (b.state i) id)
    (hbehind : ∃ n, ∀ j ≥ n, Behind (b.state j) id (b.event j)) :
    ∃ j ≥ i, JustEnded (b.state i) (b.state j) id := by
  obtain ⟨n, hbehind⟩ := hbehind
  have hstill {j : Nat} (hj : j ≥ i) (hnot : ¬ JustEnded (b.state i) (b.state j) id) :
      Queued (b.state j) id := (ended_or_queued b hqueued hj).resolve_left hnot
  have hjust {j : Nat} (hj : j ≥ i) (hnot : ¬ JustEnded (b.state i) (b.state (j + 1)) id) :
      ¬ JustEnded (b.state j) (b.state (j + 1)) id := by
    rintro ⟨x, hx, hid⟩
    exact hnot ⟨x, List.drop_subset_drop_left _ (ended_mono b hj).length_le hx, hid⟩
  have hgoal : ∃ j ≥ max i n, JustEnded (b.state i) (b.state j) id := by
    refine eventually_of_rank (fun j => rank id (b.state j)) ?_ ?_
    · intro j hj
      by_cases hnow : JustEnded (b.state i) (b.state j) id
      · exact .inl hnow
      by_cases hnext : JustEnded (b.state i) (b.state (j + 1)) id
      · exact .inr (.inl hnext)
      · exact .inr (.inr (rank_step (inv_state b j) (b.next j) (hstill (by omega) hnow)
          (hbehind j (by omega)) (hjust (by omega) hnext)).1)
    · intro j₀ hj₀ hstall
      obtain ⟨j, hj, hlt⟩ := hfair.work_lt (n := j₀)
        fun j hj => (hstill (by omega) (hstall j hj).1).queue_ne_nil
      have hless := (rank_step (inv_state b j) (b.next j) (hstill (by omega) (hstall j hj).1)
        (hbehind j (by omega)) (hjust (by omega) (hstall (j + 1) (by omega)).1)).2 hlt
      have h₁ := (hstall j hj).2
      have h₂ := (hstall (j + 1) (by omega)).2
      omega
  obtain ⟨j, hj, hended⟩ := hgoal
  exact ⟨j, by omega, hended⟩

/-- **No card and no keyboard can hang a request.**  In every fair run every queued request that is
overtaken by finitely many buffers is ended, after at most `N_CHECKS` attempts at each block and
`maxAcks` acknowledges for each attempt.  A retry that fires while neither a transfer nor a sweep
nor the monitor has the bus is not deferred again: it starts the queue at once. -/
theorem no_request_hangs (b : Behavior step (State.boot d)) (hfair : Fair b) :
    (∀ i id, Queued (b.state i) id → (∃ n, ∀ j ≥ n, Behind (b.state j) id (b.event j)) →
      ∃ j ≥ i, ∃ e ∈ (b.state j).ended.drop (b.state i).ended.length,
        e.request.id = id ∧ Bounded e.steps e.failures) ∧
    (∀ i, Fires b i → .block ∉ (b.state i).owners → Unprobed (b.state i) →
      (b.state (i + 1)).buRetryArmed = false ∧ Advance (b.state i) (b.state (i + 1)) ∧
        (InFlight (b.state (i + 1)) ∨ (b.state (i + 1)).queue = [])) := by
  refine ⟨?_, ?_⟩
  · intro i id hqueued hbehind
    obtain ⟨j, hj, e, he, hid⟩ := hfair.eventually_ended hqueued hbehind
    exact ⟨j, hj, e, he, hid, ((inv_state b j).log.ended e (List.mem_of_mem_drop he)).1⟩
  · rintro i ⟨harmed, stale, hretry⟩ hblock ⟨hsweep, hmonitor⟩
    have hnext := b.next i
    rw [hretry] at hnext
    exact step_retry (inv_state b i) hnext harmed ((inv_state b i).lock_free hblock hsweep
      (Client.rec (hfair.keyboard i stale hretry) hmonitor))

end Fair

/-! ## A card that never answers -/

/-- A read of one sector arrives, and the card never acknowledges a byte. -/
def silentEvents : Nat → Event
  | 0 => .arrive ⟨7, 0, .read, 0, 1, fun _ => 0⟩ 0 ⟨0, false, 0⟩
  | 1 => .unplug ⟨0, false, 0⟩
  | _ + 2 => .timeout ⟨0, false, 0⟩

def silentRun : Behavior step (State.boot oneCard) :=
  .ofEvents inv_step (inv_boot oneCard) silentEvents

/-- The driver is alone on the bus, and no queue waits for a timer or a plug. -/
structure Alone (s : State) : Prop where
  armed : s.buRetryArmed = false
  plugged : s.plugged = false
  place : Free s ∨ ∃ r rest, Serving s r rest

/-- Timeouts alone neither arm the retry timer nor bring in other users of the bus. -/
theorem Alone.timeout {s s' : State} {stale : CardInput} (h : Alone s) (hinv : Inv s)
    (hs : step s (.timeout stale) = some s') : Alone s' := by
  obtain ⟨harmed, hplugged, hfree | ⟨r, rest, hserving⟩⟩ := h
  · have hsame : s = s' := by
      refine Option.some.inj (Eq.trans ?_ hs)
      exact (if_neg (Bool.eq_false_iff.mp hfree.off.timer)).symm
    exact hsame ▸ ⟨harmed, hplugged, .inl hfree⟩
  · obtain ⟨s'', heq, hsettled, -⟩ := hserving.timeout hinv.log stale
    obtain rfl := Option.some.inj (hs.symm.trans heq)
    exact ⟨hsettled.frame.retry.trans harmed, hsettled.frame.plugged.trans hplugged,
      hsettled.place.imp_left And.left⟩

theorem silentRun_alone (i : Nat) : Alone (silentRun.state (i + 2)) := by
  induction i with
  | zero =>
    have hinv := inv_state silentRun 1
    obtain ⟨s', heq, hcases⟩ := doBuRequest_spec (hinv.log.timed false false)
      (hinv.place.timed false false) ⟨0, false, 0⟩
    obtain rfl := Option.some.inj (heq.symm.trans (silentRun.next 1))
    rcases hcases with ⟨hlock, -⟩ | ⟨-, -, hsettled⟩
    · exact absurd hlock (by decide)
    · exact ⟨hsettled.frame.retry, hsettled.frame.plugged, hsettled.place.imp_left And.left⟩
  | succ i ih => exact ih.timeout (inv_state silentRun (i + 2)) (silentRun.next (i + 2))

theorem fair_silentRun : Fair silentRun := by
  refine ⟨⟨fun i _ => ⟨i + 2, Nat.le_add_right i 2, .inl ⟨_, rfl⟩⟩, ?_, ?_⟩, ?_⟩
  · rintro (_ | _ | i) stale hretry <;> cases hretry
  · rintro (_ | _ | i) hplugged
    · exact absurd hplugged (by decide)
    · exact ⟨1, le_rfl, hplugged, _, rfl⟩
    · exact absurd ((silentRun_alone i).plugged.symm.trans hplugged) (by decide)
  · rintro (_ | _ | i) harmed
    · exact absurd harmed (by decide)
    · exact absurd harmed (by decide)
    · exact absurd ((silentRun_alone i).armed.symm.trans harmed) (by decide)

theorem silent_card_does_not_hang :
    ∃ j ≥ 1, ∃ e ∈ (silentRun.state j).ended.drop (silentRun.state 1).ended.length,
      e.request.id = 7 ∧ Bounded e.steps e.failures := by
  refine (no_request_hangs silentRun fair_silentRun).1 1 7 ?_ ⟨1, ?_⟩
  · show 7 ∈ (silentRun.state 1).queue.map Request.id
    decide
  · rintro (_ | _ | j) hj r pos stale harrive
    · omega
    · cases harrive
    · cases harrive

/-! ## A sweep at every retry -/

/-- The round of a schedule in which each sweep is over soon, and each retry meets the next one. -/
inductive Round where
  | retry
  | opening
  | closing
  | ending
  | catching
  deriving DecidableEq, Repr

def Round.next : Round → Round
  | .retry => .opening
  | .opening => .closing
  | .closing => .ending
  | .ending => .catching
  | .catching => .retry

def Round.event : Round → Event
  | .retry => .retry ⟨0, false, 0⟩
  | .opening => .sweepOpen
  | .closing => .sweepClose fun _ => none
  | .ending => .sweepEnd
  | .catching => .sweepCatch

/-- The state in which the event of the round comes. -/
def starved (d : Joined) (round : Round) : State :=
  let s : State := { State.boot d with
    queue := [⟨7, 0, .read, 0, 1, fun _ => 0⟩]
    arrived := [7]
    buRetryArmed := true }
  match round with
  | .retry | .opening => { s with buLock := true, owners := [.sweep], sweep := .caught }
  | .closing =>
    { s with
      buLock := true
      owners := [.sweep]
      sweep := .probing
      buCurrent := 0
      buOpen := true
      buProbing := true }
  | .ending => { s with sweep := .closing, buProbing := true }
  | .catching => s

theorem starved_waits (d : Joined) (round : Round) :
    (starved d round).buTimer = false ∧ (starved d round).plugged = false ∧
      .client .keyboard ∉ (starved d round).owners ∧ (starved d round).ended = [] := by
  cases round <;> simp [starved, State.boot]

/-- The cards after the event of the round. -/
def Round.joined (round : Round) (d : Joined) : Joined :=
  if round = .closing then (buRevalidate d fun _ => none).1 else d

theorem step_starved (d : Joined) (round : Round) :
    step (starved d round) round.event = some (starved (round.joined d) round.next) := by
  cases round <;> rfl

def roundAt : Nat → Round
  | 0 => .retry
  | i + 1 => (roundAt i).next

def joinedAt : Nat → Joined
  | 0 => oneCard
  | i + 1 => (roundAt i).joined (joinedAt i)

/-- A sweep has the bus when the queue is unplugged, and a new one at each retry. -/
def starvedRun : Behavior step (State.boot oneCard) where
  state
    | 0 => State.boot oneCard
    | 1 => sweepCatch (State.boot oneCard)
    | 2 => { sweepCatch (State.boot oneCard) with
        queue := [⟨7, 0, .read, 0, 1, fun _ => 0⟩]
        plugged := true
        arrived := [7] }
    | i + 3 => starved (joinedAt i) (roundAt i)
  event
    | 0 => .sweepCatch
    | 1 => .arrive ⟨7, 0, .read, 0, 1, fun _ => 0⟩ 0 ⟨0, false, 0⟩
    | 2 => .unplug ⟨0, false, 0⟩
    | i + 3 => (roundAt i).event
  start := rfl
  next
    | 0 => rfl
    | 1 => rfl
    | 2 => rfl
    | i + 3 => step_starved (joinedAt i) (roundAt i)

theorem roundAt_five_mul (k : Nat) : roundAt (5 * k) = .retry := by
  induction k with
  | zero => rfl
  | succ k ih =>
    show (roundAt (5 * k)).next.next.next.next.next = .retry
    rw [ih]
    rfl

/-- **A request starves though all timers fire and every sweep ends**: the retry timer fires again
and again, and there is always a later time when nobody has the bus, but not when it fires. -/
theorem request_starved :
    Timely starvedRun ∧ (∀ i, ∃ j ≥ i, (starvedRun.state j).owners = []) ∧
      (∀ i, (starvedRun.state i).buRetryArmed = true → ∃ j ≥ i, Fires starvedRun j) ∧
      Queued (starvedRun.state 2) 7 ∧
        (∀ i ≥ 2, Behind (starvedRun.state i) 7 (starvedRun.event i)) ∧
      ∀ i, (starvedRun.state i).ended = [] := by
  refine ⟨⟨?_, ?_, ?_⟩, fun i => ⟨5 * i + 3 + 3, by omega, ?_⟩,
    fun i _ => ⟨5 * i + 3, by omega, ?_, ?_⟩, List.mem_singleton_self _, ?_, ?_⟩
  · rintro (_ | _ | _ | i) htimer
    · exact absurd htimer (by decide)
    · exact absurd htimer (by decide)
    · exact absurd htimer (by decide)
    · exact absurd ((starved_waits (joinedAt i) (roundAt i)).1.symm.trans htimer) (by decide)
  · rintro (_ | _ | _ | i) stale hretry
    · cases hretry
    · cases hretry
    · cases hretry
    · exact (starved_waits (joinedAt i) (roundAt i)).2.2.1
  · rintro (_ | _ | _ | i) hplugged
    · exact absurd hplugged (by decide)
    · exact absurd hplugged (by decide)
    · exact ⟨2, le_rfl, hplugged, _, rfl⟩
    · exact absurd ((starved_waits (joinedAt i) (roundAt i)).2.1.symm.trans hplugged) (by decide)
  · show (starved _ (roundAt (5 * i)).next.next.next).owners = []
    rw [roundAt_five_mul]
    rfl
  · show (starved _ (roundAt (5 * i))).buRetryArmed = true
    rw [roundAt_five_mul]
    rfl
  · refine ⟨⟨0, false, 0⟩, ?_⟩
    show (roundAt (5 * i)).event = _
    rw [roundAt_five_mul]
    rfl
  · rintro (_ | _ | _ | i) hi r pos stale harrive
    · omega
    · omega
    · cases harrive
    · change (roundAt i).event = _ at harrive
      cases hround : roundAt i <;> rw [hround] at harrive <;> cases harrive
  · rintro (_ | _ | _ | i)
    · rfl
    · rfl
    · rfl
    · exact (starved_waits (joinedAt i) (roundAt i)).2.2.2

end MemoryCard
end Blackroo
