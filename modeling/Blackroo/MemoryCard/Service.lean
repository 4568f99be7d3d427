import Blackroo.MemoryCard.Request

/-!
# What holds of the card driver in every state

Between two events the driver is in one of four situations: the bus is free, a request
is in service with a transfer under way, a client of `psx_sio0_trylock` has the bus, or
a sweep has it.  `Inv` says so, and says for each what the statics look like and how
they relate to the history of the request in service.

The request function is where situations change, so it gets the work: `serve_spec` for
its second half, `startLoop_spec` for the loop over the queue.  Each handler then
preserves `Inv` and never crashes (`inv_step`), and so does every run.

## The request in service and the head of the queue

The driver has no variable for the request it works on: every handler looks at the head of the
queue. On a plugged queue a buffer may be put in front while a transfer is under way, and from then
on the statics are those of one request and the buffer is that of another.  So `InService` has both,
and the books (`Log`) record that it has happened.  What is said of the bus, of the timers and of
the number of attempts holds in either case; that a request ended with success was served right is
said as long as it has not.
-/

namespace Blackroo
namespace MemoryCard

open Dialogue

/-! ## Slices of a buffer -/

@[simp] theorem length_slice (r : Request) (i : Nat) : (r.slice i).length = 128 := by
  rw [Request.slice, List.length_map, List.length_range]
  rfl

/-- The block that was stored is the block that is there. -/
theorem slice_store_self (r : Request) (i : Nat) {data : List UInt8} (h : data.length = 128) :
    (r.store i data).slice i = data := by
  apply List.ext_getElem
  · rw [length_slice, h]
  · intro k h₁ h₂
    have hk : k < buBlkSize := by
      rw [h] at h₂
      exact h₂
    simp only [Request.slice, Request.store, List.getElem_map, List.getElem_range]
    rw [if_pos ⟨Nat.le_add_right _ _, by omega⟩, Nat.add_sub_cancel_left,
      List.getD_eq_getElem?_getD, List.getElem?_eq_getElem h₂]
    rfl

/-- Other blocks stay. -/
theorem slice_store_of_ne (r : Request) {i j : Nat} (data : List UInt8) (h : j ≠ i) :
    (r.store i data).slice j = r.slice j := by
  apply List.map_congr_left
  intro k hk
  have hlt : k < buBlkSize := List.mem_range.mp hk
  simp only [Request.store]
  have hk128 : k < 128 := hlt
  refine if_neg ?_
  show ¬ (128 * i ≤ 128 * j + k ∧ 128 * j + k < 128 * i + 128)
  omega

/-! ## Requests served right -/

/-- The accepted transfer of a step: the protocol ran to its end for this card and block,
and the data are those of the buffer. -/
def Transferred (r : Request) (i : Nat) (a : Attempt) : Prop :=
  match r.cmd with
  | .read => ReadDone a.card a.block (r.slice i) a.wire
  | .write => WriteDone a.card a.block (r.slice i) a.wire
  | .other => False

/-- **A step that was served**: at most `N_CHECKS` attempts, of which exactly the last one
was accepted; it went to the card and block of the step's logical block. -/
structure StepServed (d : Joined) (r : Request) (i : Nat) (attempts : List Attempt) : Prop where
  bound : attempts.length ≤ nChecks
  last : ∃ fails a, attempts = fails ++ [a] ∧ (∀ f ∈ fails, f.accepted = false) ∧
    a.accepted = true ∧ d.locate (r.start + UInt32.ofNat i) = some (a.card, a.block) ∧
    Transferred r i a

/-- The steps of a request that have been served, in order. -/
def StepsServed (d : Joined) (r : Request) (steps : List (List Attempt)) : Prop :=
  ∀ i attempts, steps[i]? = some attempts → StepServed d r i attempts

/-- The acknowledges a transfer can take: one for each byte but the first and the last
two of a complete read. -/
def maxAcks : Nat := 139

/-- The effort spent on a request: at most `N_CHECKS` attempts for a step, and at most
`maxAcks` acknowledges for an attempt. -/
structure Bounded (steps : List (List Attempt)) (failures : List Attempt) : Prop where
  attempts : ∀ attempts ∈ failures :: steps, attempts.length ≤ nChecks
  acks : ∀ attempts ∈ failures :: steps, ∀ a ∈ attempts, a.acks ≤ maxAcks

/-- **A request that was ended right**: success means that every step was served, and the
effort was bounded in any case. -/
structure Ended.Right (e : Ended) : Prop where
  served : e.uptodate = true →
    e.steps.length = e.request.len.toNat ∧ StepsServed e.joined e.request e.steps
  bounded : Bounded e.steps e.failures

theorem stepsServed_nil (d : Joined) (r : Request) : StepsServed d r [] := by
  intro i attempts h
  exact absurd h (by simp)

theorem bounded_nil : Bounded [] [] := by
  refine ⟨?_, ?_⟩
  · intro attempts hmem
    obtain rfl := List.mem_singleton.mp hmem
    exact Nat.zero_le _
  · intro attempts hmem a ha
    obtain rfl := List.mem_singleton.mp hmem
    exact absurd ha List.not_mem_nil

theorem StepsServed.snoc {d : Joined} {r : Request} {steps : List (List Attempt)}
    {attempts : List Attempt} (h : StepsServed d r steps)
    (hnew : StepServed d r steps.length attempts) : StepsServed d r (steps ++ [attempts]) := by
  intro i l hl
  rcases Nat.lt_or_ge i steps.length with hi | hi
  · rw [List.getElem?_append_left hi] at hl
    exact h i l hl
  · rw [List.getElem?_append_right hi] at hl
    obtain ⟨hi0, rfl⟩ : i - steps.length = 0 ∧ attempts = l := by
      cases hk : i - steps.length with
      | zero => exact ⟨rfl, by simpa [hk] using hl⟩
      | succ k => simp [hk] at hl
    obtain rfl : i = steps.length := by omega
    exact hnew

/-- Storing the next block keeps what was served. -/
theorem StepServed.store {d : Joined} {r : Request} {i j : Nat} {attempts : List Attempt}
    (h : StepServed d r i attempts) (hij : i ≠ j) (data : List UInt8) :
    StepServed d (r.store j data) i attempts := by
  obtain ⟨hbound, fails, a, heq, hfails, hacc, hloc, htrans⟩ := h
  refine ⟨hbound, fails, a, heq, hfails, hacc, hloc, ?_⟩
  unfold Transferred at htrans ⊢
  show match r.cmd with
    | .read => _
    | .write => _
    | .other => _
  rw [slice_store_of_ne r data hij]
  exact htrans

/-! ## The situations of the driver -/

/-- The bookkeeping that holds in every state.  What was ended with success was served as long as
no buffer was put in front of a request in service. -/
structure Log (s : State) : Prop where
  ended : ∀ e ∈ s.ended, Bounded e.steps e.failures ∧ (s.overtaken = false → e.Right)
  ids : (s.ended.map (fun e => e.request.id) ++ s.queue.map Request.id).Perm s.arrived
  locks : ∀ b ∈ s.lockLog, b = false
  count : s.lockLog.length = s.ended.length
  buffer : s.buCurr.request.buffer.length = 128

/-- The card driver does not use the bus. -/
structure Off (s : State) : Prop where
  current : s.buCurrent = -1
  closed : s.buOpen = false
  timer : s.buTimer = false
  steps : s.steps = []
  failures : s.failures = []

/-- Nobody has the bus. -/
structure Free (s : State) : Prop where
  off : Off s
  lock : s.buLock = false
  owners : s.owners = []

/-- Request `r` is the one the statics were set for, and its steps so far have been served. -/
structure Taken (s : State) (r : Request) : Prop where
  start : s.start = r.start
  len : s.len = r.len
  mode : r.mode = some s.buCurr.request.mode
  served : StepsServed s.joined r s.steps

/-- A request is in service while `r` is at the head of the queue.  It is `r` itself, unless a
buffer was put in front of it. -/
structure InService (s : State) (r : Request) (rest : List Request) : Prop where
  lock : s.buLock = true
  owners : s.owners = [.block]
  current : 0 ≤ s.buCurrent
  closed : s.buOpen = false
  queue : s.queue = r :: rest
  mode : s.buCurr.request.mode = modeRead ∨ s.buCurr.request.mode = modeWrite
  steps : s.steps.length = s.buStep
  short : ∀ attempts ∈ s.steps, attempts.length ≤ nChecks
  try_le : s.buTry ≤ nChecks
  rejected : ∀ a ∈ s.failures, a.accepted = false
  acks : ∀ attempts ∈ s.failures :: s.steps, ∀ a ∈ attempts, a.acks ≤ maxAcks
  taken : s.overtaken = false → Taken s r

/-- Request `r` is in service, and step `bu_step` is due. -/
structure Due (s : State) (r : Request) (rest : List Request) : Prop extends
    InService s r rest where
  timer : s.buTimer = false
  step_le : s.buStep ≤ s.len.toNat
  tries : s.failures.length = s.buTry

/-- The transfer of the current step is under way and follows its protocol.  A write sends the
bytes of the buffer at the head, unless that came in between. -/
def UnderWay (s : State) (r : Request) : Prop :=
  ∃ card block data, s.joined.locate (s.start + UInt32.ofNat s.buStep) = some (card, block) ∧
    (ReadAt card block s.buCurr s.wire ∨ WriteAt card block data s.buCurr s.wire) ∧
    (s.overtaken = false → r.cmd = .write → data = r.slice s.buStep)

/-- Request `r` is in service, and a transfer is under way. -/
structure Serving (s : State) (r : Request) (rest : List Request) : Prop extends
    InService s r rest where
  timer : s.buTimer = true
  step_lt : s.buStep < s.len.toNat
  tries : s.failures.length + 1 = s.buTry
  acks_lt : s.acks < s.wire.length
  underWay : UnderWay s r

/-- What the request function leaves alone. -/
structure Frame (s s' : State) : Prop where
  joined : s'.joined = s.joined
  arrived : s'.arrived = s.arrived
  sweep : s'.sweep = s.sweep
  probing : s'.buProbing = s.buProbing
  retry : s'.buRetryArmed = s.buRetryArmed
  plugged : s'.plugged = s.plugged
  overtaken : s'.overtaken = s.overtaken

theorem Frame.refl (s : State) : Frame s s := ⟨rfl, rfl, rfl, rfl, rfl, rfl, rfl⟩

theorem Frame.trans {s t u : State} (h : Frame s t) (h' : Frame t u) : Frame s u :=
  ⟨h'.joined.trans h.joined, h'.arrived.trans h.arrived, h'.sweep.trans h.sweep,
    h'.probing.trans h.probing, h'.retry.trans h.retry, h'.plugged.trans h.plugged,
    h'.overtaken.trans h.overtaken⟩

/-- The requests at the front of the queue are ended, the others stay in their order. -/
def Advance (s s' : State) : Prop :=
  ∃ es, s'.ended = s.ended ++ es ∧
    s.queue.map Request.id = es.map (fun e => e.request.id) ++ s'.queue.map Request.id

theorem advance_of_eq {s s' : State} (hended : s'.ended = s.ended)
    (hqueue : s'.queue.map Request.id = s.queue.map Request.id) : Advance s s' :=
  ⟨[], by rw [hended, List.append_nil], hqueue.symm⟩

theorem Advance.trans {s t u : State} (h : Advance s t) (h' : Advance t u) : Advance s u := by
  obtain ⟨es, hended, hqueue⟩ := h
  obtain ⟨es', hended', hqueue'⟩ := h'
  refine ⟨es ++ es', ?_, ?_⟩
  · rw [hended', hended, List.append_assoc]
  · rw [hqueue, hqueue', List.map_append, List.append_assoc]

/-! ## Ending a request -/

theorem endRequest_cons {s : State} {r : Request} {rest : List Request} (h : s.queue = r :: rest)
    (uptodate : Bool) :
    s.endRequest uptodate =
      { s with
        queue := rest
        ended := s.ended ++ [⟨r, s.joined, uptodate, s.steps, s.failures⟩]
        steps := []
        failures := [] } := by
  unfold State.endRequest
  rw [h]

/-- Ending a request keeps the books, if the lock is free afterwards. -/
theorem Log.endRequest {s : State} {r : Request} {rest : List Request} (h : Log s)
    (hq : s.queue = r :: rest) {uptodate : Bool} (hbounded : Bounded s.steps s.failures)
    (hright : s.overtaken = false → Ended.Right ⟨r, s.joined, uptodate, s.steps, s.failures⟩)
    {s' : State} (hended : s'.ended = s.ended ++ [⟨r, s.joined, uptodate, s.steps, s.failures⟩])
    (hqueue : s'.queue = rest) (harrived : s'.arrived = s.arrived)
    (hovertaken : s'.overtaken = s.overtaken)
    (hlog : s'.lockLog = s.lockLog ++ [false]) (hcurr : s'.buCurr = s.buCurr) : Log s' := by
  refine ⟨?_, ?_, ?_, ?_, hcurr ▸ h.buffer⟩
  · rw [hended, hovertaken, List.forall_mem_append]
    refine ⟨h.ended, ?_⟩
    intro e he
    obtain rfl := List.mem_singleton.mp he
    exact ⟨hbounded, hright⟩
  · have hids := h.ids
    rw [hq] at hids
    rw [hended, hqueue, harrived, List.map_append, List.append_assoc]
    exact hids
  · rw [hlog, List.forall_mem_append]
    exact ⟨h.locks, fun b hb => List.mem_singleton.mp hb⟩
  · rw [hlog, hended, List.length_append, List.length_append, h.count]
    rfl

/-- What the end of request `r` leads to. -/
structure EndedOne (s : State) (r : Request) (rest : List Request) (s' : State) : Prop where
  free : Free s'
  log : Log s'
  queue : s'.queue = rest
  frame : Frame s s'
  ended : ∃ e, s'.ended = s.ended ++ [e] ∧ e.request = r

theorem EndedOne.advance {s s' : State} {r : Request} {rest : List Request}
    (h : EndedOne s r rest s') (hq : s.queue = r :: rest) : Advance s s' := by
  obtain ⟨e, hended, rfl⟩ := h.ended
  refine ⟨[e], hended, ?_⟩
  rw [hq, h.queue]
  rfl

theorem EndedOne.of_eq {s t s' : State} {r : Request} {rest : List Request}
    (h : EndedOne t r rest s') (hf : Frame s t) (hended : t.ended = s.ended) :
    EndedOne s r rest s' :=
  ⟨h.free, h.log, h.queue, hf.trans h.frame, hended ▸ h.ended⟩

theorem finish_spec {s : State} {r : Request} {rest : List Request} (hlog : Log s)
    (hq : s.queue = r :: rest) (howners : s.owners = [.block]) (hclosed : s.buOpen = false)
    (htimer : s.buTimer = false) {uptodate : Bool} (hbounded : Bounded s.steps s.failures)
    (hright : s.overtaken = false → Ended.Right ⟨r, s.joined, uptodate, s.steps, s.failures⟩) :
    EndedOne s r rest (s.finish uptodate) := by
  have heq : s.finish uptodate =
      { s with
        queue := rest
        ended := s.ended ++ [⟨r, s.joined, uptodate, s.steps, s.failures⟩]
        steps := []
        failures := []
        buCurrent := -1
        buLock := false
        owners := s.owners.erase .block
        lockLog := s.lockLog ++ [false] } := by
    unfold State.finish
    rw [endRequest_cons hq]
    rfl
  rw [heq]
  refine ⟨⟨⟨rfl, hclosed, htimer, rfl, rfl⟩, rfl, ?_⟩, ?_, rfl,
    ⟨rfl, rfl, rfl, rfl, rfl, rfl, rfl⟩, _, rfl, rfl⟩
  · show s.owners.erase .block = []
    rw [howners]
    rfl
  · exact hlog.endRequest hq hbounded hright rfl rfl rfl rfl rfl rfl

theorem refuse_spec {s : State} {r : Request} {rest : List Request} (hlog : Log s) (hfree : Free s)
    (hq : s.queue = r :: rest) :
    EndedOne s r rest s.refuse := by
  obtain ⟨⟨hcur, hclosed, htimer, hsteps, hfails⟩, hlock, howners⟩ := hfree
  have heq : s.refuse =
      { s with
        queue := rest
        ended := s.ended ++ [⟨r, s.joined, false, s.steps, s.failures⟩]
        steps := []
        failures := []
        lockLog := s.lockLog ++ [false] } := by
    unfold State.refuse
    rw [endRequest_cons hq]
    show { s with
      queue := _, ended := _, steps := _, failures := _, lockLog := _ ++ [s.buLock] } = _
    rw [hlock]
  rw [heq]
  have hbounded : Bounded s.steps s.failures := by
    rw [hsteps, hfails]
    exact bounded_nil
  exact ⟨⟨⟨hcur, hclosed, htimer, rfl, rfl⟩, hlock, howners⟩, hlog.endRequest hq hbounded
    (fun _ => ⟨fun h => absurd h Bool.false_ne_true, hbounded⟩) rfl rfl rfl rfl rfl rfl, rfl,
    ⟨rfl, rfl, rfl, rfl, rfl, rfl, rfl⟩, _, rfl, rfl⟩

/-! ## The request function -/

/-- The request function is through: the queue is empty and the bus free, or a request
is in service. -/
structure Settled (s s' : State) : Prop where
  log : Log s'
  frame : Frame s s'
  advance : Advance s s'
  place : Free s' ∧ s'.queue = [] ∨ ∃ r rest, Serving s' r rest

theorem Settled.after {s t s' : State} (h : Settled t s') (hf : Frame s t) (ha : Advance s t) :
    Settled s s' :=
  ⟨h.log, hf.trans h.frame, ha.trans h.advance, h.place⟩

/-- The request in service goes on with another attempt at the same step. -/
structure Again (s s' : State) : Prop where
  len : s'.len = s.len
  step : s'.buStep = s.buStep
  tries : s'.buTry = s.buTry + 1

/-- What a pass through the second half of `do_bu_request` leads to. -/
def Passed (s : State) (r : Request) (rest : List Request) : Next → Prop
  | .running s' => Serving s' r rest ∧ Log s' ∧ Frame s s' ∧ s'.ended = s.ended ∧ Again s s'
  | .again s' => EndedOne s r rest s'

/-- The bytes a transfer has in its buffer when it is started. -/
theorem length_fill {s : State} (hlog : Log s) (r : Request) (card : Slot) (block : UInt16) :
    (s.fill r card block).request.buffer.length = 128 := by
  show (if r.cmd = .write then r.slice s.buStep else s.buCurr.request.buffer).length = 128
  split
  · exact length_slice r s.buStep
  · exact hlog.buffer

/-- The first byte of an attempt goes out, and the transfer is under way. -/
theorem Due.attempt {s : State} {r : Request} {rest : List Request} (h : Due s r rest)
    (hlog : Log s) (card : Slot) (block : UInt16) (input : CardInput) :
    ∃ bu o data, buSwInit (s.fill r card block) = some bu ∧ buRdRoutine bu input = some o ∧
      o.status = 0 ∧ o.bu.request.mode = s.buCurr.request.mode ∧
      o.bu.request.buffer.length = 128 ∧ 0 < o.wire.length ∧
      (ReadAt card block o.bu o.wire ∨ WriteAt card block data o.bu o.wire) ∧
      (r.cmd = .write → data = r.slice s.buStep) := by
  have hlen := length_fill hlog r card block
  have hdata (hcmd : r.cmd = .write) : (s.fill r card block).request.buffer = r.slice s.buStep :=
    if_pos hcmd
  rcases h.mode with hmode | hmode
  · obtain ⟨bu, hinit, hfirst⟩ := @readAt_start card block (s.fill r card block)
      ⟨hmode, rfl, rfl, rfl⟩ hlen
    obtain ⟨o, hrun, hst, -, hat⟩ := hfirst input
    exact ⟨bu, o, _, hinit, hrun, hst, hat.aimed.mode_eq.trans hmode.symm, hat.length_buffer,
      buRdRoutine_wire hrun, .inl hat, hdata⟩
  · obtain ⟨bu, hinit, hfirst⟩ := @writeAt_start card block _ (s.fill r card block)
      ⟨hmode, rfl, rfl, rfl⟩ hlen rfl
    obtain ⟨o, hrun, hst, -, hat⟩ := hfirst input
    exact ⟨bu, o, _, hinit, hrun, hst, hat.aimed.mode_eq.trans hmode.symm, hat.length_buffer,
      buRdRoutine_wire hrun, .inr hat, hdata⟩

section Serve

variable {s : State} {r : Request} {input : CardInput}

/-- All steps are done. -/
theorem serve_of_steps (h : ¬ s.buStep < s.len.toNat) :
    s.serve r input = some (.again (s.finish true)) := if_neg h

/-- The attempts are used up. -/
theorem serve_of_tries (hstep : s.buStep < s.len.toNat) (htry : s.buTry ≥ nChecks) :
    s.serve r input = some (.again (s.finish false)) := by
  unfold State.serve
  rw [if_pos hstep, if_pos htry]

/-- The block is on none of the cards. -/
theorem serve_of_unlocated (hstep : s.buStep < s.len.toNat) (htry : ¬ s.buTry ≥ nChecks)
    (hloc : s.joined.locate (s.start + UInt32.ofNat s.buStep) = none) :
    s.serve r input = some (.again ({ s with buTry := s.buTry + 1 }.finish false)) := by
  unfold State.serve
  rw [if_pos hstep, if_neg htry]
  simp only [hloc]

end Serve

/-- Where another attempt is due and the block is on a card, a transfer is started. -/
theorem Due.serve_attempt {s : State} {r : Request} {rest : List Request} (h : Due s r rest)
    (hlog : Log s) {card : Slot} {block : UInt16} (input : CardInput)
    (hstep : s.buStep < s.len.toNat) (htry : ¬ s.buTry ≥ nChecks)
    (hloc : s.joined.locate (s.start + UInt32.ofNat s.buStep) = some (card, block)) :
    ∃ (o : Outcome) (data : List UInt8), s.serve r input = some (.running
        { s with
          buTry := s.buTry + 1
          buState := .none
          buCurr := o.bu
          wire := o.wire
          acks := 0
          buTimer := true }) ∧
      o.bu.request.mode = s.buCurr.request.mode ∧ o.bu.request.buffer.length = 128 ∧
      0 < o.wire.length ∧ (ReadAt card block o.bu o.wire ∨ WriteAt card block data o.bu o.wire) ∧
      (r.cmd = .write → data = r.slice s.buStep) := by
  obtain ⟨bu, o, data, hinit, hrun, hst, hmode, hbuf, hwire, hat, hdata⟩ :=
    h.attempt hlog card block input
  have hinit' : buSwInit (State.fill { s with buTry := s.buTry + 1, buState := .none }
      r card block) = some bu := hinit
  refine ⟨o, data, ?_, hmode, hbuf, hwire, hat, hdata⟩
  unfold State.serve
  rw [if_pos hstep, if_neg htry]
  simp only [hloc, hinit', hrun, hst, if_neg (Int.lt_irrefl 0)]

/-- The effort spent on the request in service. -/
theorem Due.bounded {s : State} {r : Request} {rest : List Request} (h : Due s r rest) :
    Bounded s.steps s.failures :=
  ⟨List.forall_mem_cons.mpr ⟨h.tries ▸ h.try_le, h.short⟩, h.acks⟩

theorem serve_spec {s : State} {r : Request} {rest : List Request} (h : Due s r rest)
    (hlog : Log s) (input : CardInput) :
    ∃ n, s.serve r input = some n ∧ Passed s r rest n := by
  have hfail (_ : s.overtaken = false) : Ended.Right ⟨r, s.joined, false, s.steps, s.failures⟩ :=
    ⟨fun hf => absurd hf Bool.false_ne_true, h.bounded⟩
  by_cases hstep : s.buStep < s.len.toNat
  · by_cases htry : s.buTry ≥ nChecks
    · exact ⟨_, serve_of_tries hstep htry,
        finish_spec hlog h.queue h.owners h.closed h.timer h.bounded hfail⟩
    · cases hloc : s.joined.locate (s.start + UInt32.ofNat s.buStep) with
      | none =>
        have hlog' : Log { s with buTry := s.buTry + 1 } :=
          ⟨hlog.ended, hlog.ids, hlog.locks, hlog.count, hlog.buffer⟩
        exact ⟨_, serve_of_unlocated hstep htry hloc,
          (finish_spec hlog' h.queue h.owners h.closed h.timer h.bounded hfail).of_eq
            ⟨rfl, rfl, rfl, rfl, rfl, rfl, rfl⟩ rfl⟩
      | some p =>
        obtain ⟨card, block⟩ := p
        obtain ⟨o, data, heq, hmode, hbuf, hwire, hat, hdata⟩ :=
          h.serve_attempt hlog input hstep htry hloc
        refine ⟨_, heq, ⟨⟨h.lock, h.owners, h.current, h.closed, h.queue, ?_, h.steps, h.short, ?_,
          h.rejected, h.acks, fun hnot => ?_⟩, rfl, hstep, ?_, hwire, card, block, data, hloc, hat,
          fun _ => hdata⟩, ?_, ⟨rfl, rfl, rfl, rfl, rfl, rfl, rfl⟩, rfl, rfl, rfl, rfl⟩
        · exact hmode ▸ h.mode
        · exact Nat.not_le.mp htry
        · obtain ⟨hstart, hlen, hm, hserved⟩ := h.taken hnot
          exact ⟨hstart, hlen, hm.trans (congrArg some hmode.symm), hserved⟩
        · exact congrArg (· + 1) h.tries
        · exact ⟨hlog.ended, hlog.ids, hlog.locks, hlog.count, hbuf⟩
  · have hok (hnot : s.overtaken = false) : Ended.Right
      ⟨r, s.joined, true, s.steps, s.failures⟩ := by
      refine ⟨fun _ => ⟨?_, (h.taken hnot).served⟩, h.bounded⟩
      show s.steps.length = r.len.toNat
      rw [h.steps, ← (h.taken hnot).len]
      exact Nat.le_antisymm h.step_le (Nat.not_lt.mp hstep)
    exact ⟨_, serve_of_steps hstep,
      finish_spec hlog h.queue h.owners h.closed h.timer h.bounded hok⟩

/-- The driver knows two modes. -/
theorem mode_cases {r : Request} {mode : UInt8} (h : r.mode = some mode) :
    mode = modeRead ∨ mode = modeWrite := by
  unfold Request.mode at h
  cases hcmd : r.cmd with
  | read => exact .inl (by simpa [hcmd] using h.symm)
  | write => exact .inr (by simpa [hcmd] using h.symm)
  | other => simp [hcmd] at h

/-- A request that is taken into service is due. -/
theorem Free.due_take {s : State} {r : Request} {rest : List Request} {mode : UInt8} (h : Free s)
    (hq : s.queue = r :: rest) (hmode : r.mode = some mode) : Due (s.take r mode) r rest := by
  obtain ⟨⟨hcur, hclosed, htimer, hsteps, hfails⟩, hlock, howners⟩ := h
  refine ⟨⟨rfl, congrArg (List.cons Owner.block) howners, Int.natCast_nonneg _, hclosed, hq,
    mode_cases hmode, congrArg List.length hsteps, ?_, Nat.zero_le _, ?_, ?_,
    fun _ => ⟨rfl, rfl, hmode, ?_⟩⟩, htimer, Nat.zero_le _, congrArg List.length hfails⟩
  · show ∀ attempts ∈ s.steps, attempts.length ≤ nChecks
    rw [hsteps]
    exact fun l hl => absurd hl List.not_mem_nil
  · show ∀ a ∈ s.failures, a.accepted = false
    rw [hfails]
    exact fun a ha => absurd ha List.not_mem_nil
  · show ∀ attempts ∈ s.failures :: s.steps, ∀ a ∈ attempts, a.acks ≤ maxAcks
    rw [hfails, hsteps]
    exact bounded_nil.acks
  · show StepsServed s.joined r s.steps
    rw [hsteps]
    exact stepsServed_nil _ _

/-- **The loop over the queue** ends with an empty queue and a free bus, or with the first
request that can be served in service. -/
theorem startLoop_spec (input : CardInput) {q : List Request} {s : State} (hfree : Free s)
    (hlog : Log s) (hq : s.queue = q) :
    ∃ s', startLoop input q s = some s' ∧ Settled s s' := by
  induction q generalizing s with
  | nil => exact ⟨s, rfl, hlog, Frame.refl s, advance_of_eq rfl rfl, .inl ⟨hfree, hq⟩⟩
  | cons r rest ih =>
    have hnext {t : State} (ht : EndedOne s r rest t) :
        ∃ s', startLoop input rest t = some s' ∧ Settled s s' := by
      obtain ⟨s', heq, hsettled⟩ := ih ht.free ht.log ht.queue
      exact ⟨s', heq, hsettled.after ht.frame (ht.advance hq)⟩
    unfold startLoop
    by_cases hdev : r.device > 0
    · rw [if_pos hdev]
      exact hnext (refuse_spec hlog hfree hq)
    · rw [if_neg hdev]
      by_cases hbound : (r.start + r.len).toNat > toUlong s.joined.total
      · rw [if_pos hbound]
        exact hnext (refuse_spec hlog hfree hq)
      · rw [if_neg hbound]
        cases hmode : r.mode with
        | none => exact hnext (refuse_spec hlog hfree hq)
        | some mode =>
          have hdue := hfree.due_take hq hmode
          have hlog' : Log (s.take r mode) :=
            ⟨hlog.ended, hlog.ids, hlog.locks, hlog.count, hlog.buffer⟩
          obtain ⟨n, hn, hpassed⟩ := serve_spec hdue hlog' input
          simp only [hn]
          cases n with
          | running s' =>
            obtain ⟨hserving, hl, hf, hended, -⟩ := hpassed
            refine ⟨s', rfl, hl, ⟨hf.joined, hf.arrived, hf.sweep, hf.probing, hf.retry,
              hf.plugged, hf.overtaken⟩, advance_of_eq hended ?_, .inr ⟨r, rest, hserving⟩⟩
            rw [hserving.queue, hq]
          | again s' =>
            exact hnext (EndedOne.of_eq hpassed ⟨rfl, rfl, rfl, rfl, rfl, rfl, rfl⟩ rfl)

theorem continueRequest_spec {s : State} {r : Request} {rest : List Request} (h : Due s r rest)
    (hlog : Log s) (input : CardInput) :
    ∃ s', continueRequest s input = some s' ∧ Settled s s' ∧
      (Again s s' ∨ s.ended.length < s'.ended.length) := by
  obtain ⟨n, hn, hpassed⟩ := serve_spec h hlog input
  unfold continueRequest
  simp only [h.queue, hn]
  cases n with
  | running s' =>
    obtain ⟨hserving, hl, hf, hended, hagain⟩ := hpassed
    refine ⟨s', rfl, ⟨hl, hf, advance_of_eq hended ?_, .inr ⟨r, rest, hserving⟩⟩, .inl hagain⟩
    rw [hserving.queue, h.queue]
  | again s' =>
    have hone : EndedOne s r rest s' := hpassed
    obtain ⟨s'', heq, hsettled⟩ := startLoop_spec input hone.free hone.log hone.queue
    refine ⟨s'', heq, hsettled.after hone.frame (hone.advance h.queue), .inr ?_⟩
    obtain ⟨e, hended, -⟩ := hone.ended
    obtain ⟨es, hended', -⟩ := hsettled.advance
    rw [hended', hended, List.length_append, List.length_append, List.length_singleton]
    omega

/-! ## The transfer in progress -/

/-- A request stays in service while its transfer moves on. -/
theorem InService.update {s : State} {r : Request} {rest : List Request}
    (h : InService s r rest) {bu : Bu} (hbu : Keeps s.buCurr bu) (w : List (Exchange UInt8))
    (acks : Nat) (st : BuState) (timer : Bool) :
    InService { s with buCurr := bu, wire := w, acks := acks, buState := st, buTimer := timer }
      r rest := by
  refine ⟨h.lock, h.owners, h.current, h.closed, h.queue, ?_, h.steps, h.short, h.try_le,
    h.rejected, h.acks, fun hnot => ?_⟩
  · rw [hbu.mode]
    exact h.mode
  · obtain ⟨hstart, hlen, hmode, hserved⟩ := h.taken hnot
    exact ⟨hstart, hlen, hmode.trans (congrArg some hbu.mode.symm), hserved⟩

/-- After a failed attempt the same step is due again. -/
theorem InService.due_of_fail {s : State} {r : Request} {rest : List Request}
    (h : InService s r rest) (htimer : s.buTimer = false) (hstep : s.buStep < s.len.toNat)
    (htries : s.failures.length + 1 = s.buTry) (hacks : s.acks ≤ maxAcks) :
    Due s.failAttempt r rest := by
  refine ⟨⟨h.lock, h.owners, h.current, h.closed, h.queue, h.mode, h.steps, h.short, h.try_le,
    ?_, ?_,
    fun hnot => ?_⟩, htimer, hstep.le, ?_⟩
  · intro a ha
    rcases List.mem_append.mp ha with ha | ha
    · exact h.rejected a ha
    · obtain rfl := List.mem_singleton.mp ha
      rfl
  · refine List.forall_mem_cons.mpr ⟨?_, fun l hl => h.acks l (List.mem_cons_of_mem _ hl)⟩
    intro a ha
    rcases List.mem_append.mp ha with ha | ha
    · exact h.acks _ List.mem_cons_self a ha
    · obtain rfl := List.mem_singleton.mp ha
      exact hacks
  · obtain ⟨hstart, hlen, hmode, hserved⟩ := h.taken hnot
    exact ⟨hstart, hlen, hmode, hserved⟩
  · show (s.failures ++ [_]).length = s.buTry
    rw [List.length_append, List.length_singleton, htries]

/-- The accepted transfer of the step in progress. -/
structure Delivered (s : State) (r : Request) : Prop where
  located : s.joined.locate (s.start + UInt32.ofNat s.buStep) =
    some (s.buCurr.request.card, s.buCurr.request.block)
  length_buffer : s.buCurr.request.buffer.length = 128
  done : s.buCurr.request.mode = modeRead ∧ ReadDone s.buCurr.request.card s.buCurr.request.block
      s.buCurr.request.buffer s.wire ∨
    s.buCurr.request.mode = modeWrite ∧ ∃ data, WriteDone s.buCurr.request.card
      s.buCurr.request.block data s.wire ∧
      (s.overtaken = false → r.cmd = .write → data = r.slice s.buStep)

theorem Delivered.stepServed {s : State} {r : Request} (h : Delivered s r)
    (hnot : s.overtaken = false) (htaken : Taken s r) (htries : s.failures.length + 1 ≤ nChecks)
    (hrejected : ∀ a ∈ s.failures, a.accepted = false) :
    StepServed s.joined (if r.cmd = .read then r.store s.buStep s.buCurr.request.buffer else r)
      s.buStep (s.failures ++ [s.attempt true]) := by
  obtain ⟨hloc, hlen, hdone⟩ := h
  rw [htaken.start] at hloc
  have hmode := htaken.mode
  refine ⟨?_, s.failures, _, rfl, hrejected, rfl, ?_, ?_⟩
  · rw [List.length_append]
    exact htries
  · split <;> exact hloc
  · unfold Request.mode at hmode
    cases hcmd : r.cmd with
    | read =>
      simp only [hcmd, Option.some.injEq] at hmode
      rcases hdone with ⟨-, hdone⟩ | ⟨hwrite, -⟩
      · rw [if_pos rfl]
        unfold Transferred
        show match r.cmd with
          | .read => _
          | .write => _
          | .other => _
        rw [hcmd, slice_store_self r s.buStep hlen]
        exact hdone
      · exact absurd (hmode.trans hwrite) (by decide)
    | write =>
      simp only [hcmd, Option.some.injEq] at hmode
      rcases hdone with ⟨hread, -⟩ | ⟨-, data, hdone, hdata⟩
      · exact absurd (hmode.trans hread) (by decide)
      · rw [if_neg (by decide)]
        unfold Transferred
        rw [hcmd, ← hdata hnot hcmd]
        exact hdone
    | other => simp [hcmd] at hmode

/-- After an accepted transfer the next step is due. -/
theorem InService.due_of_accept {s : State} {r : Request} {rest : List Request}
    (h : InService s r rest) (htimer : s.buTimer = false) (hstep : s.buStep < s.len.toNat)
    (htries : s.failures.length + 1 = s.buTry) (hacks : s.acks ≤ maxAcks) (hdone : Delivered s r) :
    Due (s.acceptAttempt r rest)
      (if r.cmd = .read then r.store s.buStep s.buCurr.request.buffer else r) rest := by
  have htry : s.failures.length + 1 ≤ nChecks := htries.symm ▸ h.try_le
  refine ⟨⟨h.lock, h.owners, h.current, h.closed, rfl, h.mode, ?_, ?_, Nat.zero_le _, ?_, ?_,
    fun hnot => ?_⟩, htimer, hstep, rfl⟩
  · show (s.steps ++ [_]).length = s.buStep + 1
    rw [List.length_append, h.steps]
    rfl
  · refine List.forall_mem_append.mpr ⟨h.short, List.forall_mem_singleton.mpr ?_⟩
    rw [List.length_append]
    exact htry
  · exact fun a ha => absurd ha List.not_mem_nil
  · refine List.forall_mem_cons.mpr ⟨fun a ha => absurd ha List.not_mem_nil, ?_⟩
    refine List.forall_mem_append.mpr ⟨fun l hl => h.acks l (List.mem_cons_of_mem _ hl), ?_⟩
    refine List.forall_mem_singleton.mpr (List.forall_mem_append.mpr ⟨?_, ?_⟩)
    · exact h.acks _ List.mem_cons_self
    · exact List.forall_mem_singleton.mpr hacks
  · have htaken : Taken s r := h.taken hnot
    have hkept : StepsServed s.joined
        (if r.cmd = .read then r.store s.buStep s.buCurr.request.buffer else r) s.steps := by
      intro i attempts hi
      have hlt : i < s.buStep := by
        rw [← h.steps]
        exact (List.getElem?_eq_some_iff.mp hi).1
      split
      · exact (htaken.served i attempts hi).store (Nat.ne_of_lt hlt) _
      · exact htaken.served i attempts hi
    refine ⟨?_, ?_, ?_, hkept.snoc ?_⟩
    · split <;> exact htaken.start
    · split <;> exact htaken.len
    · split <;> exact htaken.mode
    · rw [h.steps]
      exact hdone.stepServed hnot htaken htry h.rejected

theorem map_id_acceptAttempt {s : State} {r : Request} {rest : List Request}
    (hq : s.queue = r :: rest) :
    (s.acceptAttempt r rest).queue.map Request.id = s.queue.map Request.id := by
  rw [hq]
  show List.map Request.id ((if r.cmd = .read then _ else r) :: rest) = _
  split <;> rfl

theorem Log.acceptAttempt {s : State} {r : Request} {rest : List Request} (h : Log s)
    (hq : s.queue = r :: rest) : Log (s.acceptAttempt r rest) := by
  refine ⟨h.ended, ?_, h.locks, h.count, h.buffer⟩
  rw [map_id_acceptAttempt hq]
  exact h.ids

/-- One acknowledge moves the transfer on: it fails, goes on, or is accepted. -/
theorem Serving.routine {s : State} {r : Request} {rest : List Request} (h : Serving s r rest)
    (input : CardInput) :
    s.wire.length ≤ maxAcks ∧
    ∃ o, buRdRoutine s.buCurr input = some o ∧ Keeps s.buCurr o.bu ∧ (o.status = -1 ∨
      (o.status = 0 ∧ o.bu.stop = false ∧
        UnderWay { s with buCurr := o.bu, wire := s.wire ++ o.wire } r) ∨
      (o.status = 0 ∧ o.bu.stop = true ∧
        Delivered { s with buCurr := o.bu, wire := s.wire ++ o.wire } r)) := by
  obtain ⟨card, block, data, hloc, hat, hdata⟩ := h.underWay
  rcases hat with hat | hat
  · obtain ⟨o, ho, hcases⟩ := (readAt_tracks card block).routine hat input
    have hkeeps := buRdRoutine_keeps ho
    refine ⟨hat.length_wire_le, o, ho, hkeeps, ?_⟩
    rcases hcases with hfail | ⟨hst, hstop, hat'⟩ | ⟨hst, hstop, hdone⟩
    · exact .inl hfail
    · exact .inr (.inl ⟨hst, hstop, card, block, data, hloc, .inl hat', hdata⟩)
    · have hcard := hkeeps.card.trans hat.aimed.card_eq
      have hblock := hkeeps.block.trans hat.aimed.block_eq
      refine .inr (.inr ⟨hst, hstop, ?_, hkeeps.length_buffer.trans hat.length_buffer,
        .inl ⟨hkeeps.mode.trans hat.aimed.mode_eq, ?_⟩⟩)
      · simpa only [hcard, hblock] using hloc
      · simpa only [hcard, hblock] using hdone
  · obtain ⟨o, ho, hcases⟩ := (writeAt_tracks card block data).routine hat input
    have hkeeps := buRdRoutine_keeps ho
    refine ⟨hat.length_wire_le.trans (by decide), o, ho, hkeeps, ?_⟩
    rcases hcases with hfail | ⟨hst, hstop, hat'⟩ | ⟨hst, hstop, hdone⟩
    · exact .inl hfail
    · exact .inr (.inl ⟨hst, hstop, card, block, data, hloc, .inr hat', hdata⟩)
    · have hcard := hkeeps.card.trans hat.aimed.card_eq
      have hblock := hkeeps.block.trans hat.aimed.block_eq
      refine .inr (.inr ⟨hst, hstop, ?_, hkeeps.length_buffer.trans hat.length_buffer,
        .inr ⟨hkeeps.mode.trans hat.aimed.mode_eq, data, ?_, hdata⟩⟩)
      · simpa only [hcard, hblock] using hloc
      · simpa only [hcard, hblock] using hdone

/-- The request in service, or the queue, has come forward. -/
def Progress (s s' : State) : Prop :=
  s.ended.length < s'.ended.length ∨ s'.len = s.len ∧ (s.buStep < s'.buStep ∨
    s'.buStep = s.buStep ∧ (s.buTry < s'.buTry ∨ s'.buTry = s.buTry ∧ s.acks < s'.acks))

/-- The transfer in progress is over, and `do_bu_request` goes on with the same step or the next
one. -/
structure Returned (s t : State) (r : Request) (rest : List Request) : Prop where
  due : Due t r rest
  log : Log t
  frame : Frame s t
  advance : Advance s t
  ended : t.ended = s.ended
  len : t.len = s.len
  step : t.buStep = s.buStep ∧ t.buTry = s.buTry ∨ s.buStep < t.buStep

theorem Returned.settles {s t : State} {r : Request} {rest : List Request}
    (h : Returned s t r rest) (stale : CardInput) :
    ∃ s', continueRequest t stale = some s' ∧ Settled s s' ∧ Progress s s' := by
  obtain ⟨s', heq, hsettled, hnext⟩ := continueRequest_spec h.due h.log stale
  refine ⟨s', heq, hsettled.after h.frame h.advance, ?_⟩
  rcases hnext with hagain | hended
  · refine .inr ⟨hagain.len.trans h.len, ?_⟩
    rcases h.step with ⟨hstep, htry⟩ | hstep
    · exact .inr ⟨hagain.step.trans hstep, .inl (htry ▸ Nat.lt_of_succ_le hagain.tries.ge)⟩
    · exact .inl (hagain.step ▸ hstep)
  · exact .inl (h.ended ▸ hended)

/-- What an acknowledge does during a transfer: it is not over yet, or `do_bu_request` goes on. -/
theorem Serving.interrupt_cases {s : State} {r : Request} {rest : List Request}
    (h : Serving s r rest) (hlog : Log s) (input stale : CardInput) :
    (∃ s', buInterrupt s input stale = some s' ∧ Serving s' r rest ∧ Settled s s' ∧ Progress s s') ∨
      ∃ t r', buInterrupt s input stale = continueRequest t stale ∧ Returned s t r' rest := by
  obtain ⟨hwire, o, ho, hkeeps, hcases⟩ := h.routine input
  have hacks : s.acks + 1 ≤ maxAcks := le_trans h.acks_lt hwire
  have hserving (timer : Bool) :=
    h.toInService.update hkeeps (s.wire ++ o.wire) (s.acks + 1) s.buState timer
  have hlog' (timer : Bool) : Log
      { s with buCurr := o.bu, wire := s.wire ++ o.wire, acks := s.acks + 1, buTimer := timer } :=
    ⟨hlog.ended, hlog.ids, hlog.locks, hlog.count, hkeeps.length_buffer.trans hlog.buffer⟩
  unfold buInterrupt
  rw [if_neg (Int.not_lt.mpr h.current), if_neg (Bool.eq_false_iff.mp h.closed)]
  simp only [ho]
  rcases hcases with hst | ⟨hst, hstop, hat⟩ | ⟨hst, hstop, hdone⟩
  · rw [if_pos (by rw [hst]; exact neg_one_lt_zero)]
    have hl := hlog' false
    exact .inr ⟨_, r, rfl, (hserving false).due_of_fail rfl h.step_lt h.tries hacks,
      ⟨hl.ended, hl.ids, hl.locks, hl.count, hl.buffer⟩, ⟨rfl, rfl, rfl, rfl, rfl, rfl, rfl⟩,
      advance_of_eq rfl rfl, rfl, rfl, .inl ⟨rfl, rfl⟩⟩
  · simp only [hst, lt_irrefl, if_false, hstop, Bool.false_eq_true]
    have hacks_lt : s.acks + 1 < (s.wire ++ o.wire).length := by
      rw [List.length_append]
      exact Nat.add_lt_add_of_lt_of_le h.acks_lt (buRdRoutine_wire ho)
    have hnext : Serving { s with
        buCurr := o.bu
        wire := s.wire ++ o.wire
        acks := s.acks + 1
        buTimer := true } r rest :=
      ⟨hserving true, rfl, h.step_lt, h.tries, hacks_lt, hat⟩
    exact .inl ⟨_, rfl, hnext, ⟨hlog' true, ⟨rfl, rfl, rfl, rfl, rfl, rfl, rfl⟩,
      advance_of_eq rfl rfl,
      .inr ⟨r, rest, hnext⟩⟩, .inr ⟨rfl, .inr ⟨rfl, .inr ⟨rfl, Nat.lt_succ_self _⟩⟩⟩⟩
  · simp only [hst, lt_irrefl, if_false, hstop, if_true, h.queue]
    have hids := map_id_acceptAttempt (s := { s with
      buCurr := o.bu
      wire := s.wire ++ o.wire
      acks := s.acks + 1
      buTimer := false }) h.queue
    exact .inr ⟨_, _, rfl, (hserving false).due_of_accept rfl h.step_lt h.tries hacks
      ⟨hdone.located, hdone.length_buffer, hdone.done⟩, (hlog' false).acceptAttempt h.queue,
      ⟨rfl, rfl, rfl, rfl, rfl, rfl, rfl⟩, advance_of_eq rfl hids, rfl, rfl,
        .inr (Nat.lt_succ_self _)⟩

/-- **The acknowledge interrupt during a transfer**: the transfer moves on, or the request
function goes on with the same step, the next step, or the next request. -/
theorem Serving.interrupt {s : State} {r : Request} {rest : List Request} (h : Serving s r rest)
    (hlog : Log s) (input stale : CardInput) :
    ∃ s', buInterrupt s input stale = some s' ∧ Settled s s' ∧ Progress s s' := by
  rcases h.interrupt_cases hlog input stale with
    ⟨s', heq, -, hsettled, hprogress⟩ | ⟨t, r', heq, ht⟩
  · exact ⟨s', heq, hsettled, hprogress⟩
  · rw [heq]
    exact ht.settles stale

/-- The transfer under way is given up. -/
theorem Serving.returned_of_giveUp {s : State} {r : Request} {rest : List Request}
    (h : Serving s r rest) (hlog : Log s) (st : BuState) :
    Returned s { s with buState := st, buTimer := false }.failAttempt r rest := by
  have hkeeps : Keeps s.buCurr s.buCurr := ⟨rfl, rfl, rfl, rfl, rfl⟩
  have hacks : s.acks ≤ maxAcks := h.acks_lt.le.trans (h.routine ⟨0, false, 0⟩).1
  exact ⟨(h.toInService.update hkeeps s.wire s.acks st false).due_of_fail rfl h.step_lt h.tries
    hacks,
    ⟨hlog.ended, hlog.ids, hlog.locks, hlog.count, hlog.buffer⟩,
      ⟨rfl, rfl, rfl, rfl, rfl, rfl, rfl⟩,
    advance_of_eq rfl rfl, rfl, rfl, .inl ⟨rfl, rfl⟩⟩

/-- **The timeout during a transfer**: the attempt is given up. -/
theorem Serving.timeout {s : State} {r : Request} {rest : List Request} (h : Serving s r rest)
    (hlog : Log s) (stale : CardInput) :
    ∃ s', buTimeout s stale = some s' ∧ Settled s s' ∧ Progress s s' := by
  unfold buTimeout
  rw [if_pos h.timer]
  dsimp only
  rw [if_neg (Int.not_lt.mpr h.current), if_neg (Bool.eq_false_iff.mp h.closed)]
  exact (h.returned_of_giveUp hlog .timeout).settles stale

end MemoryCard
end Blackroo
