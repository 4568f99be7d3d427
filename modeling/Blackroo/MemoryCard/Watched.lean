import Blackroo.MemoryCard.Service

/-!
# The request function under watch

`do_bu_request` ends the current request, and it initialises and adds `bu_timer` where it
starts a transfer.  Both are right only if there is a request, and if the timer is not
pending.  Here the request function says so (`Fault`), for any state it may be called in.

Whether the timer is pending makes no other difference (`startWatched_eq`,
`continueWatched_eq`), so all that remains to be known is when a transfer is started:
`startLoop_starts` and `Due.continue_starts` read that off the queue.

The watch is a second version of the function, with the same branches and a fault where the first
goes on.  As long as handlers run to completion the timer is not pending when a transfer is started,
and the first version is enough.  The watch is for handlers that are interrupted: `bu_timeout` runs
with interrupts on, and an acknowledge in the middle of it may end the request that it is about to
give up, or start the transfer of another one (`MemoryCard.TimeoutRace`).
-/

namespace Blackroo
namespace MemoryCard

/-! ## The driver under watch -/

/-- What must not happen: `end_request` while no request is current, `init_timer` while
`bu_timer` is pending; and anything else that crashes. -/
inductive Fault where
  | endRequest
  | timer
  | crash
  deriving DecidableEq, Repr

def State.setTimer (s : State) (b : Bool) : State := { s with buTimer := b }

/-- The second half of `do_bu_request`.  The timer is initialised and added where a transfer is
started, and nothing before that touches it. -/
def State.serveWatched (s : State) (r : Request) (input : CardInput) : Except Fault Next :=
  match s.serve r input with
  | none => .error .crash
  | some (.running t) => if s.buTimer then .error .timer else .ok (.running t)
  | some (.again t) => .ok (.again t)

/-- `do_bu_request` from the label `start` on. -/
def startWatched (input : CardInput) : List Request → State → Except Fault State
  | [], s => .ok s
  | r :: rest, s =>
    if r.device > 0 then startWatched input rest s.refuse
    else if (r.start + r.len).toNat > toUlong s.joined.total then
      startWatched input rest s.refuse
    else
      match r.mode with
      | none => startWatched input rest s.refuse
      | some mode =>
        match (s.take r mode).serveWatched r input with
        | .error f => .error f
        | .ok (.running t) => .ok t
        | .ok (.again t) => startWatched input rest t

def doBuRequestWatched (s : State) (input : CardInput) : Except Fault State :=
  if s.buLock then .ok s.armRetry else startWatched input s.queue s

/-- The second half of `do_bu_request` makes an attempt, and does not end the request. -/
def State.Attempts (s : State) : Prop :=
  s.buStep < s.len.toNat ∧ s.buTry < nChecks ∧
    (s.joined.locate (s.start + UInt32.ofNat s.buStep)).isSome

instance (s : State) : Decidable s.Attempts := inferInstanceAs (Decidable (_ ∧ _))

/-- `do_bu_request` with `bu_continue` set.  Without a request it ends one all the same, or
starts a transfer for it. -/
def continueWatched (s : State) (input : CardInput) : Except Fault State :=
  match s.queue with
  | [] => .error (if s.Attempts then .crash else .endRequest)
  | r :: rest =>
    match s.serveWatched r input with
    | .error f => .error f
    | .ok (.running t) => .ok t
    | .ok (.again t) => startWatched input rest t

/-! ## What it starts -/

/-- A request that `do_bu_request` does not end before it has started a transfer for it. -/
structure Startable (d : Joined) (r : Request) : Prop where
  device : r.device = 0
  below : (r.start + r.len).toNat ≤ toUlong d.total
  mode : r.mode.isSome
  len : 0 < r.len.toNat
  located : (d.locate r.start).isSome

/-- `do_bu_request` with `bu_continue` set starts a transfer: the next attempt, or that of a
request further back. -/
def State.Starts (s : State) : Prop := s.Attempts ∨ ∃ r ∈ s.queue.tail, Startable s.joined r

/-! ## The timer -/

section Timer

variable {s : State} {r : Request} {rest : List Request}

theorem finish_setTimer (s : State) (uptodate b : Bool) :
    (s.setTimer b).finish uptodate = (s.finish uptodate).setTimer b := by
  cases hq : s.queue <;> simp [State.finish, State.endRequest, State.setTimer, State.release,
    State.noteLock, hq]

theorem refuse_setTimer (s : State) (b : Bool) :
    (s.setTimer b).refuse = s.refuse.setTimer b := by
  cases hq : s.queue <;> simp [State.refuse, State.endRequest, State.setTimer, State.noteLock, hq]

theorem current_refuse (s : State) : s.refuse.buCurrent = s.buCurrent := by
  cases hq : s.queue <;> simp [State.refuse, State.endRequest, State.noteLock, hq]

theorem attempts_finish (s : State) (uptodate : Bool) :
    (s.finish uptodate).Attempts ↔ s.Attempts := by
  cases hq : s.queue <;> simp [State.finish, State.endRequest, State.release, State.noteLock,
    State.Attempts, hq]

theorem attempts_refuse (s : State) : s.refuse.Attempts ↔ s.Attempts := by
  cases hq : s.queue <;> simp [State.refuse, State.endRequest, State.noteLock, State.Attempts, hq]

/-- Whether the timer is pending makes no difference to the rest. -/
def Next.setTimer (b : Bool) : Next → Next
  | .running s => .running s
  | .again s => .again (s.setTimer b)

theorem serve_setTimer (s : State) (r : Request) (input : CardInput) (b : Bool) :
    (s.setTimer b).serve r input = (s.serve r input).map (Next.setTimer b) := by
  have hfinish (t : State) (uptodate : Bool) : some (Next.again ((t.setTimer b).finish uptodate)) =
      (some (Next.again (t.finish uptodate))).map (Next.setTimer b) := by
    rw [finish_setTimer]
    rfl
  unfold State.serve
  by_cases hstep : s.buStep < s.len.toNat
  · rw [if_pos hstep, if_pos (show (s.setTimer b).buStep < (s.setTimer b).len.toNat from hstep)]
    by_cases htry : s.buTry ≥ nChecks
    · rw [if_pos htry, if_pos (show (s.setTimer b).buTry ≥ nChecks from htry)]
      exact hfinish s false
    · rw [if_neg htry, if_neg (show ¬ (s.setTimer b).buTry ≥ nChecks from htry)]
      dsimp only [State.setTimer]
      cases s.joined.locate (s.start + UInt32.ofNat s.buStep) with
      | none => exact hfinish { s with buTry := s.buTry + 1 } false
      | some p =>
        dsimp only
        have hfill : State.fill { s with buTry := s.buTry + 1, buState := .none, buTimer := b }
            r p.1 p.2 = State.fill { s with buTry := s.buTry + 1, buState := .none } r p.1 p.2 :=
              rfl
        rw [hfill]
        cases buSwInit (State.fill { s with buTry := s.buTry + 1, buState := .none } r p.1 p.2) with
        | none => exact hfinish { s with buTry := s.buTry + 1, buState := .none } false
        | some bu =>
          dsimp only
          cases buRdRoutine bu input with
          | none => rfl
          | some o =>
            dsimp only
            split
            · exact hfinish { s with
                buTry := s.buTry + 1
                buState := .none
                buCurr := o.bu
                wire := o.wire
                acks := 0 } false
            · rfl
  · rw [if_neg hstep, if_neg (show ¬ (s.setTimer b).buStep < (s.setTimer b).len.toNat from hstep)]
    exact hfinish s true

/-- A pass through the second half of `do_bu_request` keeps `bu_current`, or ends the request. -/
theorem serve_current {input : CardInput} {n : Next} (h : s.serve r input = some n) :
    match n with
    | .running t => t.buCurrent = s.buCurrent
    | .again t => t.buCurrent = -1 := by
  unfold State.serve at h
  split at h
  · split at h
    · cases h
      rfl
    · dsimp only at h
      split at h
      · cases h
        rfl
      · split at h
        · cases h
          rfl
        · split at h
          · cases h
          · split at h
            · cases h
              rfl
            · cases h
              rfl
  · cases h
    rfl

/-- What the watch makes of a result, if the timer was pending before (`b`): a transfer that has
been started is a fault then, and without one the timer stays as it is. -/
def watch (b : Bool) : Option State → Except Fault State
  | none => .error .crash
  | some s => if 0 ≤ s.buCurrent then (if b then .error .timer else .ok s) else .ok (s.setTimer b)

theorem serveWatched_setTimer (s : State) (r : Request) (input : CardInput) (b : Bool) :
    (s.setTimer b).serveWatched r input =
      match s.serve r input with
      | none => .error .crash
      | some (.running t) => if b then .error .timer else .ok (.running t)
      | some (.again t) => .ok (.again (t.setTimer b)) := by
  unfold State.serveWatched
  rw [serve_setTimer]
  cases s.serve r input with
  | none => rfl
  | some n => cases n <;> rfl

/-- **The loop over the queue** under watch. -/
theorem startWatched_eq (input : CardInput) (b : Bool) (q : List Request) {s : State}
    (hcur : s.buCurrent < 0) :
    startWatched input q (s.setTimer b) = watch b (startLoop input q s) := by
  induction q generalizing s with
  | nil => exact (if_neg (Int.not_le.mpr hcur)).symm
  | cons r rest ih =>
    have hrefuse : startWatched input rest (s.setTimer b).refuse =
        watch b (startLoop input rest s.refuse) := by
      rw [refuse_setTimer]
      exact ih (by rw [current_refuse]; exact hcur)
    rw [startWatched, startLoop]
    by_cases hdev : r.device > 0
    · rw [if_pos hdev, if_pos hdev, hrefuse]
    rw [if_neg hdev, if_neg hdev]
    by_cases hbound : (r.start + r.len).toNat > toUlong s.joined.total
    · rw [if_pos hbound, if_pos (show _ > toUlong (s.setTimer b).joined.total from hbound), hrefuse]
    rw [if_neg hbound, if_neg (show ¬ _ > toUlong (s.setTimer b).joined.total from hbound)]
    cases r.mode with
    | none => exact hrefuse
    | some mode =>
      have htake : (s.setTimer b).take r mode = (s.take r mode).setTimer b := rfl
      dsimp only
      rw [htake, serveWatched_setTimer]
      cases hn : (s.take r mode).serve r input with
      | none => rfl
      | some n =>
        cases n with
        | running t =>
          have ht : 0 ≤ t.buCurrent := by
            rw [serve_current hn]
            exact Int.natCast_nonneg _
          dsimp only [watch]
          rw [if_pos ht]
          cases b <;> rfl
        | again t => exact ih (by rw [serve_current hn]; decide)

/-- `do_bu_request` with `bu_continue` set, under watch. -/
theorem continueWatched_eq (input : CardInput) (b : Bool) (hq : s.queue = r :: rest)
    (hcur : 0 ≤ s.buCurrent) :
    continueWatched (s.setTimer b) input = watch b (continueRequest s input) := by
  have hq' : (s.setTimer b).queue = r :: rest := hq
  rw [continueWatched, continueRequest]
  simp only [hq, hq']
  rw [serveWatched_setTimer]
  cases hn : s.serve r input with
  | none => rfl
  | some n =>
    cases n with
    | running t =>
      have ht : 0 ≤ t.buCurrent := by
        rw [serve_current hn]
        exact hcur
      dsimp only [watch]
      rw [if_pos ht]
      cases b <;> rfl
    | again t => exact startWatched_eq input b rest (by rw [serve_current hn]; decide)

/-! ## Which requests are started -/

/-- An attempt is made exactly if there is one to make, and where the request is ended there is
none to make afterwards. -/
theorem Due.serve_attempts (h : Due s r rest) (hlog : Log s) {input : CardInput} {n : Next}
    (hn : s.serve r input = some n) :
    match n with
    | .running _ => s.Attempts
    | .again t => ¬ s.Attempts ∧ ¬ t.Attempts := by
  by_cases hstep : s.buStep < s.len.toNat
  · by_cases htry : s.buTry ≥ nChecks
    · obtain rfl := Option.some.inj ((serve_of_tries hstep htry).symm.trans hn)
      have hs : ¬ s.Attempts := fun hs => Nat.not_lt.mpr htry hs.2.1
      exact ⟨hs, fun hf => hs ((attempts_finish s false).mp hf)⟩
    · cases hloc : s.joined.locate (s.start + UInt32.ofNat s.buStep) with
      | none =>
        obtain rfl := Option.some.inj ((serve_of_unlocated hstep htry hloc).symm.trans hn)
        refine ⟨fun hs => ?_, fun hf => ?_⟩
        · exact absurd hs.2.2 (by rw [hloc]; exact Bool.false_ne_true)
        · have hloc' := ((attempts_finish _ false).mp hf).2.2
          exact absurd hloc' (by dsimp only; rw [hloc]; exact Bool.false_ne_true)
      | some p =>
        obtain ⟨o, data, heq, -⟩ := h.serve_attempt hlog input hstep htry hloc
        obtain rfl := Option.some.inj (heq.symm.trans hn)
        exact ⟨hstep, Nat.not_le.mp htry, by rw [hloc]; rfl⟩
  · obtain rfl := Option.some.inj ((serve_of_steps hstep).symm.trans hn)
    have hs : ¬ s.Attempts := fun hs => hstep hs.1
    exact ⟨hs, fun hf => hs ((attempts_finish s true).mp hf)⟩

theorem attempts_take {mode : UInt8} :
    (s.take r mode).Attempts ↔ 0 < r.len.toNat ∧ (s.joined.locate r.start).isSome := by
  show 0 < r.len.toNat ∧ 0 < nChecks ∧ (s.joined.locate (r.start + UInt32.ofNat 0)).isSome ↔ _
  have h0 : r.start + UInt32.ofNat 0 = r.start := UInt32.add_zero _
  rw [h0]
  exact ⟨fun h => ⟨h.1, h.2.2⟩, fun h => ⟨h.1, by decide, h.2⟩⟩

/-- **The loop over the queue** starts a transfer exactly if there is a request it can start one
for.  If it does not, no attempt is left to make. -/
theorem startLoop_starts (input : CardInput) {q : List Request} {s s' : State} (hfree : Free s)
    (hlog : Log s) (hq : s.queue = q) (h : startLoop input q s = some s') :
    (0 ≤ s'.buCurrent ↔ ∃ r ∈ q, Startable s.joined r) ∧
      (¬ s.Attempts → s'.buCurrent < 0 → ¬ s'.Attempts) := by
  induction q generalizing s with
  | nil =>
    obtain rfl := Option.some.inj h
    refine ⟨⟨fun h0 => ?_, fun ⟨r, hr, _⟩ => absurd hr List.not_mem_nil⟩, fun hs _ => hs⟩
    exact absurd h0 (by rw [hfree.off.current]; decide)
  | cons r rest ih =>
    have hnext {t : State} (ht : EndedOne s r rest t) (hr : ¬ Startable s.joined r)
        (hloop : startLoop input rest t = some s') :
        (0 ≤ s'.buCurrent ↔ ∃ r' ∈ r :: rest, Startable s.joined r') ∧
          (¬ t.Attempts → s'.buCurrent < 0 → ¬ s'.Attempts) := by
      obtain ⟨hstarts, hattempts⟩ := ih ht.free ht.log ht.queue hloop
      refine ⟨hstarts.trans ?_, hattempts⟩
      rw [ht.frame.joined, List.exists_mem_cons_iff]
      exact (or_iff_right hr).symm
    have hrefuse (hr : ¬ Startable s.joined r) (hloop : startLoop input rest s.refuse = some s') :
        (0 ≤ s'.buCurrent ↔ ∃ r' ∈ r :: rest, Startable s.joined r') ∧
          (¬ s.Attempts → s'.buCurrent < 0 → ¬ s'.Attempts) := by
      rw [← attempts_refuse s]
      exact hnext (refuse_spec hlog hfree hq) hr hloop
    unfold startLoop at h
    by_cases hdev : r.device > 0
    · rw [if_pos hdev] at h
      exact hrefuse (fun hr => Nat.ne_of_gt hdev hr.device) h
    rw [if_neg hdev] at h
    by_cases hbound : (r.start + r.len).toNat > toUlong s.joined.total
    · rw [if_pos hbound] at h
      exact hrefuse (fun hr => Nat.not_le.mpr hbound hr.below) h
    rw [if_neg hbound] at h
    cases hmode : r.mode with
    | none =>
      simp only [hmode] at h
      exact hrefuse (fun hr => absurd hr.mode (by rw [hmode]; exact Bool.false_ne_true)) h
    | some mode =>
      have hdue := hfree.due_take hq hmode
      have hlog' : Log (s.take r mode) :=
        ⟨hlog.ended, hlog.ids, hlog.locks, hlog.count, hlog.buffer⟩
      obtain ⟨n, hn, hpassed⟩ := serve_spec hdue hlog' input
      have hattempts := hdue.serve_attempts hlog' hn
      simp only [hmode, hn] at h
      cases n with
      | running t =>
        obtain rfl := Option.some.inj h
        have hr : Startable s.joined r :=
          ⟨Nat.eq_zero_of_not_pos hdev, Nat.not_lt.mp hbound, by rw [hmode]; rfl,
            (attempts_take.mp hattempts).1, (attempts_take.mp hattempts).2⟩
        have hcur : 0 ≤ t.buCurrent := hpassed.1.current
        exact ⟨⟨fun _ => ⟨r, List.mem_cons_self, hr⟩, fun _ => hcur⟩,
          fun _ hneg => absurd hcur (Int.not_le.mpr hneg)⟩
      | again t =>
        obtain ⟨htake, ht⟩ := hattempts
        refine (hnext (EndedOne.of_eq hpassed ⟨rfl, rfl, rfl, rfl, rfl, rfl, rfl⟩ rfl) ?_
          h).imp_right
          fun hs _ => hs ht
        exact fun hr => htake (attempts_take.mpr ⟨hr.len, hr.located⟩)

/-- `do_bu_request` with `bu_continue` set starts a transfer exactly if there is one to start. -/
theorem Due.continue_starts (h : Due s r rest) (hlog : Log s) {input : CardInput} {s' : State}
    (heq : continueRequest s input = some s') :
    (0 ≤ s'.buCurrent ↔ s.Starts) ∧ (s'.buCurrent < 0 → ¬ s'.Attempts) := by
  obtain ⟨n, hn, hpassed⟩ := serve_spec h hlog input
  have hattempts := h.serve_attempts hlog hn
  unfold continueRequest at heq
  simp only [h.queue, hn] at heq
  have htail : s.queue.tail = rest := by rw [h.queue]; rfl
  rw [State.Starts, htail]
  cases n with
  | running t =>
    obtain rfl := Option.some.inj heq
    have hcur : 0 ≤ t.buCurrent := hpassed.1.current
    exact ⟨⟨fun _ => .inl hattempts, fun _ => hcur⟩, fun hneg => absurd hcur (Int.not_le.mpr hneg)⟩
  | again t =>
    obtain ⟨hs, ht⟩ := hattempts
    have hone : EndedOne s r rest t := hpassed
    obtain ⟨hstarts, hidle⟩ := startLoop_starts input hone.free hone.log hone.queue heq
    refine ⟨hstarts.trans ?_, hidle ht⟩
    rw [hone.frame.joined]
    exact (or_iff_right hs).symm

end Timer

end MemoryCard
end Blackroo
