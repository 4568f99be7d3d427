import Blackroo.MemoryCard.BusPlaces

/-!
# When an acknowledge leaves the table

Every transfer of the system is under way or over, and no event changes that, whoever has the bus
(`Fit`).  So `bu_rd_routine` stays in its table as long as it is not called for a transfer that is
over.  `do_bu_request` calls it behind `bu_sw_init`, and `bu_check` stops at `bu->stop`.  What is
left is `bu_interrupt`, for which `bu_curr` is over from the end of a request to the start of the
next one. All this time `bu_current` is -1 and keeps the acknowledges away, but for a sweep:
`bu_init` and `bu_revalidate` set `bu_current` before they set `bu_open`.

`table_safe_iff` says that this is the only way out of the table, and `ack_behind_bu_current` that
it is one.  At the end of a sweep the order is the right one: `bu_current` is cleared first.

The window is a few instructions long and needs an acknowledge that nobody waits for, as a card
gives that is late or a line on which there is noise.  It is reachable on a machine without any
fault in a transfer, which is what `served` is for: the counterexample serves a request first, and
well.
-/

namespace Blackroo
namespace MemoryCard
namespace Preemption

open Runs

/-! ## Every transfer fits -/

/-- The transfer that a process carries is under way. -/
def Pc.Sound : Pc → Prop
  | .probing _ _ bu _ => bu.Under
  | _ => True

/-- Every transfer of the system is in the table or over. -/
structure Fit (s : Sys) : Prop where
  curr : s.driver.buCurr.Fits
  procs : ∀ pid, (s.procs pid).pc.Sound

section Fit

variable {s : Sys}

theorem Fit.withDriver (h : Fit s) {d : State} (hd : d.buCurr.Fits) :
    Fit { s with driver := d } :=
  ⟨hd, h.procs⟩

theorem Fit.put (h : Fit s) {pid : Nat} {d : State} {p : Proc}
    (hd : d.buCurr = s.driver.buCurr) (hp : p.pc.Sound) : Fit (s.put pid d p) := by
  refine ⟨?_, fun q => ?_⟩
  · show d.buCurr.Fits
    rw [hd]
    exact h.curr
  · show (Function.update s.procs pid p q).pc.Sound
    by_cases hq : q = pid
    · rw [hq, Function.update_self]
      exact hp
    · rw [Function.update_of_ne hq]
      exact h.procs q

theorem under_probeBu (slot : Slot) : (probeBu slot).Under := ⟨rfl, .inl ⟨Nat.zero_le _, rfl⟩⟩

theorem sound_next (p : Proc) : p.next.pc.Sound := by
  unfold Proc.next
  split
  · split <;> trivial
  · trivial

theorem sound_giveUp (p : Proc) : p.giveUp.pc.Sound := by
  unfold Proc.giveUp
  split
  · exact sound_next p
  · trivial

/-- **`bu_check` stays in the table.** -/
theorem Fit.buCheck (h : Fit s) {pid : Nat} {slot : Slot} {tries : Nat} {bu : Bu} (hbu : bu.Under)
    (input : CardInput) (expired : Bool) (phase : Phase) :
    ∃ s', buCheck s pid slot tries bu input expired phase = .ok s' ∧ Fit s' := by
  cases phase with
  | attempt =>
    rw [Preemption.buCheck]
    split
    · exact ⟨_, rfl, h.put rfl trivial⟩
    · split
      · exact ⟨_, rfl, h.put rfl trivial⟩
      · next hinit => exact ⟨_, rfl, h.put rfl (under_of_buSwInit hinit).1⟩
  | turn =>
    rw [Preemption.buCheck]
    split
    · exact ⟨_, rfl, h.put rfl hbu⟩
    · exact ⟨_, rfl, h.put rfl hbu⟩
  | asleep =>
    rw [Preemption.buCheck]
    split
    · exact ⟨_, rfl, h.put rfl hbu⟩
    · split
      · exact ⟨_, rfl, h⟩
      · exact ⟨_, rfl, h.put rfl hbu⟩
  | leaving => exact ⟨_, rfl, h.put rfl hbu⟩
  | testing =>
    rw [Preemption.buCheck]
    split
    · exact ⟨_, rfl, h.put rfl hbu⟩
    · exact ⟨_, rfl, h.put rfl hbu⟩
  | calling =>
    obtain ⟨o, ho, hgoes⟩ := hbu.routine input
    rw [Preemption.buCheck, if_pos hbu.inTable, ho]
    dsimp only
    cases hgoes with
    | fails hstatus hunder =>
      rw [if_pos (by rw [hstatus]; decide)]
      exact ⟨_, rfl, h.put rfl hunder⟩
    | advances hstatus hunder =>
      rw [if_neg (by rw [hstatus]; decide), if_neg (by rw [hunder.running]; decide)]
      exact ⟨_, rfl, h.put rfl hunder⟩
    | ends hstatus hlast hover =>
      rw [if_neg (by rw [hstatus]; decide), if_pos hover.stopped]
      exact ⟨_, rfl, h.put rfl trivial⟩

theorem Fit.judge (h : Fit s) (pid : Nat) (slot : Slot) (found : Option FirstBlock) :
    Fit (judge s pid slot found) := by
  have hserials (serials : List UInt32) : Fit { s with serials := serials } := ⟨h.curr, h.procs⟩
  unfold Preemption.judge
  dsimp only
  split
  · exact h.put rfl trivial
  · split
    · exact (hserials _).put rfl (under_probeBu _)
    · exact (hserials _).put rfl trivial

/-- A process keeps away from `bu_curr`, and its own transfer fits. -/
theorem Fit.advance (h : Fit s) (pid : Nat) (input : CardInput) (expired : Bool) :
    ∃ s', advance s pid input expired = .ok s' ∧ Fit s' := by
  have hproc := h.procs pid
  unfold Preemption.advance
  dsimp only
  cases hpc : (s.procs pid).pc with
  | idle => exact ⟨s, rfl, h⟩
  | catching =>
    dsimp only
    split
    · split
      · exact ⟨_, rfl, h.put rfl (sound_giveUp _)⟩
      · exact ⟨s, rfl, h⟩
    · exact ⟨_, rfl, h.put rfl trivial⟩
  | starting =>
    dsimp only
    split
    · exact ⟨_, rfl, h.put rfl (under_probeBu _)⟩
    · exact ⟨_, rfl, h.put rfl (under_probeBu _)⟩
  | probing slot tries bu phase =>
    rw [hpc] at hproc
    exact h.buCheck hproc input expired phase
  | judging slot found => exact ⟨_, rfl, h.judge pid slot found⟩
  | clearLock => exact ⟨_, rfl, h.put rfl (sound_next _)⟩
  | clearProbing =>
    dsimp only
    split
    · exact ⟨_, rfl, h.put rfl trivial⟩
    · exact ⟨_, rfl, h.put rfl trivial⟩
  | setCurrent | setState | setOpen | clearCurrent | clearOpen =>
    exact ⟨_, rfl, h.put rfl trivial⟩

theorem Fit.enter (h : Fit s) (pid : Nat) : Fit (enter s pid) := by
  unfold Preemption.enter
  split
  · exact Fit.put (s := { s with serials := [] }) ⟨h.curr, h.procs⟩ rfl trivial
  · exact h

/-- **An acknowledge that is taken for the next one of a transfer that is over.** -/
def Stray (s : Sys) : Event → Prop
  | .ack _ _ _ => Calls s.driver ∧ s.driver.buCurr.stop = true
  | _ => False

theorem Fit.handled (h : Fit s) {x : Option State} (hx : ∃ t, x = some t ∧ t.buCurr.Fits) :
    ∃ s', s.handled x = .ok s' ∧ Fit s' := by
  obtain ⟨t, rfl, ht⟩ := hx
  exact ⟨_, rfl, h.withDriver ht⟩

theorem Fit.interrupt (h : Fit s) (hclear : ¬ (Calls s.driver ∧ s.driver.buCurr.stop = true))
    (input stale : CardInput) (phantom : Request) :
    ∃ t, onCurrent phantom (fun d => buInterrupt d input stale) s.driver = some t ∧
      t.buCurr.Fits := by
  refine onCurrent_spec (fun t ht => ht) (fun queue hq => ?_) phantom
  by_cases hcalls : Calls s.driver
  · have hunder : s.driver.buCurr.Under :=
      h.curr.under (Bool.eq_false_iff.mpr fun hstop => hclear ⟨hcalls, hstop⟩)
    obtain ⟨t, ht, hfits, -⟩ :=
      buInterrupt_settles (d := { s.driver with queue := queue }) hcalls hunder hq input stale
    exact ⟨t, ht, hfits⟩
  · obtain ⟨t, ht, hsame⟩ :=
      buInterrupt_same (d := { s.driver with queue := queue }) hcalls input stale
    exact ⟨t, ht, by rw [hsame.curr]; exact h.curr⟩

theorem Fit.timeout (h : Fit s) (stale : CardInput) (phantom : Request) :
    ∃ t, onCurrent phantom (fun d => buTimeout d stale) s.driver = some t ∧ t.buCurr.Fits := by
  refine onCurrent_spec (fun t ht => ht) (fun queue hq => ?_) phantom
  by_cases hdue : Calls s.driver ∧ s.driver.buTimer = true
  · obtain ⟨t, ht, hfits, -⟩ :=
      buTimeout_settles (d := { s.driver with queue := queue }) hdue.1 hdue.2 h.curr hq stale
    exact ⟨t, ht, hfits⟩
  · obtain ⟨t, ht, hsame⟩ := buTimeout_same (d := { s.driver with queue := queue }) hdue stale
    exact ⟨t, ht, by rw [hsame.curr]; exact h.curr⟩

/-- **One event**: only a stray acknowledge leaves the table. -/
theorem step_judged (h : Fit s) (e : Event) :
    Judged Fit (fun _ => True) (¬ Stray s e) (step s e) := by
  cases e with
  | arrive r pos stale =>
    refine .of_exists id (h.handled ?_)
    unfold arrive
    split
    · exact ⟨_, rfl, h.curr⟩
    · obtain ⟨t, ht, hfits, -⟩ :=
        doBuRequest_settles (d := s.driver.queueUp r pos) h.curr stale
      exact ⟨t, ht, hfits⟩
  | unplug stale =>
    refine .of_exists id (h.handled ?_)
    unfold unplug
    split
    · obtain ⟨t, ht, hfits, -⟩ :=
        doBuRequest_settles (d := { s.driver with plugged := false }) h.curr stale
      exact ⟨t, ht, hfits⟩
    · exact ⟨_, rfl, h.curr⟩
  | ack input stale phantom =>
    rw [step]
    by_cases hstray : Calls s.driver ∧ s.driver.buCurr.stop = true
    · rw [if_pos ⟨hstray.1, (h.curr.over hstray.2).not_inTable⟩]
      exact .error (fun hno => hno hstray) trivial
    · have hin : ¬ (Calls s.driver ∧ ¬ s.driver.buCurr.InTable) := by
        rintro ⟨hcalls, hout⟩
        have hunder := h.curr.under (Bool.eq_false_iff.mpr fun hstop => hstray ⟨hcalls, hstop⟩)
        exact hout hunder.inTable
      rw [if_neg hin]
      exact .of_exists hstray (h.handled (h.interrupt hstray input stale phantom))
  | timeout stale phantom => exact .of_exists id (h.handled (h.timeout stale phantom))
  | retry stale =>
    refine .of_exists id (h.handled ?_)
    unfold buRetry
    split
    · obtain ⟨t, ht, hfits, -⟩ :=
        doBuRequest_settles (d := { s.driver with buRetryArmed := false }) h.curr stale
      exact ⟨t, ht, hfits⟩
    · exact ⟨s.driver, rfl, h.curr⟩
  | trylock c =>
    refine .ok id (h.withDriver ?_)
    unfold psxSio0Trylock
    split <;> exact h.curr
  | unlock c =>
    refine .ok id (h.withDriver ?_)
    unfold psxSio0Unlock
    split <;> exact h.curr
  | enter pid => exact .ok id (h.enter pid)
  | advance pid input expired => exact .of_exists id (h.advance pid input expired)

end Fit

/-- A stray acknowledge comes in a window, because a transfer under way is not over. -/
theorem Place.not_stray {s : Sys} {e : Event} (h : Place s) (hquiet : ¬ InWindow s e) :
    ¬ Stray s e := by
  cases e with
  | ack input stale phantom =>
    rintro ⟨hcalls, hstop⟩
    obtain ⟨-, hbusy⟩ := h.busy_of_current hcalls.1 fun pid hholding =>
      hholding.not_calls (Bool.eq_false_iff.mpr fun hw => hquiet ⟨pid, hw⟩) hcalls
    exact absurd (hstop.symm.trans hbusy.under.running) (by decide)
  | _ => exact id

/-! ## Runs -/

/-- The system as `bu_init` starts its sweep, or afterwards with the cards it has joined. -/
def Sys.start : Option Joined → Sys
  | none => .load
  | some d => .boot d

theorem fit_start (d : Option Joined) : Fit (Sys.start d) := by
  have hcurr : Bu.Under ⟨⟨0, 0, 0, List.replicate buBlkSize 0, 0⟩, 0, 0, 0, false, 0, 0⟩ :=
    ⟨rfl, .inl ⟨Nat.zero_le _, rfl⟩⟩
  have hboot (d : Joined) : Fit (.boot d) := ⟨.inl hcurr, fun _ => trivial⟩
  cases d with
  | none => exact Fit.put (s := .boot .zero) (hboot .zero) rfl trivial
  | some d => exact hboot d

theorem place_start (d : Option Joined) : Place (Sys.start d) := by
  have hboot (d : Joined) : Place (.boot d) :=
    .rest (fun _ => rfl) ⟨rfl, by show (-1 : Int) < 0; decide, rfl, rfl, rfl⟩
  cases d with
  | none => exact (hboot .zero).put_outside ⟨rfl, rfl, rfl, rfl, rfl, rfl⟩ rfl rfl
  | some d => exact hboot d

/-- **What leads out of the table.**  Over every run of the driver, `bu_rd_routine` is called with a
handler, and the handler has its index inside of the buffer, if and only if no acknowledge is taken
for the next one of a transfer that is over.  This is so when no acknowledge comes while a sweep has
set `bu_current` and not yet `bu_open`. -/
theorem table_safe_iff (d : Option Joined) (events : List Event) :
    ((∃ s, events.foldlM step (Sys.start d) = .ok s) ↔
      ClearRun step (fun s e => ¬ Stray s e) (Sys.start d) events) ∧
    (ClearRun step (fun s e => ¬ InWindow s e) (Sys.start d) events →
      ∃ s, events.foldlM step (Sys.start d) = .ok s) := by
  have hiff := (judged_run (fun s e (hs : Fit s) => step_judged hs e) (fit_start d)
    events).exists_ok_iff
  refine ⟨hiff, fun hquiet => hiff.mpr ?_⟩
  refine ClearRun.of_inv (I := fun s => Fit s ∧ Place s) (fun s e s' hs hq hstep => ⟨?_, ?_⟩)
    (fun s e hs hq => hs.2.not_stray hq) ⟨fit_start d, place_start d⟩ hquiet
  · have hjudged := step_judged hs.1 e
    rw [hstep] at hjudged
    cases hjudged with
    | ok _ hfit => exact hfit
  · exact step_place hs.1.curr hs.2 hq hstep

/-! ## A good card, and one acknowledge too many -/

/-- The first sector of the device. -/
def firstSector (cmd : Cmd) : Request := ⟨0, 0, cmd, 0, 1, fun _ => 0⟩

/-- An acknowledge, with this byte on the bus and the end byte behind it. -/
def ackWith (byte : UInt8) : Event :=
  .ack ⟨byte, true, 0x47⟩ ⟨0, true, 0⟩ (firstSector .other)

/-- A request for the first sector, which is four blocks, with every byte as it should be. -/
def served (cmd : Cmd) (answers : UInt16 → List UInt8) : List Event :=
  .arrive (firstSector cmd) 0 ⟨0, true, 0⟩ :: .unplug ⟨0, true, 0⟩ ::
    (sectorAnswers answers).map ackWith

/-- The device is opened, the bus is caught, and `bu_current` is set. -/
def opening : List Event :=
  [.enter 1, .advance 1 ⟨0, true, 0⟩ false, .advance 1 ⟨0, true, 0⟩ false]

/-- The state of the transfer after a run, and whether the run can go on with this event. -/
def after (events : List Event) (e : Event) : Option (Nat × Bool) :=
  match events.foldlM step (Sys.start (some oneCard)) with
  | .ok s => some (s.driver.buCurr.state, (step s e).isOk)
  | .error _ => none

theorem exists_of_after {events : List Event} {e : Event} {k : Nat}
    (h : after events e = some (k, false)) :
    ∃ s, events.foldlM step (Sys.start (some oneCard)) = .ok s ∧ s.driver.buCurr.state = k ∧
      step s e = .error .outside := by
  unfold after at h
  cases hx : events.foldlM step (Sys.start (some oneCard)) with
  | error f =>
    rw [hx] at h
    cases h
  | ok s =>
    rw [hx] at h
    obtain ⟨hstate, hstep⟩ := Prod.mk.inj (Option.some.inj h)
    refine ⟨s, rfl, hstate, ?_⟩
    cases hs : step s e with
    | error f => rfl
    | ok t =>
      rw [hs] at hstep
      cases hstep

/-- **A request is served without a fault of the card, the device is opened, and an acknowledge
comes right behind `bu_current = card`.**  After a read `bu_rd_routine` is called with state 13, in
the gap of the table; after a write with state 27, past its end. -/
theorem ack_behind_bu_current :
    (∃ s, (served .read readAnswers ++ opening).foldlM step (Sys.start (some oneCard)) = .ok s ∧
      s.driver.buCurr.state = 13 ∧ step s (ackWith 0) = .error .outside) ∧
    ∃ s, (served .write writeAnswers ++ opening).foldlM step (Sys.start (some oneCard)) = .ok s ∧
      s.driver.buCurr.state = 27 ∧ step s (ackWith 0) = .error .outside :=
  ⟨exists_of_after (by decide +kernel), exists_of_after (by decide +kernel)⟩

end Preemption
end MemoryCard
end Blackroo
