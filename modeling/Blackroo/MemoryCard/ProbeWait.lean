import Mathlib.Data.List.Count
import Blackroo.MemoryCard.Request

/-!
# Waiting for an acknowledge while probing

`bu_check` writes a byte to the card and calls `bu_ready`, which waits until `bu_interrupt` has seen
the acknowledge of the card or `bu_timeout` has given up.  The acknowledge may come at any moment
after the byte has been written.

`bu_ready` disables interrupts before it sets `bu_state` to `BU_WAIT`, and keeps them disabled until
it sleeps.  An acknowledge in between stays pending and wakes the sleeper; this is the race that the
comment in `bu_ready` calls closed.  Two windows are left open:

* between the byte and `cli` an acknowledge is taken at once, and the `BU_READY` that it leaves is
  overwritten by `BU_WAIT`;
* between the acknowledge and `del_timer` the timer may go off, and `bu_timeout` overwrites
  `BU_READY` without looking at it.

`bu_ready_iff` says that nothing else goes wrong.  The machine is run by `Turn`s: the process gets
to run for one instruction, the card acknowledges, the clock ticks, or somebody else wakes the queue
`bu_wait`.  A clock interrupt while interrupts are disabled is one right after they are enabled, and
so it is not modelled where it is raised.  `bu_current` and `bu_open` are set throughout a probe, so
`bu_interrupt` and `bu_timeout` are their branches for that.
-/

namespace Blackroo
namespace MemoryCard
namespace ProbeWait

/-! ## The machine -/

/-- The next instruction: from the byte on, through `bu_ready`, to its result, which is whether it
returns 0. -/
inductive Pc where
  | sent
  | closed
  | marked
  | testing
  | asleep
  | leaving
  | opened
  | deleted
  | returned (ok : Bool)
  deriving DecidableEq, Repr

/-- Interrupts are enabled: outside `cli` and `restore_flags`, and while the process sleeps. -/
def Pc.enabled : Pc → Bool
  | .closed | .marked | .testing | .leaving => false
  | _ => true

/-- The process, the variables of the driver it waits on, and the interrupt of the card. -/
structure Wait where
  pc : Pc
  jiffies : Nat
  buState : BuState
  /-- When `bu_timer` goes off, if it is pending. -/
  timer : Option Nat
  /-- The acknowledge has been raised while interrupts were disabled. -/
  pending : Bool
  /-- The sleeper has been woken. -/
  woken : Bool
  sleepUntil : Nat
  deriving DecidableEq, Repr

/-- `HZ`. -/
def hz : Nat := 100

/-- `bu_interrupt`. -/
def Wait.buInterrupt (s : Wait) : Wait := { s with buState := .ready, woken := true }

/-- `bu_timeout`. -/
def Wait.buTimeout (s : Wait) : Wait := { s with buState := .timeout, woken := true }

/-- Interrupts have been enabled. -/
def Wait.deliver (s : Wait) : Wait :=
  if s.pending then { s with pending := false }.buInterrupt else s

/-- One instruction of the process, with the timeout of the card. -/
def Wait.advance (s : Wait) (timeout : Nat) : Wait :=
  match s.pc with
  | .sent => { s with pc := .closed }
  | .closed => { s with buState := .wait, pc := .marked }
  | .marked => { s with timer := some (s.jiffies + timeout), pc := .testing }
  | .testing =>
    if s.buState = .wait then
      { s with
        pc := .asleep
        woken := false
        sleepUntil := s.jiffies + (timeout + hz) }.deliver
    else { s with pc := .leaving }
  | .asleep =>
    if s.woken then
      -- what `sleep_on_timeout` returns is the time left
      if s.sleepUntil ≤ s.jiffies then { s with buState := .timeout, pc := .leaving }
      else { s with pc := .testing }
    else s
  | .leaving => { s with pc := .opened }.deliver
  | .opened => { s with timer := none, pc := .deleted }
  | .deleted => { s with pc := .returned (s.buState = .ready) }
  | .returned _ => s

/-- The timer goes off with the next tick. -/
def Wait.Due (s : Wait) : Prop := ∃ expires ∈ s.timer, expires ≤ s.jiffies + 1

instance (s : Wait) : Decidable s.Due :=
  match h : s.timer with
  | none => isFalse fun ⟨_, hx, _⟩ => by rw [h] at hx; cases hx
  | some x =>
    decidable_of_iff (x ≤ s.jiffies + 1)
      ⟨fun hx => ⟨x, h, hx⟩, fun ⟨y, hy, hle⟩ => by rw [h] at hy; cases hy; exact hle⟩

/-- A tick of the clock, with interrupts enabled. -/
def Wait.jiffy (s : Wait) : Wait :=
  let t := { s with
    jiffies := s.jiffies + 1
    woken := s.woken || (s.pc = .asleep && s.sleepUntil ≤ s.jiffies + 1) }
  if s.Due then { t with timer := none }.buTimeout else t

/-- What can happen next. -/
inductive Turn where
  | run
  | ack
  | jiffy
  | wake
  deriving DecidableEq, Repr

def step (timeout : Nat) (s : Wait) : Turn → Wait
  | .run => s.advance timeout
  | .ack => if s.pc.enabled then s.buInterrupt else { s with pending := true }
  | .jiffy => if s.pc.enabled then s.jiffy else s
  | .wake => { s with woken := true }

def run (timeout : Nat) (s : Wait) (turns : List Turn) : Wait := turns.foldl (step timeout) s

/-- `bu_timeout` runs in this turn. -/
def Expires (s : Wait) (turn : Turn) : Prop := turn = .jiffy ∧ s.pc.enabled = true ∧ s.Due

/-- `bu_timeout` runs in none of the turns. -/
def NeverExpires (timeout : Nat) : Wait → List Turn → Prop
  | _, [] => True
  | s, turn :: turns => ¬ Expires s turn ∧ NeverExpires timeout (step timeout s turn) turns

/-- The byte has just been written. -/
structure Sent (s : Wait) : Prop where
  pc : s.pc = .sent
  timer : s.timer = none
  pending : s.pending = false

/-! ## Single turns -/

variable {timeout : Nat} {s : Wait}

theorem deliver_of_pending (h : s.pending = true) :
    s.deliver = { s with pending := false }.buInterrupt := if_pos h

theorem deliver_of_not_pending (h : s.pending = false) : s.deliver = s := by
  rw [Wait.deliver, if_neg (by simp [h])]

theorem jiffy_of_due (h : s.Due) :
    s.jiffy.buState = .timeout ∧ s.jiffy.pc = s.pc ∧ s.jiffy.pending = s.pending := by
  simp only [Wait.jiffy]
  rw [if_pos h]
  exact ⟨rfl, rfl, rfl⟩

theorem jiffy_of_not_due (h : ¬ s.Due) :
    s.jiffy = { s with
      jiffies := s.jiffies + 1
      woken := s.woken || (s.pc = .asleep && s.sleepUntil ≤ s.jiffies + 1) } := by
  simp only [Wait.jiffy]
  rw [if_neg h]

/-! ## A lost acknowledge -/

/-- The acknowledge has come and gone, and `BU_READY` is or will be overwritten. -/
structure Lost (s : Wait) : Prop where
  pending : s.pending = false
  unfinished : s.pc ≠ .returned true
  overwritten : s.pc = .sent ∨ s.pc = .closed ∨ s.buState ≠ .ready

theorem Lost.advance (h : Lost s) : Lost (s.advance timeout) := by
  obtain ⟨hpending, hpc, hstate⟩ := h
  have hne : s.pc ≠ .sent → s.pc ≠ .closed → s.buState ≠ .ready :=
    fun hsent hclosed => (hstate.resolve_left hsent).resolve_left hclosed
  rw [Wait.advance]
  cases hs : s.pc with
  | sent => exact ⟨hpending, by simp, .inr (.inl rfl)⟩
  | closed => exact ⟨hpending, by simp, .inr (.inr (by simp))⟩
  | marked =>
    replace hne := hne (by simp [hs]) (by simp [hs])
    exact ⟨hpending, by simp, .inr (.inr hne)⟩
  | testing =>
    replace hne := hne (by simp [hs]) (by simp [hs])
    dsimp only
    split
    · rw [deliver_of_not_pending (by exact hpending)]
      exact ⟨hpending, by simp, .inr (.inr hne)⟩
    · exact ⟨hpending, by simp, .inr (.inr hne)⟩
  | asleep =>
    replace hne := hne (by simp [hs]) (by simp [hs])
    dsimp only
    split
    · split
      · exact ⟨hpending, by simp, .inr (.inr (by simp))⟩
      · exact ⟨hpending, by simp, .inr (.inr hne)⟩
    · exact ⟨hpending, hpc, .inr (.inr hne)⟩
  | leaving =>
    replace hne := hne (by simp [hs]) (by simp [hs])
    dsimp only
    rw [deliver_of_not_pending (by exact hpending)]
    exact ⟨hpending, by simp, .inr (.inr hne)⟩
  | opened =>
    replace hne := hne (by simp [hs]) (by simp [hs])
    exact ⟨hpending, by simp, .inr (.inr hne)⟩
  | deleted =>
    replace hne := hne (by simp [hs]) (by simp [hs])
    exact ⟨hpending, by simp [hne], .inr (.inr hne)⟩
  | returned ok => exact ⟨hpending, hpc, hstate⟩

theorem Lost.step (h : Lost s) {turn : Turn} (hturn : turn ≠ .ack) :
    Lost (step timeout s turn) := by
  cases turn with
  | run => exact h.advance
  | ack => exact absurd rfl hturn
  | wake => exact ⟨h.pending, h.unfinished, h.overwritten⟩
  | jiffy =>
    rw [ProbeWait.step]
    split
    · by_cases hdue : s.Due
      · obtain ⟨hstate, hpc, hpending⟩ := jiffy_of_due hdue
        refine ⟨hpending.trans h.pending, ?_, .inr (.inr ?_)⟩
        · rw [hpc]
          exact h.unfinished
        · rw [hstate]
          decide
      · rw [jiffy_of_not_due hdue]
        exact ⟨h.pending, h.unfinished, h.overwritten⟩
    · exact h

/-- **What is lost stays lost**: without another acknowledge `bu_ready` does not return 0. -/
theorem Lost.run (h : Lost s) {turns : List Turn} (hturns : .ack ∉ turns) :
    Lost (run timeout s turns) := by
  induction turns generalizing s with
  | nil => exact h
  | cons turn turns ih =>
    obtain ⟨hturn, hrest⟩ := not_or.mp (fun hmem => hturns (List.mem_cons.mpr hmem))
    exact ih (h.step fun heq => hturn heq.symm) hrest

/-! ## Before the acknowledge -/

/-- The timer is pending, and goes off no later than it should. -/
def Armed (timeout : Nat) (s : Wait) : Prop :=
  ∃ expires, s.timer = some expires ∧ s.jiffies ≤ expires ∧ expires ≤ s.jiffies + timeout

/-- The timer is pending, and goes off before the sleep is over. -/
def Sleeping (timeout : Nat) (s : Wait) : Prop :=
  ∃ expires, s.timer = some expires ∧ s.jiffies ≤ expires ∧ expires ≤ s.jiffies + timeout ∧
    expires < s.sleepUntil

theorem Sleeping.armed (h : Sleeping timeout s) : Armed timeout s := by
  obtain ⟨expires, htimer, hle, hbound, -⟩ := h
  exact ⟨expires, htimer, hle, hbound⟩

/-- The sleep is not over while the timer is pending. -/
theorem Sleeping.not_over (h : Sleeping timeout s) : ¬ s.sleepUntil ≤ s.jiffies := by
  obtain ⟨expires, -, hle, -, hlt⟩ := h
  omega

theorem Sleeping.tick (h : Sleeping timeout s) (hdue : ¬ s.Due) (woken : Bool) :
    Sleeping timeout { s with jiffies := s.jiffies + 1, woken := woken } := by
  obtain ⟨expires, htimer, -, hbound, hlt⟩ := h
  have hlater : ¬ expires ≤ s.jiffies + 1 := fun hle => hdue ⟨expires, htimer, hle⟩
  refine ⟨expires, htimer, ?_, ?_, hlt⟩
  · show s.jiffies + 1 ≤ expires
    omega
  · show expires ≤ s.jiffies + 1 + timeout
    omega

theorem Armed.sleep (h : Armed timeout s) {t : Wait} (htimer : t.timer = s.timer)
    (hjiffies : t.jiffies = s.jiffies) (huntil : t.sleepUntil = s.jiffies + (timeout + hz)) :
    Sleeping timeout t := by
  obtain ⟨expires, hexpires, hle, hbound⟩ := h
  refine ⟨expires, htimer.trans hexpires, ?_, ?_, ?_⟩
  · omega
  · omega
  · rw [huntil, hz]
    omega

/-- Neither the acknowledge nor the timeout has come. -/
inductive Before (timeout : Nat) (s : Wait) : Prop
  | sent (hpc : s.pc = .sent) (hpending : s.pending = false) (htimer : s.timer = none)
  | closed (hpc : s.pc = .closed) (hpending : s.pending = false) (htimer : s.timer = none)
  | marked (hpc : s.pc = .marked) (hpending : s.pending = false) (hstate : s.buState = .wait)
  | testing (hpc : s.pc = .testing) (hpending : s.pending = false) (hstate : s.buState = .wait)
      (harmed : Armed timeout s)
  | asleep (hpc : s.pc = .asleep) (hpending : s.pending = false) (hstate : s.buState = .wait)
      (hsleep : Sleeping timeout s)

theorem Before.advance (h : Before timeout s) : Before timeout (s.advance timeout) := by
  rw [Wait.advance]
  cases h with
  | sent hpc hpending htimer =>
    rw [hpc]
    exact .closed rfl hpending htimer
  | closed hpc hpending htimer =>
    rw [hpc]
    exact .marked rfl hpending rfl
  | marked hpc hpending hstate =>
    rw [hpc]
    exact .testing rfl hpending hstate ⟨_, rfl, Nat.le_add_right _ _, Nat.le_refl _⟩
  | testing hpc hpending hstate harmed =>
    rw [hpc]
    dsimp only
    rw [if_pos hstate, deliver_of_not_pending (by exact hpending)]
    exact .asleep rfl hpending hstate (harmed.sleep rfl rfl rfl)
  | asleep hpc hpending hstate hsleep =>
    rw [hpc]
    dsimp only
    split
    · rw [if_neg hsleep.not_over]
      exact .testing rfl hpending hstate hsleep.armed
    · exact .asleep hpc hpending hstate hsleep

theorem Before.step (h : Before timeout s) {turn : Turn} (hturn : turn ≠ .ack)
    (hexpires : ¬ Expires s turn) : Before timeout (step timeout s turn) := by
  cases turn with
  | run => exact h.advance
  | ack => exact absurd rfl hturn
  | wake =>
    cases h with
    | sent hpc hpending htimer => exact .sent hpc hpending htimer
    | closed hpc hpending htimer => exact .closed hpc hpending htimer
    | marked hpc hpending hstate => exact .marked hpc hpending hstate
    | testing hpc hpending hstate harmed => exact .testing hpc hpending hstate harmed
    | asleep hpc hpending hstate hsleep => exact .asleep hpc hpending hstate hsleep
  | jiffy =>
    rw [ProbeWait.step]
    split
    · next henabled =>
      have hdue : ¬ s.Due := fun hdue => hexpires ⟨rfl, henabled, hdue⟩
      rw [jiffy_of_not_due hdue]
      cases h with
      | sent hpc hpending htimer => exact .sent hpc hpending htimer
      | asleep hpc hpending hstate hsleep =>
        exact .asleep hpc hpending hstate (hsleep.tick hdue _)
      | closed hpc => rw [hpc] at henabled; cases henabled
      | marked hpc => rw [hpc] at henabled; cases henabled
      | testing hpc => rw [hpc] at henabled; cases henabled
    · exact h

theorem Before.run (h : Before timeout s) {turns : List Turn} (hturns : .ack ∉ turns)
    (hnever : NeverExpires timeout s turns) : Before timeout (run timeout s turns) := by
  induction turns generalizing s with
  | nil => exact h
  | cons turn turns ih =>
    obtain ⟨hturn, hrest⟩ := not_or.mp (fun hmem => hturns (List.mem_cons.mpr hmem))
    exact ih (h.step (fun heq => hturn heq.symm) hnever.1) hrest hnever.2

/-! ## A caught acknowledge -/

/-- The acknowledge is pending or has been seen, and `bu_ready` returns 0 in so many turns of the
process. -/
inductive Caught (timeout : Nat) : Nat → Wait → Prop
  | closed {s : Wait} (hpc : s.pc = .closed) (hpending : s.pending = true) : Caught timeout 8 s
  | marked {s : Wait} (hpc : s.pc = .marked) (hpending : s.pending = true)
      (hstate : s.buState = .wait) : Caught timeout 7 s
  | waiting {s : Wait} (hpc : s.pc = .testing) (hpending : s.pending = true)
      (hstate : s.buState = .wait) (harmed : Armed timeout s) : Caught timeout 6 s
  | asleep {s : Wait} (hpc : s.pc = .asleep) (hpending : s.pending = false)
      (hstate : s.buState = .ready) (hwoken : s.woken = true) (hsleep : Sleeping timeout s) :
      Caught timeout 5 s
  | testing {s : Wait} (hpc : s.pc = .testing) (hpending : s.pending = false)
      (hstate : s.buState = .ready) : Caught timeout 4 s
  | leaving {s : Wait} (hpc : s.pc = .leaving) (hpending : s.pending = false)
      (hstate : s.buState = .ready) : Caught timeout 3 s
  | opened {s : Wait} (hpc : s.pc = .opened) (hpending : s.pending = false)
      (hstate : s.buState = .ready) : Caught timeout 2 s
  | deleted {s : Wait} (hpc : s.pc = .deleted) (hstate : s.buState = .ready)
      (htimer : s.timer = none) : Caught timeout 1 s
  | returned {s : Wait} (hpc : s.pc = .returned true) (htimer : s.timer = none) :
      Caught timeout 0 s

theorem Caught.advance {left : Nat} (h : Caught timeout left s) :
    Caught timeout (left - 1) (s.advance timeout) := by
  rw [Wait.advance]
  cases h with
  | closed hpc hpending =>
    rw [hpc]
    exact .marked rfl hpending rfl
  | marked hpc hpending hstate =>
    rw [hpc]
    exact .waiting rfl hpending hstate ⟨_, rfl, Nat.le_add_right _ _, Nat.le_refl _⟩
  | waiting hpc hpending hstate harmed =>
    -- the pending interrupt is taken as soon as the process sleeps
    rw [hpc]
    dsimp only
    rw [if_pos hstate, deliver_of_pending (by exact hpending)]
    exact .asleep rfl rfl rfl rfl (harmed.sleep rfl rfl rfl)
  | asleep hpc hpending hstate hwoken hsleep =>
    rw [hpc]
    dsimp only
    rw [if_pos hwoken, if_neg hsleep.not_over]
    exact .testing rfl hpending hstate
  | testing hpc hpending hstate =>
    rw [hpc]
    dsimp only
    rw [if_neg (by rw [hstate]; decide)]
    exact .leaving rfl hpending hstate
  | leaving hpc hpending hstate =>
    rw [hpc]
    dsimp only
    rw [deliver_of_not_pending (by exact hpending)]
    exact .opened rfl hpending hstate
  | opened hpc hpending hstate =>
    rw [hpc]
    exact .deleted rfl hstate rfl
  | deleted hpc hstate htimer =>
    rw [hpc]
    exact .returned (by simp [hstate]) htimer
  | returned hpc htimer =>
    rw [hpc]
    exact .returned hpc htimer

/-- A turn of somebody else changes nothing, unless the timer goes off. -/
theorem Caught.other {left : Nat} (h : Caught timeout left s) {turn : Turn} (hrun : turn ≠ .run)
    (hack : turn ≠ .ack) (hexpires : ¬ Expires s turn) :
    Caught timeout left (ProbeWait.step timeout s turn) := by
  cases turn with
  | run => exact absurd rfl hrun
  | ack => exact absurd rfl hack
  | wake =>
    cases h with
    | closed hpc hpending => exact .closed hpc hpending
    | marked hpc hpending hstate => exact .marked hpc hpending hstate
    | waiting hpc hpending hstate harmed => exact .waiting hpc hpending hstate harmed
    | asleep hpc hpending hstate hwoken hsleep => exact .asleep hpc hpending hstate rfl hsleep
    | testing hpc hpending hstate => exact .testing hpc hpending hstate
    | leaving hpc hpending hstate => exact .leaving hpc hpending hstate
    | opened hpc hpending hstate => exact .opened hpc hpending hstate
    | deleted hpc hstate htimer => exact .deleted hpc hstate htimer
    | returned hpc htimer => exact .returned hpc htimer
  | jiffy =>
    rw [ProbeWait.step]
    split
    · next henabled =>
      have hdue : ¬ s.Due := fun hdue => hexpires ⟨rfl, henabled, hdue⟩
      rw [jiffy_of_not_due hdue]
      cases h with
      | asleep hpc hpending hstate hwoken hsleep =>
        exact .asleep hpc hpending hstate (by simp [hwoken]) (hsleep.tick hdue _)
      | opened hpc hpending hstate => exact .opened hpc hpending hstate
      | deleted hpc hstate htimer => exact .deleted hpc hstate htimer
      | returned hpc htimer => exact .returned hpc htimer
      | closed hpc => rw [hpc] at henabled; cases henabled
      | marked hpc => rw [hpc] at henabled; cases henabled
      | waiting hpc => rw [hpc] at henabled; cases henabled
      | testing hpc => rw [hpc] at henabled; cases henabled
      | leaving hpc => rw [hpc] at henabled; cases henabled
    · exact h

/-- The timer goes off behind the acknowledge. -/
theorem Caught.lost {left : Nat} (h : Caught timeout left s) {turn : Turn}
    (hexpires : Expires s turn) : Lost (step timeout s turn) := by
  obtain ⟨rfl, henabled, hdue⟩ := hexpires
  obtain ⟨hstate, hpc', hpending'⟩ := jiffy_of_due hdue
  rw [ProbeWait.step, if_pos henabled]
  have hwindow : s.pending = false ∧ s.pc ≠ .returned true := by
    obtain ⟨expires, htimer', -⟩ := hdue
    cases h with
    | asleep hpc hpending => exact ⟨hpending, by rw [hpc]; decide⟩
    | opened hpc hpending => exact ⟨hpending, by rw [hpc]; decide⟩
    | deleted hpc hstate htimer => rw [htimer] at htimer'; cases htimer'
    | returned hpc htimer => rw [htimer] at htimer'; cases htimer'
    | closed hpc => rw [hpc] at henabled; cases henabled
    | marked hpc => rw [hpc] at henabled; cases henabled
    | waiting hpc => rw [hpc] at henabled; cases henabled
    | testing hpc => rw [hpc] at henabled; cases henabled
    | leaving hpc => rw [hpc] at henabled; cases henabled
  refine ⟨hpending'.trans hwindow.1, ?_, .inr (.inr ?_)⟩
  · rw [hpc']
    exact hwindow.2
  · rw [hstate]
    decide

/-- **What is caught is returned**, unless the timer goes off first. -/
theorem Caught.run {left : Nat} (h : Caught timeout left s) {turns : List Turn}
    (hturns : .ack ∉ turns) :
    (NeverExpires timeout s turns →
        Caught timeout (left - turns.count .run) (run timeout s turns)) ∧
      (¬ NeverExpires timeout s turns → Lost (run timeout s turns)) := by
  induction turns generalizing s left with
  | nil => exact ⟨fun _ => h, fun hnever => absurd trivial hnever⟩
  | cons turn turns ih =>
    obtain ⟨hturn, hrest⟩ := not_or.mp (fun hmem => hturns (List.mem_cons.mpr hmem))
    have hack : turn ≠ .ack := fun heq => hturn heq.symm
    by_cases hexpires : Expires s turn
    · exact ⟨fun hnever => absurd hexpires hnever.1, fun _ => (h.lost hexpires).run hrest⟩
    · have hlost : ¬ NeverExpires timeout s (turn :: turns) →
          ¬ NeverExpires timeout (step timeout s turn) turns :=
        fun hnever hnever' => hnever ⟨hexpires, hnever'⟩
      by_cases hrun : turn = .run
      · subst hrun
        obtain ⟨hcaught, hgone⟩ := ih (s := step timeout s .run) h.advance hrest
        refine ⟨fun hnever => ?_, fun hnever => hgone (hlost hnever)⟩
        rw [List.count_cons_self, Nat.add_comm, Nat.sub_add_eq]
        exact hcaught hnever.2
      · obtain ⟨hcaught, hgone⟩ := ih (h.other hrun hack hexpires) hrest
        refine ⟨fun hnever => ?_, fun hnever => hgone (hlost hnever)⟩
        rw [List.count_cons_of_ne hrun]
        exact hcaught hnever.2

/-! ## The acknowledge -/

/-- Before `cli` the acknowledge is lost. -/
theorem Before.ack_lost (h : Before timeout s) (hpc : s.pc = .sent) :
    Lost (ProbeWait.step timeout s .ack) := by
  have hpending : s.pending = false := by
    cases h <;> assumption
  rw [ProbeWait.step, if_pos (by rw [hpc]; rfl)]
  exact ⟨hpending, by rw [Wait.buInterrupt, hpc]; decide, .inl hpc⟩

/-- After `cli` it is caught. -/
theorem Before.ack_caught (h : Before timeout s) (hpc : s.pc ≠ .sent) :
    ∃ left ≤ 8, Caught timeout left (ProbeWait.step timeout s .ack) := by
  rw [ProbeWait.step]
  cases h with
  | sent hsent => exact absurd hsent hpc
  | closed hclosed =>
    rw [if_neg (by rw [hclosed]; decide)]
    exact ⟨8, by decide, .closed hclosed rfl⟩
  | marked hmarked hpending hstate =>
    rw [if_neg (by rw [hmarked]; decide)]
    exact ⟨7, by decide, .marked hmarked rfl hstate⟩
  | testing htesting hpending hstate harmed =>
    rw [if_neg (by rw [htesting]; decide)]
    exact ⟨6, by decide, .waiting htesting rfl hstate harmed⟩
  | asleep hasleep hpending hstate hsleep =>
    rw [if_pos (by rw [hasleep]; rfl)]
    exact ⟨5, by decide, .asleep hasleep hpending rfl rfl hsleep⟩

theorem Caught.returned_of_zero (h : Caught timeout 0 s) : s.pc = .returned true := by
  cases h with
  | returned hpc => exact hpc

/-- **When `bu_ready` returns 0.**  The acknowledge of a byte comes at any point, before the
timeout, and the process gets enough turns after it.  Then `bu_ready` returns 0 exactly if the
process had disabled interrupts when the acknowledge came, and the timer does not go off between the
acknowledge and `del_timer`. -/
theorem bu_ready_iff (timeout : Nat) (s : Wait) (hs : Sent s) (before after : List Turn)
    (hbefore : .ack ∉ before) (hafter : .ack ∉ after) (hearly : NeverExpires timeout s before)
    (hturns : 8 ≤ after.count .run) :
    (run timeout s (before ++ .ack :: after)).pc = .returned true ↔
      (run timeout s before).pc ≠ .sent ∧
        NeverExpires timeout (step timeout (run timeout s before) .ack) after := by
  have hwait : Before timeout (run timeout s before) :=
    (Before.sent hs.pc hs.pending hs.timer).run hbefore hearly
  have hsplit : run timeout s (before ++ .ack :: after) =
      run timeout (step timeout (run timeout s before) .ack) after := by
    rw [run, List.foldl_append]
    rfl
  rw [hsplit]
  by_cases hpc : (run timeout s before).pc = .sent
  · exact ⟨fun hzero => absurd hzero ((hwait.ack_lost hpc).run hafter).unfinished,
      fun h => absurd hpc h.1⟩
  · obtain ⟨left, hleft, hcaught⟩ := hwait.ack_caught hpc
    obtain ⟨hreturned, hlost⟩ := hcaught.run hafter
    refine ⟨fun hzero => ⟨hpc, ?_⟩, fun ⟨_, hnever⟩ => ?_⟩
    · by_contra hnever
      exact (hlost hnever).unfinished hzero
    · have hdone := hreturned hnever
      rw [Nat.sub_eq_zero_of_le (hleft.trans hturns)] at hdone
      exact hdone.returned_of_zero

/-- Right after a byte. -/
def afterByte : Wait :=
  { pc := .sent
    jiffies := 0
    buState := .none
    timer := none
    pending := false
    woken := false
    sleepUntil := 0 }

/-- An acknowledge that comes when the process sleeps. -/
theorem bu_ready_asleep :
    (run 100 afterByte ([.run, .run, .run, .run] ++ .ack :: List.replicate 8 .run)).pc =
      .returned true :=
  (bu_ready_iff 100 afterByte ⟨rfl, rfl, rfl⟩ [.run, .run, .run, .run] (List.replicate 8 .run)
    (by decide) (by decide) (by simp [NeverExpires, Expires]) (by decide)).mpr
      ⟨by decide, by simp [List.replicate, NeverExpires, Expires]⟩

/-- With the timeout of the driver, 100 ticks: the card acknowledges before `bu_ready` disables
interrupts; and it acknowledges a sleeping process that gets to run only when the timer has gone
off. -/
theorem early_acknowledge_lost :
    (run 100 afterByte (.ack :: (List.replicate 4 .run ++ List.replicate 100 .jiffy ++
        List.replicate 5 .run))).pc = .returned false ∧
      (run 100 afterByte (List.replicate 4 .run ++ .ack :: (List.replicate 100 .jiffy ++
        List.replicate 5 .run))).pc = .returned false := by
  decide +kernel

end ProbeWait
end MemoryCard
end Blackroo
