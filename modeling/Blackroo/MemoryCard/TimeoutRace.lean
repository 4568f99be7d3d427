import Blackroo.MemoryCard.Liveness
import Blackroo.MemoryCard.Watched

/-!
# A timeout and a late acknowledge

`bu_timeout` is a timer function, and those run with interrupts enabled.  It looks at
`bu_current` and deletes the timer before it takes `io_request_lock`, so the acknowledge of
the card can still come in between, and `bu_interrupt` then ends the request or starts the
timer again behind its back.

In `buTimeoutRaced` any number of acknowledges comes before each of the instructions that
matter (`Race`).  The driver is under watch there, so that `end_request` without a
request and `init_timer` of a pending timer are faults (`Fault`).

`timeout_race_iff` says of every run exactly when neither of them happens.  A call goes well
if a request is still in service when it takes the lock, and no acknowledge has come since it
deleted the timer.  In one case more it goes well for the moment (`State.Starts`), but it
leaves the timer pending without a request, and the next transfer must not start before it has
expired.
-/

namespace Blackroo
namespace MemoryCard

open Runs

/-! ## The race -/

/-- An acknowledge interrupt: what the transfer reads, and what the first state of a new one
reads. -/
structure Ack where
  input : CardInput
  stale : CardInput

/-- The acknowledges that come during a timeout, by the instruction they come before. -/
structure Race where
  beforeState : List Ack
  beforeCurrent : List Ack
  beforeOpen : List Ack
  beforeDelTimer : List Ack
  beforeLock : List Ack

def Race.calm : Race := ⟨[], [], [], [], []⟩

/-- `bu_interrupt`, once for each acknowledge. -/
def interrupts (acks : List Ack) (s : State) : Except Fault State :=
  match run (fun s (a : Ack) => buInterrupt s a.input a.stale) s acks with
  | none => .error .crash
  | some s => .ok s

/-- `bu_timeout` up to the test of `bu_current`.  The timer was taken off its list when it
expired. -/
def State.atCheck (s : State) (w : Race) : Except Fault State := do
  let s ← interrupts w.beforeState (s.setTimer false)
  interrupts w.beforeCurrent { s with buState := .timeout }

/-- `bu_timeout` from `del_timer` up to `spin_lock_irqsave`. -/
def State.atLock (s : State) (w : Race) : Except Fault State := do
  let s ← interrupts w.beforeDelTimer s
  interrupts w.beforeLock (s.setTimer false)

/-- `bu_timeout`, when the timer is armed. -/
def buTimeoutRaced (s : State) (w : Race) (stale : CardInput) : Except Fault State := do
  if s.buTimer then
    let s ← s.atCheck w
    if s.buCurrent < 0 then return s
    else
      let s ← interrupts w.beforeOpen s
      if s.buOpen then return s
      else
        let s ← s.atLock w
        continueWatched s.failAttempt stale
  else return s

/-- An event of the driver, or a timeout that acknowledges run into. -/
inductive Happening where
  | event (e : Event)
  | timeout (w : Race) (stale : CardInput)

/-- One event under watch.  The timer is also initialised by `bu_ready`; the other events do not
touch it, or delete it first. -/
def watched (s : State) : Happening → Except Fault State
  | .timeout w stale => buTimeoutRaced s w stale
  | .event (.timeout stale) => buTimeoutRaced s .calm stale
  | .event (.arrive r pos stale) =>
    if (s.queueUp r pos).plugged then .ok (s.queueUp r pos)
    else doBuRequestWatched (s.queueUp r pos) stale
  | .event (.unplug stale) =>
    if s.plugged && !s.queue.isEmpty then doBuRequestWatched { s with plugged := false } stale
    else .ok { s with plugged := false }
  | .event (.retry stale) =>
    if s.buRetryArmed then doBuRequestWatched { s with buRetryArmed := false } stale else .ok s
  | .event .sweepWait =>
    if s.sweep = .probing ∧ s.buTimer = true then .error .timer else .ok (sweepWait s)
  | .event e =>
    match step s e with
    | none => .error .crash
    | some s => .ok s

/-! ## The condition -/

/-- If `bu_timeout` has found a request in service, there is one when it takes the lock, and no
acknowledge has come since it deleted the timer, or nothing is started any more. -/
def Race.Clear (w : Race) (s : State) : Prop :=
  s.buTimer = true → ∀ u v, s.atCheck w = .ok u → 0 ≤ u.buCurrent → u.buOpen = false →
    (interrupts w.beforeOpen u >>= fun u => u.atLock w) = .ok v →
      0 ≤ v.buCurrent ∧ (w.beforeLock = [] ∨ ¬ v.Starts)

/-- The condition for an event.  A timer that is pending while the bus is free is one that a
timeout has left behind. -/
def Happening.Clear (s : State) : Happening → Prop
  | .timeout w _ => w.Clear s
  | .event (.arrive r pos _) =>
    s.plugged = false → s.queue ≠ [] → s.buTimer = true → s.buLock = false →
      ∀ r' ∈ enqueue r (s.fixed + pos) s.queue, ¬ Startable s.joined r'
  | .event (.unplug _) =>
    s.plugged = true → s.buTimer = true → s.buLock = false →
      ∀ r ∈ s.queue, ¬ Startable s.joined r
  | .event (.retry _) =>
    s.buRetryArmed = true → s.buTimer = true → s.buLock = false →
      ∀ r ∈ s.queue, ¬ Startable s.joined r
  | .event .sweepWait => s.sweep = .probing → s.buTimer = false
  | .event _ => True

/-! ## Acknowledges during a timeout -/

/-- A timeout has found a request in service: one is still in service, with the timer pending or
not, or all have been ended since. -/
inductive InCall (s : State) : Prop
  | serving {t : State} {r : Request} {rest : List Request} {b : Bool} (hs : s = t.setTimer b)
      (h : Serving t r rest) (hlog : Log t) (hsweep : Unswept t)
  | done (h : Free s) (hq : s.queue = []) (hlog : Log s) (hsweep : Unswept s)
      (hidle : ¬ s.Attempts)

theorem InCall.closed {s : State} (h : InCall s) : s.buOpen = false := by
  cases h with
  | serving hs h => rw [hs]; exact h.closed
  | done h => exact h.off.closed

theorem InCall.setTimer {s : State} (h : InCall s) : InCall (s.setTimer false) := by
  cases h with
  | serving hs h hlog hsweep => exact .serving (by rw [hs]; rfl) h hlog hsweep
  | done h hq hlog hsweep hidle =>
    have hsame : s.setTimer false = s := by
      rw [← h.off.timer]
      rfl
    rw [hsame]
    exact .done h hq hlog hsweep hidle

theorem InCall.setState {s : State} (h : InCall s) (st : BuState) :
    InCall { s with buState := st } := by
  cases h with
  | @serving t r rest b hs h hlog hsweep =>
    refine .serving (t := { t with buState := st }) (b := b) (by rw [hs]; rfl)
      ⟨⟨h.lock, h.owners, h.current, h.closed, h.queue, h.mode, h.steps, h.short, h.try_le,
        h.rejected, h.acks, fun ho => ⟨(h.taken ho).start, (h.taken ho).len, (h.taken ho).mode,
          (h.taken ho).served⟩⟩, h.timer, h.step_lt, h.tries, h.acks_lt, h.underWay⟩
      ⟨hlog.ended, hlog.ids, hlog.locks, hlog.count, hlog.buffer⟩ hsweep
  | done h hq hlog hsweep hidle =>
    obtain ⟨⟨h₁, h₂, h₃, h₄, h₅⟩, h₆, h₇⟩ := h
    exact .done ⟨⟨h₁, h₂, h₃, h₄, h₅⟩, h₆, h₇⟩ hq
      ⟨hlog.ended, hlog.ids, hlog.locks, hlog.count, hlog.buffer⟩ hsweep hidle

/-- All requests have been ended: the driver is as it should be. -/
theorem InCall.inv {s : State} (h : InCall s) (hcur : s.buCurrent < 0) : Inv s := by
  cases h with
  | serving hs h => exact absurd h.current (Int.not_le.mpr (by rw [hs] at hcur; exact hcur))
  | done h hq hlog hsweep => exact ⟨hlog, .free h hsweep, fun hne => absurd hq hne⟩

/-- `bu_interrupt` deletes the timer or modifies it, so it does not depend on it. -/
theorem buInterrupt_setTimer {s : State} (hcur : 0 ≤ s.buCurrent) (hopen : s.buOpen = false)
    (b : Bool) (input stale : CardInput) :
    buInterrupt (s.setTimer b) input stale = buInterrupt s input stale := by
  unfold buInterrupt
  rw [if_neg (Int.not_lt.mpr hcur), if_neg (Bool.eq_false_iff.mp hopen),
    if_neg (show ¬ (s.setTimer b).buCurrent < 0 from Int.not_lt.mpr hcur),
    if_neg (show ¬ (s.setTimer b).buOpen = true from Bool.eq_false_iff.mp hopen)]
  rfl

/-- Where an acknowledge leaves no request in service, no attempt is left to make. -/
theorem Serving.interrupt_idle {s s' : State} {r : Request} {rest : List Request}
    (h : Serving s r rest) (hlog : Log s) {input stale : CardInput}
    (heq : buInterrupt s input stale = some s') (hcur : s'.buCurrent < 0) : ¬ s'.Attempts := by
  rcases h.interrupt_cases hlog input stale with ⟨t, ht, hserving, -⟩ | ⟨t, r', ht, hret⟩
  · obtain rfl := Option.some.inj (ht.symm.trans heq)
    exact absurd hserving.current (Int.not_le.mpr hcur)
  · exact (hret.due.continue_starts hret.log (ht.symm.trans heq)).2 hcur

/-- **One acknowledge** during a timeout: the timer is pending afterwards, if a request is in
service. -/
theorem InCall.interrupt {s : State} (h : InCall s) (a : Ack) :
    ∃ s', buInterrupt s a.input a.stale = some s' ∧ InCall s' ∧
      (0 ≤ s'.buCurrent → s'.buTimer = true) := by
  cases h with
  | serving hs h hlog hsweep =>
    obtain ⟨s', heq, hsettled, -⟩ := h.interrupt hlog a.input a.stale
    rw [hs, buInterrupt_setTimer h.current h.closed]
    have hsweep' : Unswept s' := by
      unfold Unswept
      rw [hsettled.frame.sweep]
      exact hsweep
    rcases hsettled.place with ⟨hfree, hq⟩ | ⟨r', rest', hserving⟩
    · have hcur : s'.buCurrent < 0 := by
        rw [hfree.off.current]
        decide
      exact ⟨s', heq, .done hfree hq hsettled.log hsweep' (h.interrupt_idle hlog heq hcur),
        fun h0 => absurd h0 (Int.not_le.mpr hcur)⟩
    · exact ⟨s', heq, .serving rfl hserving hsettled.log hsweep', fun _ => hserving.timer⟩
  | done h hq hlog hsweep hidle =>
    have hcur : s.buCurrent < 0 := by
      rw [h.off.current]
      decide
    exact ⟨s, if_pos hcur, .done h hq hlog hsweep hidle,
      fun h0 => absurd h0 (Int.not_le.mpr hcur)⟩

theorem interrupts_cons {a : Ack} {acks : List Ack} {s t : State}
    (h : buInterrupt s a.input a.stale = some t) :
      interrupts (a :: acks) s = interrupts acks t := by
  have hrun : run (fun s (a : Ack) => buInterrupt s a.input a.stale) s (a :: acks) =
      run (fun s (a : Ack) => buInterrupt s a.input a.stale) t acks := by
    rw [run, h]
    rfl
  rw [interrupts, interrupts, hrun]

/-- **The acknowledges of one window.** -/
theorem InCall.interrupts {s : State} (h : InCall s) (acks : List Ack) :
    ∃ s', interrupts acks s = .ok s' ∧ InCall s' ∧ (acks = [] → s' = s) ∧
      (acks ≠ [] → 0 ≤ s'.buCurrent → s'.buTimer = true) := by
  induction acks generalizing s with
  | nil => exact ⟨s, rfl, h, fun _ => rfl, fun hne => absurd rfl hne⟩
  | cons a acks ih =>
    obtain ⟨t, ht, hcall, htimer⟩ := h.interrupt a
    obtain ⟨s', hs', hcall', hsame, htimer'⟩ := ih hcall
    refine ⟨s', (interrupts_cons ht).trans hs', hcall',
      fun hnil => (nomatch hnil), fun _ hcur => ?_⟩
    by_cases hacks : acks = []
    · rw [hsame hacks] at hcur ⊢
      exact htimer hcur
    · exact htimer' hacks hcur

/-- Acknowledges while no request is in service only wake a sweep. -/
theorem interrupts_quiet {s : State} (h : Inv s) (hblock : Owner.block ∉ s.owners)
    (acks : List Ack) :
    ∃ st, interrupts acks s = .ok { s with buState := st } ∧ Inv { s with buState := st } := by
  induction acks generalizing s with
  | nil => exact ⟨s.buState, rfl, h⟩
  | cons a acks ih =>
    obtain ⟨t, ht, ⟨r, rest, hserving, -⟩ | ⟨-, st, rfl⟩⟩ := buInterrupt_spec h a.input a.stale
    · exact absurd hserving.inFlight.1 hblock
    · obtain ⟨st', hst', hinv⟩ := ih (h.woken hblock st fun hf => hf) hblock
      exact ⟨st', (interrupts_cons ht).trans hst', hinv⟩

/-! ## What a run keeps -/

/-- **The invariant of the driver under watch**: that of the driver, or the timer is pending
although nobody waits for it. -/
inductive Kept (s : State) : Prop
  | inv (h : Inv s)
  | pending {t : State} (hs : s = t.setTimer true) (h : Inv t) (htimer : t.buTimer = false)
      (hsweep : t.sweep ≠ .waiting)

/-- The two faults a late acknowledge leads to. -/
def LateFault (f : Fault) : Prop := f = .endRequest ∨ f = .timer

theorem Inv.kept_setTimer {s : State} (h : Inv s) (htimer : s.buTimer = false)
    (hsweep : s.sweep ≠ .waiting) (b : Bool) : Kept (s.setTimer b) := by
  cases b with
  | true => exact .pending rfl h htimer hsweep
  | false =>
    have hsame : s.setTimer false = s := by
      rw [← htimer]
      rfl
    rw [hsame]
    exact .inv h

theorem Unswept.ne_waiting {s : State} (h : Unswept s) : s.sweep ≠ .waiting := by
  rcases h with h | h <;> rw [h] <;> decide

/-- What the watch makes of a request function that is through. -/
theorem Settled.judged {s s' : State} {clear : Prop} (h : Settled s s') (hs : Unswept s) (b : Bool)
    (hclear : clear ↔ (b = true → ¬ 0 ≤ s'.buCurrent)) :
    Judged Kept LateFault clear (watch b (some s')) := by
  have hinv : Inv s' := h.inv hs
  rw [watch]
  by_cases hcur : 0 ≤ s'.buCurrent
  · rw [if_pos hcur]
    cases b with
    | true => exact .error (fun hc => hclear.mp hc rfl hcur) (.inr rfl)
    | false => exact .ok (hclear.mpr fun hb => (nomatch hb)) (.inv hinv)
  · rw [if_neg hcur]
    refine .ok (hclear.mpr fun _ => hcur) (hinv.kept_setTimer ?_ ?_ b)
    · rcases h.place with ⟨hfree, -⟩ | ⟨r, rest, hserving⟩
      · exact hfree.off.timer
      · exact absurd hserving.current hcur
    · rw [h.frame.sweep]
      exact hs.ne_waiting

/-! ## Timeouts -/

theorem Race.clear_iff_lock {w : Race} {s u v : State} (htimer : s.buTimer = true)
    (hcheck : s.atCheck w = .ok u) (hcur : 0 ≤ u.buCurrent) (hopen : u.buOpen = false)
    (hlock : (interrupts w.beforeOpen u >>= fun u => u.atLock w) = .ok v) :
    w.Clear s ↔ 0 ≤ v.buCurrent ∧ (w.beforeLock = [] ∨ ¬ v.Starts) := by
  refine ⟨fun h => h htimer u v hcheck hcur hopen hlock, fun h _ u' v' hcheck' _ _ hlock' => ?_⟩
  obtain rfl := Except.ok.inj (hcheck.symm.trans hcheck')
  obtain rfl := Except.ok.inj (hlock.symm.trans hlock')
  exact h

/-- `bu_timeout` from the lock on. -/
theorem InCall.judged {v : State} (h : InCall v) (acks : List Ack)
    (hcalm : acks = [] → v.buTimer = false) (hlate : acks ≠ [] → 0 ≤ v.buCurrent → v.buTimer = true)
    (stale : CardInput) :
    Judged Kept LateFault (0 ≤ v.buCurrent ∧ (acks = [] ∨ ¬ v.Starts))
      (continueWatched v.failAttempt stale) := by
  cases h with
  | done h hq hlog hsweep hidle =>
    have hq' : v.failAttempt.queue = [] := hq
    have hidle' : ¬ v.failAttempt.Attempts := hidle
    rw [continueWatched]
    simp only [hq', if_neg hidle']
    exact .error (fun hc => absurd hc.1 (by rw [h.off.current]; decide)) (.inl rfl)
  | @serving t r rest b hs h hlog hsweep =>
    have hret := h.returned_of_giveUp hlog t.buState
    have hfail : v.failAttempt =
        ({ t with buState := t.buState, buTimer := false }.failAttempt).setTimer b := by
      rw [hs]
      rfl
    have hcur : 0 ≤ v.buCurrent := by
      rw [hs]
      exact h.current
    have hb : v.buTimer = b := by
      rw [hs]
      rfl
    obtain ⟨s', heq, hsettled, -⟩ := hret.settles stale
    have hstarts : 0 ≤ s'.buCurrent ↔ v.Starts := by
      rw [hs]
      exact (hret.due.continue_starts hret.log heq).1
    rw [hfail, continueWatched_eq stale b hret.due.queue hret.due.current, heq]
    refine hsettled.judged hsweep b ?_
    rw [hstarts]
    constructor
    · rintro ⟨-, hacks | hns⟩ hbt
      · exact absurd (hb.trans hbt) (by rw [hcalm hacks]; exact Bool.false_ne_true)
      · exact hns
    · intro hns
      refine ⟨hcur, ?_⟩
      by_cases hacks : acks = []
      · exact .inl hacks
      · exact .inr (hns (hb.symm.trans (hlate hacks hcur)))

/-- **A timeout while a request is in service.** -/
theorem Serving.judged {s : State} {r : Request} {rest : List Request} (h : Serving s r rest)
    (hlog : Log s) (hsweep : Unswept s) (w : Race) (stale : CardInput) :
    Judged Kept LateFault (w.Clear s) (buTimeoutRaced s w stale) := by
  have hstart : InCall (s.setTimer false) := .serving rfl h hlog hsweep
  obtain ⟨u₀, hu₀, hcall₀, -⟩ := hstart.interrupts w.beforeState
  obtain ⟨u₁, hu₁, hcall₁, -⟩ := (hcall₀.setState .timeout).interrupts w.beforeCurrent
  have hcheck : s.atCheck w = .ok u₁ := by
    rw [State.atCheck, hu₀]
    exact hu₁
  rw [buTimeoutRaced, if_pos h.timer, hcheck]
  show Judged Kept LateFault (w.Clear s) (if u₁.buCurrent < 0 then pure u₁ else _)
  by_cases hcur : u₁.buCurrent < 0
  · rw [if_pos hcur]
    refine .ok ?_ (.inv (hcall₁.inv hcur))
    intro _ u v hu hcur'
    obtain rfl := Except.ok.inj (hcheck.symm.trans hu)
    exact absurd hcur' (Int.not_le.mpr hcur)
  · obtain ⟨u₂, hu₂, hcall₂, -⟩ := hcall₁.interrupts w.beforeOpen
    obtain ⟨u₃, hu₃, hcall₃, -⟩ := hcall₂.interrupts w.beforeDelTimer
    obtain ⟨v, hv, hcall, hcalm, hlate⟩ := hcall₃.setTimer.interrupts w.beforeLock
    have hlock : u₂.atLock w = .ok v := by
      rw [State.atLock, hu₃]
      exact hv
    rw [if_neg hcur, hu₂]
    show Judged Kept LateFault (w.Clear s) (if u₂.buOpen = true then pure u₂ else _)
    rw [if_neg (Bool.eq_false_iff.mp hcall₂.closed), hlock]
    have hclear := Race.clear_iff_lock h.timer hcheck (Int.not_lt.mp hcur) hcall₁.closed
      (by rw [hu₂]; exact hlock)
    refine (hcall.judged w.beforeLock (fun hnil => ?_) hlate stale).congr hclear.symm
    rw [hcalm hnil]
    rfl

/-- **A timeout while no request is in service.** -/
theorem judged_quiet {s : State} (hkept : Kept s) (h : Inv (s.setTimer false))
    (hblock : Owner.block ∉ s.owners) (w : Race) (stale : CardInput) :
    Judged Kept LateFault (w.Clear s) (buTimeoutRaced s w stale) := by
  by_cases htimer : s.buTimer = true
  · obtain ⟨st₀, hu₀, hinv₀⟩ := interrupts_quiet h hblock w.beforeState
    obtain ⟨st₁, hu₁, hinv₁⟩ :=
      interrupts_quiet (hinv₀.woken hblock .timeout fun hf => hf) hblock w.beforeCurrent
    have hcheck : s.atCheck w = .ok { s with buTimer := false, buState := st₁ } := by
      rw [State.atCheck, hu₀]
      exact hu₁
    have hclear (hoff : s.buCurrent < 0 ∨ s.buOpen = true) : w.Clear s := by
      intro _ u v hu hcur hopen
      obtain rfl := Except.ok.inj (hcheck.symm.trans hu)
      rcases hoff with hoff | hoff
      · exact absurd hcur (Int.not_le.mpr hoff)
      · exact absurd hopen (Bool.eq_false_iff.not_left.mpr hoff)
    rw [buTimeoutRaced, if_pos htimer, hcheck]
    show Judged Kept LateFault (w.Clear s) (if s.buCurrent < 0 then pure _ else _)
    rcases h.outside with ⟨r, rest, hserving, -⟩ | ⟨-, hoff | ⟨hcur, hopen⟩⟩
    · exact absurd hserving.inFlight.1 hblock
    · have hcur : s.buCurrent < 0 := by
        rw [show s.buCurrent = -1 from hoff.current]
        decide
      rw [if_pos hcur]
      exact .ok (hclear (.inl hcur)) (.inv hinv₁)
    · obtain ⟨st₂, hu₂, hinv₂⟩ := interrupts_quiet hinv₁ hblock w.beforeOpen
      have hu₂' : interrupts w.beforeOpen { s with buTimer := false, buState := st₁ } =
          .ok { s with buTimer := false, buState := st₂ } := hu₂
      rw [if_neg (by rw [show s.buCurrent = 0 from hcur]; decide), hu₂']
      show Judged Kept LateFault (w.Clear s) (if s.buOpen = true then pure _ else _)
      rw [if_pos (show s.buOpen = true from hopen)]
      exact .ok (hclear (.inr hopen)) (.inv hinv₂)
  · rw [buTimeoutRaced, if_neg htimer]
    exact .ok (fun ht => absurd ht htimer) hkept

/-- **A timeout**, whatever the driver is doing. -/
theorem Kept.timeout {s : State} (h : Kept s) (w : Race) (stale : CardInput) :
    Judged Kept LateFault (w.Clear s) (buTimeoutRaced s w stale) := by
  cases h with
  | inv hinv =>
    rcases hinv.outside with ⟨r, rest, hserving, hsweep⟩ | ⟨hblock, -⟩
    · exact hserving.judged hinv.log hsweep w stale
    · exact judged_quiet (.inv hinv) (hinv.woken hblock s.buState fun _ => rfl) hblock w stale
  | @pending t hs hinv htimer hsweep =>
    rcases hinv.outside with ⟨r, rest, hserving, -⟩ | ⟨hblock, -⟩
    · exact absurd hserving.timer (by rw [htimer]; exact Bool.false_ne_true)
    · have hblock' : Owner.block ∉ s.owners := by
        rw [hs]
        exact hblock
      refine judged_quiet (.pending hs hinv htimer hsweep) ?_ hblock' w stale
      rw [hs]
      exact hinv.woken hblock t.buState fun _ => rfl

/-- A timeout that no acknowledge runs into is always clear. -/
theorem clear_calm (s : State) : Race.calm.Clear s := by
  intro _ u v _ hcur _ hlock
  obtain rfl : u.setTimer false = v := Except.ok.inj hlock
  exact ⟨hcur, .inl rfl⟩

/-! ## The other events -/

/-- A state of a run, but for the timer. -/
def Timed (t : State) (b : Bool) : Prop := b = t.buTimer ∨ t.buTimer = false ∧ t.sweep ≠ .waiting

theorem Inv.kept {t : State} (hinv : Inv t) {b : Bool} (hb : Timed t b) : Kept (t.setTimer b) := by
  rcases hb with rfl | ⟨htimer, hsweep⟩
  · exact .inv hinv
  · exact hinv.kept_setTimer htimer hsweep b

theorem Kept.timed {s : State} (h : Kept s) : ∃ t b, s = t.setTimer b ∧ Inv t ∧ Timed t b := by
  cases h with
  | inv hinv => exact ⟨s, s.buTimer, rfl, hinv, .inl rfl⟩
  | pending hs hinv htimer hsweep => exact ⟨_, true, hs, hinv, .inr ⟨htimer, hsweep⟩⟩

/-- **The request function**, called by the block layer or by `bu_retry`. -/
theorem doBuRequestWatched_judged {t : State} (hlog : Log t) (hplace : Place t) {b : Bool}
    (hb : Timed t b) (stale : CardInput) :
    Judged Kept LateFault
      (b = true → t.buLock = false → ∀ r ∈ t.queue, ¬ Startable t.joined r)
      (doBuRequestWatched (t.setTimer b) stale) := by
  have hbusy (hlock : t.buLock = true) : Judged Kept LateFault
      (b = true → t.buLock = false → ∀ r ∈ t.queue, ¬ Startable t.joined r)
      (doBuRequestWatched (t.setTimer b) stale) := by
    have hinv : Inv t.armRetry :=
      ⟨hlog.timed t.plugged true, hplace.timed t.plugged true, fun _ => .inr (.inl rfl)⟩
    rw [doBuRequestWatched, if_pos (show (t.setTimer b).buLock = true from hlock)]
    refine .ok (fun _ hfree => absurd (hlock.symm.trans hfree) (by decide)) ?_
    exact hinv.kept (t := t.armRetry) hb
  cases hplace with
  | serving h hs => exact hbusy h.lock
  | held h hs => exact hbusy h.lock
  | sweeping h => exact hbusy h.lock
  | free h hs =>
    obtain ⟨s', heq, hsettled⟩ := startLoop_spec stale h hlog rfl
    obtain ⟨hstarts, -⟩ := startLoop_starts stale h hlog rfl heq
    have hcur : t.buCurrent < 0 := by
      rw [h.off.current]
      decide
    rw [doBuRequestWatched,
      if_neg (show ¬ (t.setTimer b).buLock = true from Bool.eq_false_iff.mp h.lock)]
    show Judged Kept LateFault _ (startWatched stale t.queue (t.setTimer b))
    rw [startWatched_eq stale b t.queue hcur, heq]
    refine hsettled.judged hs b ?_
    rw [hstarts]
    exact ⟨fun hc hbt ⟨r, hr, hstart⟩ => hc hbt h.lock r hr hstart,
      fun hc hbt _ r hr hstart => hc hbt ⟨r, hr, hstart⟩⟩

theorem Kept.arrive {s : State} (h : Kept s) (r : Request) (pos : Nat) (stale : CardInput) :
    Judged Kept LateFault (Happening.Clear s (.event (.arrive r pos stale)))
      (watched s (.event (.arrive r pos stale))) := by
  obtain ⟨t, b, rfl, hinv, hb⟩ := h.timed
  obtain ⟨hlog, hplace⟩ := hinv.queued r pos
  show Judged Kept LateFault (t.plugged = false → t.queue ≠ [] → _)
    (if (t.queueUp r pos).plugged = true then _ else _)
  by_cases hplugged : (t.queueUp r pos).plugged = true
  · rw [if_pos hplugged]
    refine .ok (fun hopen hq => ?_) (Inv.kept (t := t.queueUp r pos)
      ⟨hlog, hplace, fun _ => .inr (.inr hplugged)⟩ hb)
    exact absurd hplugged (by simp [State.queueUp, hopen, hq])
  · rw [if_neg hplugged]
    obtain ⟨hopen, hq⟩ : t.plugged = false ∧ t.queue ≠ [] := by
      simpa [State.queueUp] using hplugged
    refine Judged.congr ?_ (doBuRequestWatched_judged (t := t.queueUp r pos) hlog hplace hb stale)
    exact ⟨fun hc _ _ => hc, fun hc => hc hopen hq⟩

theorem Kept.unplug {s : State} (h : Kept s) (stale : CardInput) :
    Judged Kept LateFault (Happening.Clear s (.event (.unplug stale)))
      (watched s (.event (.unplug stale))) := by
  obtain ⟨t, b, rfl, hinv, hb⟩ := h.timed
  have hlog := hinv.log.timed false t.buRetryArmed
  have hplace := hinv.place.timed false t.buRetryArmed
  show Judged Kept LateFault (t.plugged = true → _)
    (if (t.plugged && !t.queue.isEmpty) = true then _ else _)
  by_cases hidle : (t.plugged && !t.queue.isEmpty) = true
  · rw [if_pos hidle]
    refine Judged.congr (forall_prop_of_true (Bool.and_elim_left hidle)).symm ?_
    exact doBuRequestWatched_judged (t := { t with plugged := false }) hlog hplace hb stale
  · rw [if_neg hidle]
    obtain ⟨t', heq, hinv'⟩ := unplug_inv hinv stale
    rw [MemoryCard.unplug, if_neg hidle] at heq
    rw [← Option.some.inj heq] at hinv'
    refine .ok (fun hplugged _ _ r hr => absurd ?_ hidle)
      (Inv.kept (t := { t with plugged := false }) hinv' hb)
    simp [show t.plugged = true from hplugged, List.ne_nil_of_mem (show r ∈ t.queue from hr)]

theorem Kept.retry {s : State} (h : Kept s) (stale : CardInput) :
    Judged Kept LateFault (Happening.Clear s (.event (.retry stale)))
      (watched s (.event (.retry stale))) := by
  obtain ⟨t, b, rfl, hinv, hb⟩ := h.timed
  show Judged Kept LateFault (t.buRetryArmed = true → _) (if t.buRetryArmed = true then _ else _)
  by_cases harmed : t.buRetryArmed = true
  · rw [if_pos harmed]
    refine Judged.congr (forall_prop_of_true harmed).symm ?_
    exact doBuRequestWatched_judged (t := { t with buRetryArmed := false })
      (hinv.log.timed t.plugged false) (hinv.place.timed t.plugged false) hb stale
  · rw [if_neg harmed]
    exact .ok (fun ha => absurd ha harmed) h

theorem Kept.sweepWait {s : State} (h : Kept s) :
    Judged Kept LateFault (s.sweep = .probing → s.buTimer = false)
      (watched s (.event .sweepWait)) := by
  show Judged Kept LateFault _ (if s.sweep = .probing ∧ s.buTimer = true then _ else _)
  by_cases hpending : s.sweep = .probing ∧ s.buTimer = true
  · rw [if_pos hpending]
    exact .error (fun hc => absurd hpending.2 (by rw [hc hpending.1]; exact Bool.false_ne_true))
      (.inr rfl)
  · rw [if_neg hpending]
    refine .ok (fun hp => Bool.eq_false_iff.mpr fun ht => hpending ⟨hp, ht⟩) ?_
    cases h with
    | inv hinv => exact .inv (sweepWait_inv hinv)
    | pending hs hinv htimer hsweep =>
      have hne : ¬ s.sweep = .probing := fun hp => hpending ⟨hp, by rw [hs]; rfl⟩
      rw [Blackroo.MemoryCard.sweepWait, if_neg hne]
      exact .pending hs hinv htimer hsweep

/-- An operation that has nothing to do with the timer, unless a sweep is waiting for it. -/
structure Untimed (f : State → State) : Prop where
  inv : ∀ t, Inv t → Inv (f t)
  timer : ∀ t, t.sweep ≠ .waiting → (f t).buTimer = t.buTimer
  sweep : ∀ t, t.sweep ≠ .waiting → (f t).sweep ≠ .waiting
  setTimer : ∀ t, t.sweep ≠ .waiting → f (t.setTimer true) = (f t).setTimer true

theorem Untimed.kept {f : State → State} (hf : Untimed f) {s : State} (h : Kept s) :
    Kept (f s) := by
  cases h with
  | inv hinv => exact .inv (hf.inv s hinv)
  | @pending t hs hinv htimer hsweep =>
    refine .pending (t := f t) ?_ (hf.inv t hinv) ((hf.timer t hsweep).trans htimer)
      (hf.sweep t hsweep)
    rw [hs]
    exact hf.setTimer t hsweep

/-- It is enough to look at what is done where something is done. -/
theorem untimed_of_ite {c : State → Prop} [DecidablePred c] {g : State → State}
    (hinv : ∀ t, Inv t → Inv (if c t then g t else t)) (hc : ∀ t, c (t.setTimer true) ↔ c t)
    (htimer : ∀ t, (g t).buTimer = t.buTimer)
    (hsweep : ∀ t, t.sweep ≠ .waiting → (g t).sweep ≠ .waiting)
    (hg : ∀ t, g (t.setTimer true) = (g t).setTimer true) :
    Untimed fun t => if c t then g t else t := by
  refine ⟨hinv, fun t _ => ?_, fun t h => ?_, fun t _ => ?_⟩
  · split
    · exact htimer t
    · rfl
  · split
    · exact hsweep t h
    · exact h
  · by_cases hct : c t
    · rw [if_pos hct, if_pos ((hc t).mpr hct), hg]
    · rw [if_neg hct, if_neg (mt (hc t).mp hct)]

theorem untimed_trylock (c : Client) : Untimed fun s => psxSio0Trylock s c :=
  untimed_of_ite (fun _ h => psxSio0Trylock_inv h c) (fun _ => Iff.rfl) (fun _ => rfl)
    (fun _ h => h) (fun _ => rfl)

theorem untimed_unlock (c : Client) : Untimed fun s => psxSio0Unlock s c :=
  untimed_of_ite (fun _ h => psxSio0Unlock_inv h c) (fun _ => Iff.rfl) (fun _ => rfl)
    (fun _ h => h) (fun _ => rfl)

theorem untimed_sweepCatch : Untimed sweepCatch :=
  untimed_of_ite (fun _ h => sweepCatch_inv h) (fun _ => Iff.rfl) (fun _ => rfl)
    (fun _ _ hw => (nomatch hw)) (fun _ => rfl)

theorem untimed_sweepOpen : Untimed sweepOpen :=
  untimed_of_ite (fun _ h => sweepOpen_inv h) (fun _ => Iff.rfl) (fun _ => rfl)
    (fun _ _ hw => (nomatch hw)) (fun _ => rfl)

theorem untimed_sweepClose (cards : Cards) : Untimed fun s => sweepClose s cards :=
  untimed_of_ite (fun _ h => sweepClose_inv h cards) (fun _ => Iff.rfl) (fun _ => rfl)
    (fun _ _ hw => (nomatch hw)) (fun _ => rfl)

theorem untimed_sweepEnd : Untimed sweepEnd :=
  untimed_of_ite (fun _ h => sweepEnd_inv h) (fun _ => Iff.rfl) (fun _ => rfl)
    (fun _ _ hw => (nomatch hw)) (fun _ => rfl)

/-- Only a sweep that is waiting wakes up. -/
theorem untimed_sweepWake : Untimed sweepWake := by
  have hsame (t : State) (h : t.sweep ≠ .waiting) : sweepWake t = t := if_neg h
  refine ⟨fun t h => sweepWake_inv h, fun t h => ?_, fun t h => ?_, fun t h => ?_⟩
  · rw [hsame t h]
  · rw [hsame t h]
    exact h
  · rw [hsame t h]
    exact hsame (t.setTimer true) h

/-- An acknowledge between two events. -/
theorem Kept.ack {s : State} (h : Kept s) (input stale : CardInput) :
    ∃ s', buInterrupt s input stale = some s' ∧ Kept s' := by
  cases h with
  | inv hinv =>
    obtain ⟨s', heq, hinv'⟩ := buInterrupt_inv hinv input stale
    exact ⟨s', heq, .inv hinv'⟩
  | @pending t hs hinv htimer hsweep =>
    subst hs
    rcases hinv.outside with ⟨r, rest, hserving, -⟩ | ⟨hblock, hoff | ⟨hcur, hopen⟩⟩
    · exact absurd hserving.timer (by rw [htimer]; exact Bool.false_ne_true)
    · have hcur : t.buCurrent < 0 := by
        rw [hoff.current]
        decide
      exact ⟨t.setTimer true, if_pos hcur, .pending rfl hinv htimer hsweep⟩
    · refine ⟨({ t with buState := .ready } : State).setTimer true, ?_,
        .pending rfl (hinv.woken hblock .ready fun hf => hf) htimer hsweep⟩
      rw [buInterrupt,
        if_neg (show ¬ (t.setTimer true).buCurrent < 0 from Int.not_lt.mpr hcur.ge),
        if_pos (show (t.setTimer true).buOpen = true from hopen)]
      rfl

/-- **One event under watch.** -/
theorem Kept.watched {s : State} (h : Kept s) (e : Happening) :
    Judged Kept LateFault (e.Clear s) (watched s e) := by
  cases e with
  | timeout w stale => exact h.timeout w stale
  | event e =>
    cases e with
    | arrive r pos stale => exact h.arrive r pos stale
    | unplug stale => exact h.unplug stale
    | retry stale => exact h.retry stale
    | timeout stale =>
      exact (h.timeout .calm stale).congr ⟨fun _ => trivial, fun _ => clear_calm s⟩
    | sweepWait => exact h.sweepWait
    | ack input stale =>
      obtain ⟨s', heq, hkept⟩ := h.ack input stale
      show Judged Kept LateFault True (match buInterrupt s input stale with
        | none => .error .crash
        | some s => .ok s)
      rw [heq]
      exact .ok trivial hkept
    | trylock c => exact .ok trivial ((untimed_trylock c).kept h)
    | unlock c => exact .ok trivial ((untimed_unlock c).kept h)
    | sweepCatch => exact .ok trivial (untimed_sweepCatch.kept h)
    | sweepOpen => exact .ok trivial (untimed_sweepOpen.kept h)
    | sweepWake => exact .ok trivial (untimed_sweepWake.kept h)
    | sweepClose cards => exact .ok trivial ((untimed_sweepClose cards).kept h)
    | sweepEnd => exact .ok trivial (untimed_sweepEnd.kept h)

/-! ## Runs -/

/-- Every request that arrived is on the queue or was ended, and only once. -/
theorem Kept.ids {s : State} (h : Kept s) :
    (s.ended.map (fun e => e.request.id) ++ s.queue.map Request.id).Perm s.arrived := by
  cases h with
  | inv hinv => exact hinv.log.ids
  | pending hs hinv =>
    rw [hs]
    exact hinv.log.ids

/-- **When a late acknowledge does no harm.**  A run in which acknowledges come at any instruction
of `bu_timeout` goes without `end_request` for no request and without a second start of a pending
timer, and ends every request once, exactly if every event of it is clear in the state it meets;
and otherwise it is one of these two that happens. -/
theorem timeout_race_iff (d : Joined) (events : List Happening) :
    ((∃ s, events.foldlM watched (State.boot d) = .ok s ∧
        (s.ended.map (fun e => e.request.id) ++ s.queue.map Request.id).Perm s.arrived) ↔
      ClearRun watched Happening.Clear (State.boot d) events) ∧
    ∀ f, events.foldlM watched (State.boot d) = .error f → f = .endRequest ∨ f = .timer := by
  have hrun := judged_run (fun s e (hs : Kept s) => hs.watched e) (.inv (inv_boot d)) events
  cases hx : events.foldlM watched (State.boot d) with
  | ok s =>
    rw [hx] at hrun
    cases hrun with
    | ok hclear hs => exact ⟨⟨fun _ => hclear, fun _ => ⟨s, rfl, hs.ids⟩⟩, fun f hf => (nomatch hf)⟩
  | error f =>
    rw [hx] at hrun
    cases hrun with
    | error hclear hf =>
      refine ⟨⟨fun ⟨s, hs, _⟩ => (nomatch hs), fun hc => absurd hc hclear⟩, fun g hg => ?_⟩
      obtain rfl := Except.error.inj hg
      exact hf

/-! ## Two races -/

/-- A read of one sector. -/
def readArrives : List Happening :=
  [.event (.arrive ⟨7, 0, .read, 0, 1, fun _ => 0⟩ 0 ⟨0, false, 0⟩), .event (.unplug ⟨0, false, 0⟩)]

/-- An acknowledge with a zero on the bus. -/
def zeroAck : Ack := ⟨⟨0, false, 0⟩, ⟨0, false, 0⟩⟩

/-- An acknowledge comes between `del_timer` and the lock. -/
def lateAck : Happening := .timeout { Race.calm with beforeLock := [zeroAck] } ⟨0, false, 0⟩

/-- The last attempt fails between the test of `bu_current` and `del_timer`. -/
def lastAcks : Happening :=
  .timeout { Race.calm with beforeDelTimer := [zeroAck, zeroAck, zeroAck] } ⟨0, false, 0⟩

/-- The first is enough to start the pending timer again.  After nine timeouts the others end the
request, and `bu_timeout` ends it once more. -/
theorem late_ack_faults :
    (readArrives ++ [lateAck]).foldlM watched (State.boot oneCard) = .error .timer ∧
      (readArrives ++ List.replicate 9 (Happening.event (.timeout ⟨0, false, 0⟩)) ++
        [lastAcks]).foldlM watched (State.boot oneCard) = .error .endRequest :=
  ⟨rfl, rfl⟩

end MemoryCard
end Blackroo
