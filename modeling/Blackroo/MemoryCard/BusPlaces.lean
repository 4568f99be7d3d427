import Blackroo.MemoryCard.Preemption

/-!
# Who has the bus

`bu_lock` says that somebody has the bus.  Who it is, the handlers conclude from `bu_current`,
`bu_open` and the timer: with `bu_current` set and `bu_open` clear, an acknowledge or a timeout is
one of a transfer for the block layer.

There are four places for the bus.  It is free (`Rest`), a transfer is under way (`Busy`), the
keyboard or the monitor has it (`Lent`), or exactly one process is in a sweep, and then its next
instruction tells what the variables are (`Pc.Shape`).  The first half follows the request function
and the handlers through these places, the second half the processes.

Every event leads from one of the places to one of them (`step_place`), with one proviso.  Between
`bu_current = card` and `bu_open = TRUE` a sweep looks to `bu_interrupt` like a transfer
(`Pc.window`), and an acknowledge there gives the bus away under the process that has caught it.  A
timeout does no harm there, because the timer is off.
-/

namespace Blackroo
namespace MemoryCard
namespace Preemption

/-! ## The request function and the bus -/

/-- Nobody has the bus. -/
structure Rest (d : State) : Prop where
  lock : d.buLock = false
  current : d.buCurrent < 0
  closed : d.buOpen = false
  timer : d.buTimer = false
  owners : d.owners = []

/-- `do_bu_request` has the bus. -/
structure Owned (d : State) : Prop where
  lock : d.buLock = true
  closed : d.buOpen = false
  owners : d.owners = [.block]

/-- A transfer for the block layer is under way. -/
structure Busy (d : State) : Prop extends Owned d where
  under : d.buCurr.Under

/-- What `do_bu_request` leaves. -/
def Settles (d : State) : Prop := Rest d ∨ Busy d

/-- The driver has not moved, as far as the bus goes. -/
structure Same (d t : State) : Prop where
  lock : t.buLock = d.buLock
  owners : t.owners = d.owners
  current : t.buCurrent = d.buCurrent
  opened : t.buOpen = d.buOpen
  timer : t.buTimer = d.buTimer
  curr : t.buCurr = d.buCurr

section Driver

variable {d s t : State}

theorem Same.refl (d : State) : Same d d := ⟨rfl, rfl, rfl, rfl, rfl, rfl⟩

theorem same_setQueue (d : State) (queue : List Request) : Same d { d with queue := queue } :=
  ⟨rfl, rfl, rfl, rfl, rfl, rfl⟩

theorem Same.trans (h : Same d s) (h' : Same s t) : Same d t :=
  ⟨h'.lock.trans h.lock, h'.owners.trans h.owners, h'.current.trans h.current,
    h'.opened.trans h.opened, h'.timer.trans h.timer, h'.curr.trans h.curr⟩

theorem Rest.of_same (h : Rest d) (hsame : Same d t) : Rest t :=
  ⟨hsame.lock.trans h.lock, hsame.current.symm ▸ h.current, hsame.opened.trans h.closed,
    hsame.timer.trans h.timer, hsame.owners.trans h.owners⟩

theorem Busy.of_same (h : Busy d) (hsame : Same d t) : Busy t :=
  ⟨⟨hsame.lock.trans h.lock, hsame.opened.trans h.closed, hsame.owners.trans h.owners⟩,
    hsame.curr.symm ▸ h.under⟩

theorem Settles.of_same (h : Settles d) (hsame : Same d t) : Settles t := by
  rcases h with h | h
  · exact .inl (h.of_same hsame)
  · exact .inr (h.of_same hsame)

theorem same_refuse (d : State) : Same d d.refuse := by
  cases hq : d.queue <;> constructor <;>
    simp [State.refuse, State.endRequest, State.noteLock, hq]

/-- How a pass through the second half of `do_bu_request` leaves the bus. -/
inductive Passes (s : State) : Next → Prop
  | running {t : State} (hunder : t.buCurr.Under) (hlock : t.buLock = s.buLock)
      (hopen : t.buOpen = s.buOpen) (howners : t.owners = s.owners) : Passes s (.running t)
  | again {t : State} (hfits : t.buCurr.Fits) (hlock : t.buLock = false)
      (hcurrent : t.buCurrent = -1) (hopen : t.buOpen = s.buOpen)
      (howners : t.owners = s.owners.erase .block) (htimer : t.buTimer = s.buTimer) :
      Passes s (.again t)

theorem passes_finish {uptodate : Bool} (hfits : t.buCurr.Fits) (hopen : t.buOpen = s.buOpen)
    (howners : t.owners = s.owners) (htimer : t.buTimer = s.buTimer) :
    Passes s (.again (t.finish uptodate)) := by
  cases hq : t.queue <;> constructor <;>
    simp [State.finish, State.endRequest, State.release, State.noteLock, hq, hfits, hopen, howners,
      htimer]

theorem serve_passes (hfits : s.buCurr.Fits) (r : Request) (input : CardInput) :
    ∃ n, s.serve r input = some n ∧ Passes s n := by
  unfold State.serve
  split
  · split
    · exact ⟨_, rfl, passes_finish hfits rfl rfl rfl⟩
    · dsimp only
      split
      · exact ⟨_, rfl, passes_finish hfits rfl rfl rfl⟩
      · split
        · exact ⟨_, rfl, passes_finish hfits rfl rfl rfl⟩
        · next bu hinit =>
          -- behind `bu_sw_init` there is a handler, and it is not the last one
          obtain ⟨hunder, hfirst⟩ := under_of_buSwInit hinit
          obtain ⟨o, ho, hgoes⟩ := hunder.routine input
          rw [ho]
          cases hgoes with
          | fails hstatus hunder =>
            exact ⟨_, if_pos (by rw [hstatus]; decide),
              passes_finish (.inl hunder) rfl rfl rfl⟩
          | advances hstatus hunder =>
            exact ⟨_, if_neg (by rw [hstatus]; decide), .running hunder rfl rfl rfl⟩
          | ends hstatus hlast hover => omega
  · exact ⟨_, rfl, passes_finish hfits rfl rfl rfl⟩

theorem Passes.busy (h : Passes s (.running t)) (howned : Owned s) : Busy t := by
  cases h with
  | running hunder hlock hopen howners =>
    exact ⟨⟨hlock.trans howned.lock, hopen.trans howned.closed, howners.trans howned.owners⟩,
      hunder⟩

theorem Passes.rest (h : Passes s (.again t)) (howned : Owned s) (hoff : s.buTimer = false) :
    Rest t := by
  cases h with
  | again _ hlock hcurrent hopen howners htimer =>
    refine ⟨hlock, ?_, hopen.trans howned.closed, htimer.trans hoff, ?_⟩
    · rw [hcurrent]
      decide
    · rw [howners, howned.owners]
      rfl

theorem Passes.fits_running (h : Passes s (.running t)) : t.buCurr.Fits := by
  cases h with
  | running hunder => exact .inl hunder

theorem Passes.fits_again (h : Passes s (.again t)) : t.buCurr.Fits := by
  cases h with
  | again hfits => exact hfits

theorem Rest.owned_take (h : Rest s) (r : Request) (mode : UInt8) : Owned (s.take r mode) :=
  ⟨rfl, h.closed, by
    show (.block :: s.owners : List Owner) = _
    rw [h.owners]⟩

/-- From a free bus the request function goes on to a free bus or to a transfer. -/
theorem startLoop_settles (input : CardInput) (queue : List Request) {s : State}
    (hfits : s.buCurr.Fits) :
    ∃ t, startLoop input queue s = some t ∧ t.buCurr.Fits ∧ (Rest s → Settles t) := by
  induction queue generalizing s with
  | nil => exact ⟨s, rfl, hfits, .inl⟩
  | cons r rest ih =>
    have hrefused : ∃ t, startLoop input rest s.refuse = some t ∧ t.buCurr.Fits ∧
        (Rest s → Settles t) := by
      have hsame := same_refuse s
      obtain ⟨t, ht, hfits', hsettles⟩ := ih (s := s.refuse) (hsame.curr.symm ▸ hfits)
      exact ⟨t, ht, hfits', fun hrest => hsettles (hrest.of_same hsame)⟩
    rw [startLoop]
    split
    · exact hrefused
    · split
      · exact hrefused
      · split
        · exact hrefused
        · next mode _ =>
          have htaken : (s.take r mode).buCurr.Fits := hfits.congr rfl rfl rfl
          obtain ⟨n, hn, hpasses⟩ := serve_passes htaken r input
          rw [hn]
          cases n with
          | running t =>
            exact ⟨t, rfl, hpasses.fits_running, fun hrest =>
              .inr (hpasses.busy (hrest.owned_take r mode))⟩
          | again t =>
            obtain ⟨t', ht', hfits', hsettles⟩ := ih hpasses.fits_again
            exact ⟨t', ht', hfits', fun hrest =>
              hsettles (hpasses.rest (hrest.owned_take r mode) hrest.timer)⟩

/-- With the timer off, going on with a request ends in a free bus or in a transfer. -/
theorem continueRequest_settles {p : Prop} {stale : CardInput} (hfits : s.buCurr.Fits)
    (hq : s.queue ≠ []) (hoff : s.buTimer = false) (howned : p → Owned s) :
    ∃ t, continueRequest s stale = some t ∧ t.buCurr.Fits ∧ (p → Settles t) := by
  obtain ⟨r, rest, hq⟩ := List.exists_cons_of_ne_nil hq
  unfold continueRequest
  rw [hq]
  obtain ⟨n, hn, hpasses⟩ := serve_passes hfits r stale
  simp only [hn]
  cases n with
  | running t =>
    exact ⟨t, rfl, hpasses.fits_running, fun hp => .inr (hpasses.busy (howned hp))⟩
  | again t =>
    obtain ⟨t', ht', hfits', hsettles⟩ := startLoop_settles stale rest hpasses.fits_again
    exact ⟨t', ht', hfits', fun hp => hsettles (hpasses.rest (howned hp) hoff)⟩

/-! ## The handlers -/

/-- An acknowledge for a transfer under way. -/
theorem buInterrupt_settles (hcalls : Calls d) (hunder : d.buCurr.Under) (hq : d.queue ≠ [])
    (input stale : CardInput) :
    ∃ t, buInterrupt d input stale = some t ∧ t.buCurr.Fits ∧ (Busy d → Settles t) := by
  obtain ⟨o, ho, hgoes⟩ := hunder.routine input
  unfold buInterrupt
  rw [if_neg (Int.not_lt.mpr hcalls.1), if_neg (by rw [hcalls.2]; decide), ho]
  dsimp only
  cases hgoes with
  | fails hstatus hunder' =>
    rw [if_pos (by rw [hstatus]; decide)]
    exact continueRequest_settles (.inl hunder') hq rfl fun hbusy =>
      ⟨hbusy.lock, hbusy.closed, hbusy.owners⟩
  | advances hstatus hunder' =>
    rw [if_neg (by rw [hstatus]; decide), if_neg (by rw [hunder'.running]; decide)]
    exact ⟨_, rfl, .inl hunder', fun hbusy =>
      .inr ⟨⟨hbusy.lock, hbusy.closed, hbusy.owners⟩, hunder'⟩⟩
  | ends hstatus hlast hover =>
    rw [if_neg (by rw [hstatus]; decide), if_pos hover.stopped]
    obtain ⟨r, rest, hq⟩ := List.exists_cons_of_ne_nil hq
    rw [hq]
    exact continueRequest_settles (.inr hover) (List.cons_ne_nil _ _) rfl fun hbusy =>
      ⟨hbusy.lock, hbusy.closed, hbusy.owners⟩

/-- An acknowledge that is not taken for a transfer. -/
theorem buInterrupt_same (hcalls : ¬ Calls d) (input stale : CardInput) :
    ∃ t, buInterrupt d input stale = some t ∧ Same d t := by
  unfold buInterrupt
  by_cases hcurrent : d.buCurrent < 0
  · exact ⟨d, if_pos hcurrent, .refl d⟩
  · have hopen : d.buOpen = true := by
      by_contra hclosed
      exact hcalls ⟨Int.not_lt.mp hcurrent, Bool.eq_false_iff.mpr hclosed⟩
    rw [if_neg hcurrent, if_pos hopen]
    exact ⟨_, rfl, ⟨rfl, rfl, rfl, rfl, rfl, rfl⟩⟩

/-- The timer goes off in a transfer. -/
theorem buTimeout_settles (hcalls : Calls d) (htimer : d.buTimer = true) (hfits : d.buCurr.Fits)
    (hq : d.queue ≠ []) (stale : CardInput) :
    ∃ t, buTimeout d stale = some t ∧ t.buCurr.Fits ∧ (Owned d → Settles t) := by
  unfold buTimeout
  rw [if_pos htimer]
  dsimp only
  rw [if_neg (Int.not_lt.mpr hcalls.1), if_neg (by rw [hcalls.2]; decide)]
  exact continueRequest_settles hfits hq rfl fun howned =>
    ⟨howned.lock, howned.closed, howned.owners⟩

/-- The timer goes off otherwise, or not at all. -/
theorem buTimeout_same (h : ¬ (Calls d ∧ d.buTimer = true)) (stale : CardInput) :
    ∃ t, buTimeout d stale = some t ∧ Same { d with buTimer := false } t := by
  unfold buTimeout
  by_cases htimer : d.buTimer = true
  · rw [if_pos htimer]
    dsimp only
    by_cases hcurrent : d.buCurrent < 0
    · rw [if_pos hcurrent]
      exact ⟨_, rfl, ⟨rfl, rfl, rfl, rfl, rfl, rfl⟩⟩
    · have hopen : d.buOpen = true := by
        by_contra hclosed
        exact h ⟨⟨Int.not_lt.mp hcurrent, Bool.eq_false_iff.mpr hclosed⟩, htimer⟩
      rw [if_neg hcurrent, if_pos hopen]
      exact ⟨_, rfl, ⟨rfl, rfl, rfl, rfl, rfl, rfl⟩⟩
  · rw [if_neg htimer]
    exact ⟨d, rfl, ⟨rfl, rfl, rfl, rfl, Bool.eq_false_iff.mpr htimer, rfl⟩⟩

/-- The block layer, or the retry timer, calls the request function. -/
theorem doBuRequest_settles (hfits : d.buCurr.Fits) (stale : CardInput) :
    ∃ t, doBuRequest d stale = some t ∧ t.buCurr.Fits ∧ (d.buLock = true → Same d t) ∧
      (Rest d → Settles t) := by
  unfold doBuRequest
  by_cases hlock : d.buLock = true
  · rw [if_pos hlock]
    exact ⟨_, rfl, hfits, fun _ => ⟨rfl, rfl, rfl, rfl, rfl, rfl⟩,
      fun hrest => absurd (hlock.symm.trans hrest.lock) (by decide)⟩
  · rw [if_neg hlock]
    obtain ⟨t, ht, hfits', hsettles⟩ := startLoop_settles stale d.queue hfits
    exact ⟨t, ht, hfits', fun h => absurd h hlock, hsettles⟩

/-- Whatever the queue is, a handler that looks at `CURRENT` finds something there. -/
theorem onCurrent_spec {handler : State → Option State} {P : State → Prop}
    (hP : ∀ t, P t → P { t with queue := [] })
    (h : ∀ queue ≠ [], ∃ t, handler { d with queue := queue } = some t ∧ P t) (phantom : Request) :
    ∃ t, onCurrent phantom handler d = some t ∧ P t := by
  unfold onCurrent
  cases hq : d.queue with
  | nil =>
    obtain ⟨t, ht, hPt⟩ := h [phantom] (List.cons_ne_nil _ _)
    exact ⟨_, by dsimp only; rw [ht]; rfl, hP t hPt⟩
  | cons r rest =>
    have hqueue : { d with queue := r :: rest } = d := by rw [← hq]
    have hd := h (r :: rest) (List.cons_ne_nil _ _)
    rw [hqueue] at hd
    exact hd

end Driver

/-! ## Who has the bus -/

/-- From the catch to `bu_lock = FALSE`. -/
def Pc.holds : Pc → Bool
  | .idle | .catching | .clearProbing => false
  | _ => true

/-- `bu_current` is set, and `bu_open` is not yet. -/
def Pc.window : Pc → Bool
  | .setState | .setOpen => true
  | _ => false

/-- What a process with the bus has made of `bu_current`, `bu_open` and the timer. -/
def Pc.Shape (current : Int) (opened timer : Bool) : Pc → Prop
  | .setCurrent | .clearLock => current < 0 ∧ opened = false ∧ timer = false
  | .setState | .setOpen => opened = false ∧ timer = false
  | .clearOpen => current < 0 ∧ timer = false
  | .probing _ _ _ .asleep | .probing _ _ _ .leaving => opened = true
  | _ => opened = true ∧ timer = false

/-- A process has the bus. -/
structure Holding (pc : Pc) (d : State) : Prop where
  holds : pc.holds = true
  lock : d.buLock = true
  owners : d.owners = [.sweep]
  shape : pc.Shape d.buCurrent d.buOpen d.buTimer

/-- A client of `psx_sio0_trylock` has the bus. -/
structure Lent (c : Client) (d : State) : Prop where
  lock : d.buLock = true
  current : d.buCurrent < 0
  closed : d.buOpen = false
  timer : d.buTimer = false
  owners : d.owners = [.client c]

/-- **Where the bus is.** -/
inductive Place (s : Sys) : Prop
  | rest (hout : ∀ q, (s.procs q).pc.holds = false) (h : Rest s.driver)
  | busy (hout : ∀ q, (s.procs q).pc.holds = false) (h : Busy s.driver)
  | lent (c : Client) (hout : ∀ q, (s.procs q).pc.holds = false) (h : Lent c s.driver)
  | sweeping (pid : Nat) (hout : ∀ q ≠ pid, (s.procs q).pc.holds = false)
      (h : Holding (s.procs pid).pc s.driver)

section Holding

variable {pc : Pc} {d t : State}

theorem Lent.of_same {c : Client} (h : Lent c d) (hsame : Same d t) : Lent c t :=
  ⟨hsame.lock.trans h.lock, hsame.current.symm ▸ h.current, hsame.opened.trans h.closed,
    hsame.timer.trans h.timer, hsame.owners.trans h.owners⟩

theorem Holding.of_same (h : Holding pc d) (hsame : Same d t) : Holding pc t := by
  refine ⟨h.holds, hsame.lock.trans h.lock, hsame.owners.trans h.owners, ?_⟩
  rw [hsame.current, hsame.opened, hsame.timer]
  exact h.shape

/-- The timer may go off at any time. -/
theorem Holding.timerOff (h : Holding pc d) : Holding pc { d with buTimer := false } := by
  refine ⟨h.holds, h.lock, h.owners, ?_⟩
  have hshape := h.shape
  cases pc with
  | probing slot tries bu phase => cases phase <;> simp_all [Pc.Shape]
  | _ => simp_all [Pc.Shape]

/-- Outside of the window no acknowledge is taken for a transfer of the block layer. -/
theorem Holding.not_calls (h : Holding pc d) (hwindow : pc.window = false) : ¬ Calls d := by
  rintro ⟨hcurrent, hclosed⟩
  have hshape := h.shape
  cases pc with
  | probing slot tries bu phase => cases phase <;> simp_all [Pc.Shape]
  | setState | setOpen => exact absurd hwindow (by decide)
  | setCurrent | clearLock => exact absurd hshape.1 (Int.not_lt.mpr hcurrent)
  | clearOpen => exact absurd hshape.1 (Int.not_lt.mpr hcurrent)
  | idle | catching | clearProbing => exact absurd h.holds (by decide)
  | starting | judging | clearCurrent => exact absurd (hclosed.symm.trans hshape.1) (by decide)

/-- In the window there is no timer. -/
theorem Holding.not_due (h : Holding pc d) : ¬ (Calls d ∧ d.buTimer = true) := by
  rintro ⟨hcalls, htimer⟩
  by_cases hwindow : pc.window = true
  · have hshape := h.shape
    cases pc with
    | setState | setOpen => exact absurd (htimer.symm.trans hshape.2) (by decide)
    | _ => exact absurd hwindow (by simp [Pc.window])
  · exact h.not_calls (Bool.eq_false_iff.mpr hwindow) hcalls

end Holding

section Place

variable {s : Sys} {t : State}

theorem Place.same (h : Place s) (hsame : Same s.driver t) : Place { s with driver := t } := by
  cases h with
  | rest hout h => exact .rest hout (h.of_same hsame)
  | busy hout h => exact .busy hout (h.of_same hsame)
  | lent c hout h => exact .lent c hout (h.of_same hsame)
  | sweeping pid hout h => exact .sweeping pid hout (h.of_same hsame)

theorem Place.timerOff (h : Place s) :
    Place { s with driver := { s.driver with buTimer := false } } := by
  cases h with
  | rest hout h => exact .rest hout ⟨h.lock, h.current, h.closed, rfl, h.owners⟩
  | busy hout h => exact .busy hout ⟨⟨h.lock, h.closed, h.owners⟩, h.under⟩
  | lent c hout h => exact .lent c hout ⟨h.lock, h.current, h.closed, rfl, h.owners⟩
  | sweeping pid hout h => exact .sweeping pid hout h.timerOff

theorem Place.setSerials (h : Place s) (serials : List UInt32) :
    Place { s with serials := serials } := by
  cases h with
  | rest hout h => exact .rest hout h
  | busy hout h => exact .busy hout h
  | lent c hout h => exact .lent c hout h
  | sweeping pid hout h => exact .sweeping pid hout h

theorem Place.of_settles (hout : ∀ q, (s.procs q).pc.holds = false) (h : Settles t) :
    Place { s with driver := t } := by
  rcases h with h | h
  · exact .rest hout h
  · exact .busy hout h

/-- With `bu_current` set, and not by a sweep, there is a transfer. -/
theorem Place.busy_of_current (h : Place s) (hcurrent : 0 ≤ s.driver.buCurrent)
    (hsweep : ∀ pid, ¬ Holding (s.procs pid).pc s.driver) :
    (∀ q, (s.procs q).pc.holds = false) ∧ Busy s.driver := by
  cases h with
  | rest hout h => exact absurd h.current (Int.not_lt.mpr hcurrent)
  | busy hout h => exact ⟨hout, h⟩
  | lent c hout h => exact absurd h.current (Int.not_lt.mpr hcurrent)
  | sweeping pid hout h => exact absurd h (hsweep pid)

theorem Place.rest_of_unlocked (h : Place s) (hlock : s.driver.buLock = false) :
    (∀ q, (s.procs q).pc.holds = false) ∧ Rest s.driver := by
  cases h with
  | rest hout h => exact ⟨hout, h⟩
  | busy hout h => exact absurd (hlock.symm.trans h.lock) (by decide)
  | lent c hout h => exact absurd (hlock.symm.trans h.lock) (by decide)
  | sweeping pid hout h => exact absurd (hlock.symm.trans h.lock) (by decide)

/-- Only the process that has the bus is between the catch and its end. -/
theorem Place.holding (h : Place s) (pid : Nat) (hpid : (s.procs pid).pc.holds = true) :
    (∀ q ≠ pid, (s.procs q).pc.holds = false) ∧ Holding (s.procs pid).pc s.driver := by
  cases h with
  | rest hout h => exact absurd (hpid.symm.trans (hout pid)) (by decide)
  | busy hout h => exact absurd (hpid.symm.trans (hout pid)) (by decide)
  | lent c hout h => exact absurd (hpid.symm.trans (hout pid)) (by decide)
  | sweeping pid' hout h =>
    obtain rfl : pid = pid' := by
      by_contra hne
      exact absurd (hpid.symm.trans (hout pid hne)) (by decide)
    exact ⟨hout, h⟩

/-! ## The steps of the processes -/

section Put

variable {pid : Nat} {d : State} {p : Proc}

theorem put_procs_self : (s.put pid d p).procs pid = p := Function.update_self _ _ _

theorem put_procs_of_ne {q : Nat} (hq : q ≠ pid) : (s.put pid d p).procs q = s.procs q :=
  Function.update_of_ne hq _ _

/-- A process outside goes on outside. -/
theorem Place.put_outside (h : Place s) (hsame : Same s.driver d)
    (hold : (s.procs pid).pc.holds = false) (hp : p.pc.holds = false) : Place (s.put pid d p) := by
  have hput {q : Nat} (hq : (s.procs q).pc.holds = false) :
      ((s.put pid d p).procs q).pc.holds = false := by
    by_cases heq : q = pid
    · rw [heq, put_procs_self]
      exact hp
    · rw [put_procs_of_ne heq]
      exact hq
  cases h with
  | rest hout h => exact .rest (fun q => hput (hout q)) (h.of_same hsame)
  | busy hout h => exact .busy (fun q => hput (hout q)) (h.of_same hsame)
  | lent c hout h => exact .lent c (fun q => hput (hout q)) (h.of_same hsame)
  | sweeping holder hout h =>
    have hne : holder ≠ pid := by
      rintro rfl
      exact absurd (hold.symm.trans h.holds) (by decide)
    refine .sweeping holder (fun q hq => hput (hout q hq)) ?_
    rw [put_procs_of_ne hne]
    exact h.of_same hsame

/-- A process has the bus now. -/
theorem place_put_holding (hout : ∀ q ≠ pid, (s.procs q).pc.holds = false)
    (h : Holding p.pc d) : Place (s.put pid d p) := by
  refine .sweeping pid (fun q hq => ?_) ?_
  · rw [put_procs_of_ne hq]
    exact hout q hq
  · rw [put_procs_self]
    exact h

/-- A process goes on with the bus. -/
theorem Place.put_holding (h : Place s) (hholds : (s.procs pid).pc.holds = true)
    (hlock : d.buLock = s.driver.buLock) (howners : d.owners = s.driver.owners)
    (hp : p.pc.holds = true)
    (hshape : (s.procs pid).pc.Shape s.driver.buCurrent s.driver.buOpen s.driver.buTimer →
      p.pc.Shape d.buCurrent d.buOpen d.buTimer) : Place (s.put pid d p) := by
  obtain ⟨hout, hholding⟩ := h.holding pid hholds
  exact place_put_holding hout
    ⟨hp, hlock.trans hholding.lock, howners.trans hholding.owners, hshape hholding.shape⟩

/-- A process gives the bus back. -/
theorem place_put_rest (hout : ∀ q ≠ pid, (s.procs q).pc.holds = false)
    (hp : p.pc.holds = false) (h : Rest d) : Place (s.put pid d p) := by
  refine .rest (fun q => ?_) h
  by_cases heq : q = pid
  · rw [heq, put_procs_self]
    exact hp
  · rw [put_procs_of_ne heq]
    exact hout q heq

end Put

theorem holds_next (p : Proc) : p.next.pc.holds = false := by
  unfold Proc.next
  split
  · split <;> rfl
  · rfl

theorem holds_giveUp (p : Proc) : p.giveUp.pc.holds = false := by
  unfold Proc.giveUp
  split
  · exact holds_next p
  · rfl

section Process

variable {s' : Sys} {pid : Nat} {input : CardInput} {expired : Bool}

theorem Place.buCheck (h : Place s) {slot : Slot} {tries : Nat} {bu : Bu} {phase : Phase}
    (hpc : (s.procs pid).pc = .probing slot tries bu phase)
    (hstep : buCheck s pid slot tries bu input expired phase = .ok s') : Place s' := by
  -- the driver stays as it is, or what a probe may change of it is changed
  have hgoto {d : State} {pc : Pc} (hlock : d.buLock = s.driver.buLock)
      (howners : d.owners = s.driver.owners) (hholds : pc.holds = true)
      (hshape : Pc.Shape s.driver.buCurrent s.driver.buOpen s.driver.buTimer
        (.probing slot tries bu phase) → pc.Shape d.buCurrent d.buOpen d.buTimer) :
      Place (s.goto pid d pc) :=
    h.put_holding (by rw [hpc]; rfl) hlock howners hholds (by rw [hpc]; exact hshape)
  cases phase with
  | attempt =>
    rw [Preemption.buCheck] at hstep
    split at hstep
    · obtain rfl := Except.ok.inj hstep
      exact hgoto rfl rfl rfl id
    · split at hstep <;> obtain rfl := Except.ok.inj hstep <;> exact hgoto rfl rfl rfl id
  | turn =>
    rw [Preemption.buCheck] at hstep
    split at hstep <;> obtain rfl := Except.ok.inj hstep
    · exact hgoto rfl rfl rfl fun hshape => hshape.1
    · exact hgoto rfl rfl rfl id
  | asleep =>
    rw [Preemption.buCheck] at hstep
    split at hstep
    · obtain rfl := Except.ok.inj hstep
      exact hgoto rfl rfl rfl id
    · split at hstep <;> obtain rfl := Except.ok.inj hstep
      · exact h
      · exact hgoto rfl rfl rfl id
  | leaving =>
    obtain rfl := Except.ok.inj hstep
    exact hgoto rfl rfl rfl fun hshape => ⟨hshape, rfl⟩
  | testing =>
    rw [Preemption.buCheck] at hstep
    split at hstep <;> obtain rfl := Except.ok.inj hstep <;> exact hgoto rfl rfl rfl id
  | calling =>
    rw [Preemption.buCheck] at hstep
    split at hstep
    · split at hstep
      · cases hstep
      · split at hstep
        · obtain rfl := Except.ok.inj hstep
          exact hgoto rfl rfl rfl id
        · split at hstep <;> obtain rfl := Except.ok.inj hstep <;> exact hgoto rfl rfl rfl id
    · cases hstep

theorem Place.judge (h : Place s) {slot : Slot} {found : Option FirstBlock}
    (hpc : (s.procs pid).pc = .judging slot found) : Place (judge s pid slot found) := by
  obtain ⟨hout, hholding⟩ := h.holding pid (by rw [hpc]; rfl)
  rw [hpc] at hholding
  unfold Preemption.judge
  dsimp only
  split
  · exact place_put_holding hout ⟨rfl, hholding.lock, hholding.owners, hholding.shape⟩
  · split
    · exact place_put_holding (s := { s with serials := _ }) hout
        ⟨rfl, hholding.lock, hholding.owners, hholding.shape⟩
    · exact place_put_holding (s := { s with serials := _ }) hout
        ⟨rfl, hholding.lock, hholding.owners, hholding.shape⟩

/-- **A process takes the bus when it is free, and leaves it free.** -/
theorem Place.advance (h : Place s) (hstep : advance s pid input expired = .ok s') : Place s' := by
  have hkeep (hholds : (s.procs pid).pc.holds = true) {d : State} {p : Proc}
      (hlock : d.buLock = s.driver.buLock) (howners : d.owners = s.driver.owners)
      (hp : p.pc.holds = true)
      (hshape : (s.procs pid).pc.Shape s.driver.buCurrent s.driver.buOpen s.driver.buTimer →
        p.pc.Shape d.buCurrent d.buOpen d.buTimer) : Place (s.put pid d p) :=
    h.put_holding hholds hlock howners hp hshape
  have houtside (hholds : (s.procs pid).pc.holds = false) {d : State} {p : Proc}
      (hsame : Same s.driver d) (hp : p.pc.holds = false) : Place (s.put pid d p) :=
    h.put_outside hsame hholds hp
  unfold Preemption.advance at hstep
  dsimp only at hstep
  cases hpc : (s.procs pid).pc with
  | idle =>
    rw [hpc] at hstep
    obtain rfl := Except.ok.inj hstep
    exact h
  | catching =>
    rw [hpc] at hstep houtside
    dsimp only at hstep
    split at hstep
    · split at hstep <;> obtain rfl := Except.ok.inj hstep
      · exact houtside rfl (.refl _) (holds_giveUp _)
      · exact h
    · next hlock =>
      obtain rfl := Except.ok.inj hstep
      obtain ⟨hout, hrest⟩ := h.rest_of_unlocked (Bool.eq_false_iff.mpr hlock)
      refine place_put_holding (fun q _ => hout q) ⟨rfl, rfl, ?_, ?_⟩
      · exact congrArg (Owner.sweep :: ·) hrest.owners
      · exact ⟨hrest.current, hrest.closed, hrest.timer⟩
  | probing slot tries bu phase =>
    rw [hpc] at hstep
    exact h.buCheck hpc hstep
  | judging slot found =>
    rw [hpc] at hstep
    obtain rfl := Except.ok.inj hstep
    exact h.judge hpc
  | clearProbing =>
    rw [hpc] at hstep houtside
    dsimp only at hstep
    split at hstep <;> obtain rfl := Except.ok.inj hstep <;>
      exact houtside rfl ⟨rfl, rfl, rfl, rfl, rfl, rfl⟩ rfl
  | setCurrent =>
    rw [hpc] at hstep hkeep
    obtain rfl := Except.ok.inj hstep
    exact hkeep rfl rfl rfl rfl fun hshape => hshape.2
  | setState =>
    rw [hpc] at hstep hkeep
    obtain rfl := Except.ok.inj hstep
    exact hkeep rfl rfl rfl rfl id
  | setOpen =>
    rw [hpc] at hstep hkeep
    obtain rfl := Except.ok.inj hstep
    exact hkeep rfl rfl rfl rfl fun hshape => ⟨rfl, hshape.2⟩
  | starting =>
    rw [hpc] at hstep hkeep
    dsimp only at hstep
    split at hstep <;> obtain rfl := Except.ok.inj hstep <;> exact hkeep rfl rfl rfl rfl id
  | clearCurrent =>
    rw [hpc] at hstep hkeep
    obtain rfl := Except.ok.inj hstep
    have hnone : (-1 : Int) < 0 := by decide
    exact hkeep rfl rfl rfl rfl fun hshape => ⟨hnone, hshape.2⟩
  | clearOpen =>
    rw [hpc] at hstep hkeep
    obtain rfl := Except.ok.inj hstep
    exact hkeep rfl rfl rfl rfl fun hshape => ⟨hshape.1, rfl, hshape.2⟩
  | clearLock =>
    obtain ⟨hout, hholding⟩ := h.holding pid (by rw [hpc]; rfl)
    rw [hpc] at hstep hholding
    obtain rfl := Except.ok.inj hstep
    refine place_put_rest hout (holds_next _) ⟨rfl, hholding.shape.1, hholding.shape.2.1,
      hholding.shape.2.2, ?_⟩
    show s.driver.owners.erase .sweep = []
    rw [hholding.owners]
    rfl

theorem Place.enter (h : Place s) (pid : Nat) : Place (enter s pid) := by
  unfold Preemption.enter
  split
  · next hpc =>
    exact (h.setSerials []).put_outside (.refl _) (by rw [hpc]; rfl) rfl
  · exact h

end Process

/-! ## The events -/

/-- An acknowledge comes while a sweep has set `bu_current` and not yet `bu_open`. -/
def InWindow (s : Sys) : Event → Prop
  | .ack _ _ _ => ∃ pid, (s.procs pid).pc.window = true
  | _ => False

section Handlers

variable {s' : Sys} {x : Option State}

theorem exists_of_handled {P : State → Prop} (hx : ∃ t, x = some t ∧ P t)
    (h : s.handled x = .ok s') : ∃ t, s' = { s with driver := t } ∧ P t := by
  obtain ⟨t, rfl, ht⟩ := hx
  exact ⟨t, (Except.ok.inj h).symm, ht⟩

theorem Place.handled_same (h : Place s) (hx : ∃ t, x = some t ∧ Same s.driver t)
    (hstep : s.handled x = .ok s') : Place s' := by
  obtain ⟨t, rfl, hsame⟩ := exists_of_handled hx hstep
  exact h.same hsame

theorem place_of_handled (hout : ∀ q, (s.procs q).pc.holds = false)
    (hx : ∃ t, x = some t ∧ Settles t) (hstep : s.handled x = .ok s') : Place s' := by
  obtain ⟨t, rfl, hsettles⟩ := exists_of_handled hx hstep
  exact .of_settles hout hsettles

/-- `do_bu_request`, after something that does not concern the bus. -/
theorem Place.request (h : Place s) (hfits : s.driver.buCurr.Fits) {d : State} {stale : CardInput}
    (hstep : s.handled (doBuRequest d stale) = .ok s') (hsame : Same s.driver d) : Place s' := by
  have hfits' : d.buCurr.Fits := by
    rw [hsame.curr]
    exact hfits
  obtain ⟨t, ht, -, hlocked, hfree⟩ := doBuRequest_settles hfits' stale
  cases hlock : s.driver.buLock with
  | true => exact h.handled_same ⟨t, ht, hsame.trans (hlocked (hsame.lock.trans hlock))⟩ hstep
  | false =>
    obtain ⟨hout, hrest⟩ := h.rest_of_unlocked hlock
    exact place_of_handled hout ⟨t, ht, hfree (hrest.of_same hsame)⟩ hstep

theorem Place.interrupt (h : Place s) (hquiet : ∀ pid, (s.procs pid).pc.window = false)
    {input stale : CardInput} {phantom : Request}
    (hstep : s.handled (onCurrent phantom (fun d => buInterrupt d input stale) s.driver) =
      .ok s') : Place s' := by
  by_cases hcalls : Calls s.driver
  · obtain ⟨hout, hbusy⟩ := h.busy_of_current hcalls.1 fun pid hholding =>
      hholding.not_calls (hquiet pid) hcalls
    refine place_of_handled hout (onCurrent_spec (fun t ht => ht.of_same (same_setQueue t []))
      (fun queue hq => ?_) phantom) hstep
    obtain ⟨t, ht, -, hsettles⟩ := buInterrupt_settles (d := { s.driver with queue := queue })
      hcalls hbusy.under hq input stale
    exact ⟨t, ht, hsettles (hbusy.of_same (same_setQueue _ queue))⟩
  · refine h.handled_same (onCurrent_spec (fun t ht => ht.trans (same_setQueue t []))
      (fun queue _ => ?_) phantom) hstep
    obtain ⟨t, ht, hsame⟩ := buInterrupt_same (d := { s.driver with queue := queue }) hcalls
      input stale
    exact ⟨t, ht, (same_setQueue _ queue).trans hsame⟩

theorem Place.timeout (h : Place s) {stale : CardInput} {phantom : Request}
    (hstep : s.handled (onCurrent phantom (fun d => buTimeout d stale) s.driver) = .ok s') :
    Place s' := by
  by_cases hdue : Calls s.driver ∧ s.driver.buTimer = true
  · obtain ⟨hout, hbusy⟩ := h.busy_of_current hdue.1.1 fun pid hholding => hholding.not_due hdue
    refine place_of_handled hout (onCurrent_spec (fun t ht => ht.of_same (same_setQueue t []))
      (fun queue hq => ?_) phantom) hstep
    obtain ⟨t, ht, -, hsettles⟩ := buTimeout_settles (d := { s.driver with queue := queue })
      hdue.1 hdue.2 (.inl hbusy.under) hq stale
    exact ⟨t, ht, hsettles (hbusy.of_same (same_setQueue _ queue)).toOwned⟩
  · refine h.timerOff.handled_same (onCurrent_spec (fun t ht => ht.trans (same_setQueue t []))
      (fun queue _ => ?_) phantom) hstep
    obtain ⟨t, ht, hsame⟩ := buTimeout_same (d := { s.driver with queue := queue }) hdue stale
    exact ⟨t, ht, (same_setQueue _ queue).trans hsame⟩

end Handlers

theorem Place.trylock (h : Place s) (c : Client) :
    Place { s with driver := psxSio0Trylock s.driver c } := by
  unfold psxSio0Trylock
  split
  · next hfree =>
    have hlock : s.driver.buLock = false := by
      simp only [Bool.and_eq_true, Bool.not_eq_true'] at hfree
      exact hfree.1
    obtain ⟨hout, hrest⟩ := h.rest_of_unlocked hlock
    exact .lent c hout ⟨rfl, hrest.current, hrest.closed, hrest.timer,
      congrArg (Owner.client c :: ·) hrest.owners⟩
  · exact h

theorem Place.unlock (h : Place s) (c : Client) :
    Place { s with driver := psxSio0Unlock s.driver c } := by
  unfold psxSio0Unlock
  split
  · next hmem =>
    cases h with
    | rest hout h => simp [h.owners] at hmem
    | busy hout h => simp [h.owners] at hmem
    | lent c' hout h =>
      obtain rfl : c = c' := by simpa [h.owners] using hmem
      exact .rest hout ⟨rfl, h.current, h.closed, h.timer, by
        show s.driver.owners.erase (.client c) = []
        rw [h.owners]
        exact List.erase_cons_head _ _⟩
    | sweeping pid hout h => simp [h.owners] at hmem
  · exact h

/-- **As long as no acknowledge comes in a window, one user at a time has the bus.** -/
theorem step_place {e : Event} {s' : Sys} (hfits : s.driver.buCurr.Fits) (h : Place s)
    (hquiet : ¬ InWindow s e) (hstep : step s e = .ok s') : Place s' := by
  cases e with
  | arrive r pos stale =>
    have hsame : Same s.driver (s.driver.queueUp r pos) := ⟨rfl, rfl, rfl, rfl, rfl, rfl⟩
    rw [step, arrive] at hstep
    split at hstep
    · exact h.handled_same ⟨_, rfl, hsame⟩ hstep
    · exact h.request hfits hstep hsame
  | unplug stale =>
    have hsame : Same s.driver { s.driver with plugged := false } := ⟨rfl, rfl, rfl, rfl, rfl, rfl⟩
    rw [step, unplug] at hstep
    split at hstep
    · exact h.request hfits hstep hsame
    · exact h.handled_same ⟨_, rfl, hsame⟩ hstep
  | ack input stale phantom =>
    rw [step] at hstep
    split at hstep
    · cases hstep
    · exact h.interrupt (fun pid => Bool.eq_false_iff.mpr fun hw => hquiet ⟨pid, hw⟩) hstep
  | timeout stale phantom => exact h.timeout hstep
  | retry stale =>
    rw [step, buRetry] at hstep
    split at hstep
    · exact h.request hfits hstep ⟨rfl, rfl, rfl, rfl, rfl, rfl⟩
    · exact h.handled_same ⟨_, rfl, .refl _⟩ hstep
  | trylock c =>
    obtain rfl := Except.ok.inj hstep
    exact h.trylock c
  | unlock c =>
    obtain rfl := Except.ok.inj hstep
    exact h.unlock c
  | enter pid =>
    obtain rfl := Except.ok.inj hstep
    exact h.enter pid
  | advance pid input expired => exact h.advance hstep

end Place

end Preemption
end MemoryCard
end Blackroo
