import Mathlib.Data.List.Infix
import Blackroo.Keyboard.Framing

/-!
# Finding a keyboard, and keeping it

As long as the driver has no keyboard, each tick of its timer tries the next of eight places: two
ports with four floors of a multitap each.  Once somebody has answered, it stays where it is until
the silence has lasted.

* `ask_poll_iff` says when a poll counts as answered: the reply has to carry `96 5A` and one more
  byte within a frame, without a timeout up to there.
* `Locked.psxkbdRun` is stability: the place is kept over every run of ticks in which no more than
  `kbdQuietMax` silent ones follow on each other.  A tick that does not get the bus is not silent.
* `found_of_scan` is progress: the scan comes to the place of the keyboard in at most eight ticks.

The two belong together because one counter serves both: a miss costs nothing while there is
patience, and the miss that uses it up throws the driver back into the scan.  The bus is shared with
the card driver, and a tick that finds it taken does not count as a miss, so the place is kept
however many of these lie in between.
-/

namespace Blackroo
namespace Keyboard

/-! ## When a poll is answered -/

/-- The reply carries `96 5A` and the number of scan codes within a frame. -/
def Answers (reply : Reply) : Prop :=
  ∃ i, i + 2 < kbdFrameLen ∧ (∀ j ≤ i + 2, (reply j).isSome) ∧
    reply i = some kbdId ∧ reply (i + 1) = some kbdReady

/-- `96 5A` and one more byte have come in. -/
def HasPair (rx : List UInt8) : Prop := ∃ i, i + 2 < rx.length ∧ PairAt rx i

theorem HasPair.append {rx : List UInt8} (h : HasPair rx) (more : List UInt8) :
    HasPair (rx ++ more) := by
  obtain ⟨i, hi, hpair⟩ := h
  refine ⟨i, ?_, ?_⟩
  · rw [List.length_append]
    omega
  · rw [PairAt, List.getD_append _ _ _ _ (by omega), List.getD_append _ _ _ _ (by omega)]
    exact hpair

/-- The frame is cut short only behind a `96 5A`. -/
theorem wantAfter_eq_or (want i : Nat) (rx : List UInt8) :
    wantAfter want i rx = want ∨ (2 ≤ i ∧ PairAt rx (i - 2)) := by
  rw [wantAfter]
  split
  · next h => exact .inr h.2
  · exact .inl rfl

/-- What the loop has received, and why it has stopped. -/
structure Received (reply : Reply) (rx : List UInt8) : Prop where
  length_le : rx.length ≤ kbdFrameLen
  bytes : ∀ i < rx.length, reply i = rx[i]?
  stopped : rx.length = kbdFrameLen ∨ reply rx.length = none ∨ HasPair rx

theorem received_frameLoop {reply : Reply} (turns want : Nat) (rx : List UInt8)
    (hturns : turns + rx.length = kbdFrameLen) (hbytes : ∀ i < rx.length, reply i = rx[i]?)
    (hwant : want = kbdFrameLen ∨ HasPair rx) :
    Received reply (frameLoop reply turns want rx) := by
  induction turns generalizing want rx with
  | zero =>
    rw [Nat.zero_add] at hturns
    exact ⟨hturns.le, hbytes, .inl hturns⟩
  | succ turns ih =>
    rw [frameLoop]
    split
    · next hlt =>
      cases hreply : reply rx.length with
      | none => exact ⟨by dsimp only; omega, hbytes, .inr (.inl hreply)⟩
      | some b =>
        have hlen : (rx ++ [b]).length = rx.length + 1 := by
          rw [List.length_append, List.length_singleton]
        refine ih _ _ (by omega) ?_ ?_
        · intro i hi
          rcases Nat.lt_or_ge i rx.length with hin | hout
          · rw [hbytes i hin, List.getElem?_append_left hin]
          · obtain rfl : i = rx.length := by omega
            rw [hreply, List.getElem?_concat_length]
        · rcases wantAfter_eq_or want rx.length (rx ++ [b]) with heq | ⟨h2, hpair⟩
          · rw [heq]
            exact hwant.imp_right fun h => h.append [b]
          · exact .inr ⟨rx.length - 2, by omega, hpair⟩
    · next hge =>
      refine ⟨by omega, hbytes, .inr (.inr (hwant.resolve_left ?_))⟩
      omega

theorem received_psxkbdFrame (reply : Reply) : Received reply (psxkbdFrame reply) := by
  refine received_frameLoop kbdFrameLen kbdFrameLen [] rfl ?_ (.inl rfl)
  intro i hi
  exact absurd hi (Nat.not_lt_zero i)

/-- A byte of the frame is one of the reply. -/
theorem Received.reply_eq {reply : Reply} {rx : List UInt8} (h : Received reply rx) {i : Nat}
    (hi : i < rx.length) : reply i = some (rx.getD i 0) := by
  rw [h.bytes i hi, List.getD_eq_getElem _ _ hi, List.getElem?_eq_getElem hi]

theorem Received.hasPair_iff {reply : Reply} {rx : List UInt8} (h : Received reply rx) :
    HasPair rx ↔ Answers reply := by
  constructor
  · rintro ⟨i, hi, hid, hready⟩
    refine ⟨i, hi.trans_le h.length_le, ?_, ?_, ?_⟩
    · intro j hj
      rw [h.reply_eq (by omega)]
      rfl
    · rw [h.reply_eq (by omega), hid]
    · rw [h.reply_eq (by omega), hready]
  · rintro ⟨i, hi, hsome, hid, hready⟩
    -- unless the frame was cut short, it goes on until the reply times out
    have hreach : HasPair rx ∨ i + 2 < rx.length := by
      rcases h.stopped with hfull | hnone | hpair
      · exact .inr (by omega)
      · refine .inr (Nat.lt_of_not_le fun hle => ?_)
        have := hsome _ hle
        rw [hnone] at this
        cases this
      · exact .inl hpair
    refine hreach.elim id fun hlt => ⟨i, hlt, ?_, ?_⟩
    · rw [h.reply_eq (by omega)] at hid
      exact Option.some.inj hid
    · rw [h.reply_eq (by omega)] at hready
      exact Option.some.inj hready

theorem psxkbdDecode_alive_iff (rx : List UInt8) (p : Pending) :
    (psxkbdDecode rx p).1 = true ↔ HasPair rx := by
  rw [psxkbdDecode]
  cases hanchor : anchor rx with
  | none =>
    refine ⟨fun h => absurd h Bool.false_ne_true, ?_⟩
    rintro ⟨i, hi, hpair⟩
    rw [anchor, List.find?_eq_none] at hanchor
    exact absurd (decide_eq_true hpair) (hanchor i (List.mem_range.mpr (by omega)))
  | some start =>
    rw [anchor, List.find?_range_eq_some] at hanchor
    obtain ⟨hpair, -, hfirst⟩ := hanchor
    dsimp only
    split
    · next hout =>
      refine ⟨fun h => absurd h Bool.false_ne_true, ?_⟩
      rintro ⟨i, hi, hpair'⟩
      have := hfirst i (by omega)
      rw [decide_eq_true hpair'] at this
      cases this
    · next hin =>
      have hhas : HasPair rx := ⟨start, by omega, of_decide_eq_true hpair⟩
      split
      · exact ⟨fun _ => hhas, fun _ => rfl⟩
      · exact ⟨fun _ => hhas, fun _ => rfl⟩

/-- **When a poll is answered.** -/
theorem ask_poll_iff (s : Psxkbd) (reply : Nat → UInt8 → Reply) :
    (s.ask (.poll reply)).1 = true ↔ Answers (reply s.slot s.addr) := by
  have hreceived := received_psxkbdFrame (reply s.slot s.addr)
  rw [← hreceived.hasPair_iff]
  simp only [Psxkbd.ask]
  split
  · exact psxkbdDecode_alive_iff _ _
  · next hempty =>
    refine ⟨fun h => absurd h Bool.false_ne_true, ?_⟩
    rintro ⟨i, hi, -⟩
    omega

/-! ## One tick -/

theorem Psxkbd.search_of_present {s : Psxkbd} (h : s.present = true) : s.search = s := by
  rw [Psxkbd.search, if_pos h]

/-- The place that is tried next, and the one after it. -/
theorem Psxkbd.search_of_absent {s : Psxkbd} (h : s.present = false) :
    s.search.slot = s.scan / 4 % 2 ∧ s.search.addr = 0x01 + UInt8.ofNat (s.scan % 4) ∧
      s.search.scan = (s.scan + 1) % 8 := by
  rw [Psxkbd.search, if_neg (by simp [h])]
  refine ⟨?_, ?_, ?_⟩
  · exact (Nat.and_two_pow_sub_one_eq_mod _ 1).trans (by rw [Nat.shiftRight_eq_div_pow])
  · exact congrArg (fun k => 0x01 + UInt8.ofNat k) (Nat.and_two_pow_sub_one_eq_mod _ 2)
  · exact Nat.and_two_pow_sub_one_eq_mod _ 3

/-- The place is the one that was tried, whatever came of it. -/
theorem psxkbdTick_place (s : Psxkbd) (jiffies : Nat) (turn : Turn) :
    (psxkbdTick s jiffies turn).1.slot = s.search.slot ∧
      (psxkbdTick s jiffies turn).1.addr = s.search.addr ∧
      (psxkbdTick s jiffies turn).1.scan = s.search.scan := by
  simp only [psxkbdTick, Psxkbd.settle]
  split
  · exact ⟨rfl, rfl, rfl⟩
  split <;> exact ⟨rfl, rfl, rfl⟩

theorem psxkbdTick_answered {s : Psxkbd} {turn : Turn} (h : (s.search.ask turn).1 = true)
    (jiffies : Nat) :
    (psxkbdTick s jiffies turn).1.present = true ∧ (psxkbdTick s jiffies turn).1.quiet = 0 := by
  simp only [psxkbdTick, Psxkbd.settle]
  rw [if_pos h]
  exact ⟨rfl, rfl⟩

/-- A miss is counted while there is patience left, and costs the keyboard after that. -/
theorem psxkbdTick_missed {s : Psxkbd} {turn : Turn} (h : (s.search.ask turn).1 = false)
    (jiffies : Nat) :
    (s.search.quiet < kbdQuietMax → (psxkbdTick s jiffies turn).1.present = s.present ∧
        (psxkbdTick s jiffies turn).1.quiet = s.search.quiet + 1) ∧
      (s.present = false → (psxkbdTick s jiffies turn).1.present = false) := by
  simp only [psxkbdTick, Psxkbd.settle]
  rw [if_neg (by simp [h])]
  split
  · exact ⟨fun _ => ⟨s.search_present, rfl⟩, fun habsent => s.search_present.trans habsent⟩
  · next hge => exact ⟨fun hlt => absurd hlt hge, fun _ => rfl⟩

/-- The keyboard is there after a tick that it was not there before only if it has answered. -/
theorem ask_of_found {s : Psxkbd} {jiffies : Nat} {turn : Turn} (habsent : s.present = false)
    (hfound : (psxkbdTick s jiffies turn).1.present = true) : (s.search.ask turn).1 = true := by
  cases hask : (s.search.ask turn).1 with
  | true => rfl
  | false =>
    rw [(psxkbdTick_missed hask jiffies).2 habsent] at hfound
    cases hfound

/-! ## Keeping the place -/

/-- The tick gets the bus and nobody answers at the place. -/
def Turn.Silent (slot : Nat) (addr : UInt8) : Turn → Prop
  | .busy => False
  | .poll reply => ¬ Answers (reply slot addr)

/-- The driver has its keyboard at the place. -/
structure Locked (s : Psxkbd) (slot : Nat) (addr : UInt8) : Prop where
  present : s.present = true
  slot_eq : s.slot = slot
  addr_eq : s.addr = addr

namespace Locked

variable {s : Psxkbd} {slot : Nat} {addr : UInt8}

theorem ask_iff (h : Locked s slot addr) (turn : Turn) :
    (s.search.ask turn).1 = true ↔ ¬ turn.Silent slot addr := by
  rw [Psxkbd.search_of_present h.present]
  cases turn with
  | busy => exact ⟨fun _ hsilent => hsilent, fun _ => h.present⟩
  | poll reply => rw [ask_poll_iff, h.slot_eq, h.addr_eq, Turn.Silent, not_not]

theorem psxkbdTick (h : Locked s slot addr) (jiffies : Nat) (turn : Turn)
    (hpresent : (Keyboard.psxkbdTick s jiffies turn).1.present = true) :
    Locked (Keyboard.psxkbdTick s jiffies turn).1 slot addr := by
  obtain ⟨hslot, haddr, -⟩ := psxkbdTick_place s jiffies turn
  rw [Psxkbd.search_of_present h.present] at hslot haddr
  exact ⟨hpresent, hslot.trans h.slot_eq, haddr.trans h.addr_eq⟩

/-- A run of ticks that the patience is enough for: the silent ticks at its start come on top of
those already counted. -/
structure Bearable (quiet slot : Nat) (addr : UInt8) (ticks : List (Nat × Turn)) : Prop where
  first : ∀ run, run <+: ticks → (∀ tick ∈ run, tick.2.Silent slot addr) →
    quiet + run.length ≤ kbdQuietMax
  later : ∀ run, run <:+: ticks → (∀ tick ∈ run, tick.2.Silent slot addr) →
    run.length ≤ kbdQuietMax

theorem Bearable.tail {quiet : Nat} {tick : Nat × Turn} {ticks : List (Nat × Turn)}
    (h : Bearable quiet slot addr (tick :: ticks)) : Bearable 0 slot addr ticks := by
  have hlater : ∀ run, run <:+: ticks → (∀ tick ∈ run, tick.2.Silent slot addr) →
      run.length ≤ kbdQuietMax := fun run hrun => h.later run (List.infix_cons hrun)
  refine ⟨fun run hrun hsilent => ?_, hlater⟩
  rw [Nat.zero_add]
  exact hlater run hrun.isInfix hsilent

theorem Bearable.tail_of_silent {quiet : Nat} {tick : Nat × Turn} {ticks : List (Nat × Turn)}
    (h : Bearable quiet slot addr (tick :: ticks)) (hsilent : tick.2.Silent slot addr) :
    quiet < kbdQuietMax ∧ Bearable (quiet + 1) slot addr ticks := by
  have hfirst : ∀ run, run <+: ticks → (∀ tick ∈ run, tick.2.Silent slot addr) →
      quiet + 1 + run.length ≤ kbdQuietMax := by
    intro run hrun hall
    have := h.first (tick :: run) ((List.prefix_cons_inj tick).mpr hrun)
      (List.forall_mem_cons.mpr ⟨hsilent, hall⟩)
    rw [List.length_cons] at this
    omega
  refine ⟨?_, hfirst, h.tail.later⟩
  exact hfirst [] List.nil_prefix fun tick htick => absurd htick List.not_mem_nil

/-- **The place is kept** over every run that the patience is enough for. -/
theorem psxkbdRun {ticks : List (Nat × Turn)} (h : Locked s slot addr)
    (hticks : Bearable s.quiet slot addr ticks) :
    Locked (Keyboard.psxkbdRun s ticks).1 slot addr := by
  induction ticks generalizing s with
  | nil => exact h
  | cons tick ticks ih =>
    obtain ⟨jiffies, turn⟩ := tick
    rw [Keyboard.psxkbdRun]
    by_cases hsilent : turn.Silent slot addr
    · obtain ⟨hquiet, hrest⟩ := hticks.tail_of_silent hsilent
      have hask : (s.search.ask turn).1 = false :=
        Bool.eq_false_iff.mpr fun hask => (h.ask_iff turn).mp hask hsilent
      have hmissed := (psxkbdTick_missed hask jiffies).1
      rw [Psxkbd.search_of_present h.present] at hmissed
      obtain ⟨hpresent, hcount⟩ := hmissed hquiet
      refine ih (h.psxkbdTick jiffies turn (hpresent.trans h.present)) ?_
      rw [hcount]
      exact hrest
    · obtain ⟨hpresent, hcount⟩ :=
        psxkbdTick_answered ((h.ask_iff turn).mpr hsilent) jiffies
      refine ih (h.psxkbdTick jiffies turn hpresent) ?_
      rw [hcount]
      exact hticks.tail

end Locked

/-! ## Finding the place -/

/-- The tick gets the bus, and of the eight places the one on this port and floor answers. -/
def Turn.AnsweredOnlyAt (port floor : Nat) : Turn → Prop
  | .busy => False
  | .poll reply => ∀ slot < 2, ∀ tap < 4,
      Answers (reply slot (0x01 + UInt8.ofNat tap)) ↔ slot = port ∧ tap = floor

section Scan

variable {port floor : Nat} (hport : port < 2) (hfloor : floor < 4)
include hport hfloor

theorem not_silent_of_answeredOnlyAt {turn : Turn} (h : turn.AnsweredOnlyAt port floor) :
    ¬ turn.Silent port (0x01 + UInt8.ofNat floor) := by
  cases turn with
  | busy => exact fun hsilent => hsilent
  | poll reply => exact not_not_intro ((h port hport floor hfloor).mpr ⟨rfl, rfl⟩)

omit hport hfloor in
theorem ask_of_scan {s : Psxkbd} (habsent : s.present = false) {turn : Turn}
    (h : turn.AnsweredOnlyAt port floor) :
    (s.search.ask turn).1 = true ↔ s.scan / 4 % 2 = port ∧ s.scan % 4 = floor := by
  obtain ⟨hslot, haddr, -⟩ := Psxkbd.search_of_absent habsent
  cases turn with
  | busy => exact h.elim
  | poll reply =>
    rw [ask_poll_iff, hslot, haddr]
    exact h _ (Nat.mod_lt _ (by decide)) _ (Nat.mod_lt _ (by decide))

/-- The keyboard is found once the scan has come to its place, which is `left` ticks away. -/
theorem found_of_scan {s : Psxkbd} (habsent : s.present = false) (left : Nat)
    (hleft : (s.scan + left) % 8 = 4 * port + floor) {ticks : List (Nat × Turn)}
    (hlong : left < ticks.length) (h : ∀ tick ∈ ticks, tick.2.AnsweredOnlyAt port floor) :
    Locked (psxkbdRun s ticks).1 port (0x01 + UInt8.ofNat floor) := by
  induction ticks generalizing s left with
  | nil => exact absurd hlong (Nat.not_lt_zero left)
  | cons tick ticks ih =>
    obtain ⟨jiffies, turn⟩ := tick
    obtain ⟨hturn, hrest⟩ := List.forall_mem_cons.mp h
    obtain ⟨hslot, haddr, hscan⟩ := Psxkbd.search_of_absent habsent
    obtain ⟨hslot', haddr', hscan'⟩ := psxkbdTick_place s jiffies turn
    have hask := ask_of_scan habsent hturn
    rw [psxkbdRun]
    by_cases hhere : s.scan / 4 % 2 = port ∧ s.scan % 4 = floor
    · obtain ⟨hpresent, hquiet⟩ := psxkbdTick_answered (hask.mpr hhere) jiffies
      have hlocked : Locked (psxkbdTick s jiffies turn).1 port (0x01 + UInt8.ofNat floor) :=
        ⟨hpresent, by rw [hslot', hslot, hhere.1], by rw [haddr', haddr, hhere.2]⟩
      -- from here on there is no silent tick
      have hnone : ∀ run, run <:+: ticks →
          (∀ tick ∈ run, tick.2.Silent port (0x01 + UInt8.ofNat floor)) → run = [] := by
        intro run hrun hsilent
        refine List.eq_nil_iff_forall_not_mem.mpr fun tick htick => ?_
        exact not_silent_of_answeredOnlyAt hport hfloor (hrest tick (hrun.subset htick))
          (hsilent tick htick)
      refine hlocked.psxkbdRun ⟨fun run hrun hsilent => ?_, fun run hrun hsilent => ?_⟩
      · rw [hnone run hrun.isInfix hsilent, hquiet]
        exact Nat.zero_le _
      · rw [hnone run hrun hsilent]
        exact Nat.zero_le _
    · have hmiss : (s.search.ask turn).1 = false :=
        Bool.eq_false_iff.mpr fun hfound => hhere (hask.mp hfound)
      have hpos : left ≠ 0 := by
        rintro rfl
        exact hhere ⟨by omega, by omega⟩
      refine ih ((psxkbdTick_missed hmiss jiffies).2 habsent) (left - 1) ?_ ?_ hrest
      · rw [hscan', hscan]
        omega
      · rw [List.length_cons] at hlong
        omega

end Scan

/-! ## The whole -/

theorem psxkbdTick_timer (s : Psxkbd) (jiffies : Nat) (turn : Turn) :
    ∃ expires, jiffies < expires ∧ (psxkbdTick s jiffies turn).1.timer = some expires := by
  have hpos : ∀ present : Bool, 0 < if present then kbdPollTicks else kbdIdleTicks := by decide
  exact ⟨_, Nat.lt_add_of_pos_right (hpos _), rfl⟩

/-- **Discovery.**  Eight ticks that get the bus find a keyboard, wherever the scan was.  From the
tick that finds one its place is kept over every run of ticks, unless more than `kbdQuietMax` ticks
in a row get the bus and no answer.  Every tick arms the timer for a later time. -/
theorem keyboard_found_and_kept :
    (∀ (s : Psxkbd) (port floor : Nat) (ticks : List (Nat × Turn)), s.present = false →
      port < 2 → floor < 4 → ticks.length = 8 →
      (∀ tick ∈ ticks, tick.2.AnsweredOnlyAt port floor) →
      Locked (psxkbdRun s ticks).1 port (0x01 + UInt8.ofNat floor)) ∧
    (∀ (s t : Psxkbd) (jiffies : Nat) (turn : Turn) (ticks : List (Nat × Turn)),
      s.present = false → (psxkbdTick s jiffies turn).1 = t → t.present = true →
      (∀ run, run <:+: ticks → (∀ tick ∈ run, tick.2.Silent t.slot t.addr) →
        run.length ≤ kbdQuietMax) →
      Locked (psxkbdRun t ticks).1 t.slot t.addr) ∧
    (∀ (s : Psxkbd) (jiffies : Nat) (turn : Turn),
      ∃ expires, jiffies < expires ∧ (psxkbdTick s jiffies turn).1.timer = some expires) := by
  refine ⟨?_, ?_, psxkbdTick_timer⟩
  · intro s port floor ticks habsent hport hfloor hlength hticks
    -- how far the scan is from the place, with the turn over the end
    have hleft : (s.scan + (4 * port + floor + 8 - s.scan % 8) % 8) % 8 = 4 * port + floor := by
      omega
    refine found_of_scan hport hfloor habsent _ hleft ?_ hticks
    rw [hlength]
    exact Nat.mod_lt _ (by decide)
  · rintro s t jiffies turn ticks habsent rfl hpresent hpatient
    have hquiet := (psxkbdTick_answered (ask_of_found habsent hpresent) jiffies).2
    have hlocked : Locked (psxkbdTick s jiffies turn).1 (psxkbdTick s jiffies turn).1.slot
        (psxkbdTick s jiffies turn).1.addr := ⟨hpresent, rfl, rfl⟩
    refine hlocked.psxkbdRun ⟨fun run hrun hsilent => ?_, hpatient⟩
    rw [hquiet, Nat.zero_add]
    exact hpatient run hrun.isInfix hsilent

/-- A keyboard at address `02` of port 2; and one on port 1 that is waited for during fifty silent
ticks. -/
theorem keyboard_found_on_second_port :
    Locked (psxkbdRun (kbdInitHw 0) (List.replicate 8 (0, .poll fun slot addr i =>
        if slot = 1 ∧ addr = 0x02 then [0x96, 0x5a, 0x00][i]? else none))).1 1 0x02 ∧
      Locked (psxkbdRun (psxkbdTick (kbdInitHw 0) 0 (.poll fun _ _ i => [0x96, 0x5a, 0x00][i]?)).1
        (List.replicate 50 (0, .poll fun _ _ _ => none))).1 0 0x01 := by
  have htap : ∀ tap < 4, (0x01 : UInt8) + UInt8.ofNat tap = 0x02 → tap = 1 := by decide
  refine ⟨?_, ?_⟩
  · refine keyboard_found_and_kept.1 (kbdInitHw 0) 1 1 _ rfl (by decide) (by decide) rfl ?_
    intro tick htick
    rw [List.eq_of_mem_replicate htick]
    intro slot hslot tap hfloor
    constructor
    · rintro ⟨i, -, hsome, -⟩
      have hhere : slot = 1 ∧ (0x01 : UInt8) + UInt8.ofNat tap = 0x02 := by
        by_contra hother
        have := hsome 0 (Nat.zero_le _)
        simp [hother] at this
      exact ⟨hhere.1, htap tap hfloor hhere.2⟩
    · rintro ⟨rfl, rfl⟩
      exact ⟨0, by decide, by decide, by decide, by decide⟩
  · refine keyboard_found_and_kept.2.1 (kbdInitHw 0) _ 0 _ _ rfl rfl (by decide) ?_
    intro run hrun _
    exact hrun.length_le

end Keyboard
end Blackroo
