import Mathlib.Tactic.IntervalCases
import Blackroo.MemoryCard.Transfer

/-!
# Inside the table of handlers

`bu_rd_routine` calls `bu_rd_states[bu->state]` and checks nothing.  The table has a gap between its
two halves and ends with the last handler of a write, and in each half one handler uses `bu->cnt` as
an index into the 128 bytes of the buffer.  `Bu.InTable` says of a transfer that a call is all
right.

A transfer is in one of two conditions.  From `bu_sw_init` on it is under way, and every call finds
a handler.  When the last handler has seen the end byte, `bu_rd_state12` sets `bu->stop` and returns
1, and `bu_rd_routine` moves the state behind that handler as it does behind any other one: to the
gap after a read, past the table after a write.  Such a transfer is over, and must not be called
again.  No third condition is reached (`Bu.Under.routine`).
-/

namespace Blackroo
namespace MemoryCard

/-- The next handler is `bu_rd_data` or `bu_wr_data`. -/
def Bu.Indexes (bu : Bu) : Prop := bu.state = 11 ∨ bu.state = 22

/-- **A call of `bu_rd_routine` that is all right**: there is a handler, and what it takes from the
buffer or puts there is inside of it. -/
structure Bu.InTable (bu : Bu) : Prop where
  entry : (buRdStates.getD bu.state none).isSome
  index : bu.Indexes → bu.cnt < buBlkSize

instance (bu : Bu) : Decidable bu.Indexes := inferInstanceAs (Decidable (_ ∨ _))

instance (bu : Bu) : Decidable bu.InTable :=
  decidable_of_iff ((buRdStates.getD bu.state none).isSome ∧ (bu.Indexes → bu.cnt < buBlkSize))
    ⟨fun h => ⟨h.1, h.2⟩, fun h => ⟨h.entry, h.index⟩⟩

/-- The entries with a handler are the 13 of a read and the 11 of a write. -/
theorem isSome_buRdStates_iff (k : Nat) :
    (buRdStates.getD k none).isSome ↔ k < 13 ∨ 16 ≤ k ∧ k < 27 := by
  by_cases hk : k < 27
  · have htable : ∀ i : Fin 27, (buRdStates.getD i none).isSome ↔ i.val < 13 ∨ 16 ≤ i.val := by
      decide
    refine (htable ⟨k, hk⟩).trans ?_
    show k < 13 ∨ 16 ≤ k ↔ _
    omega
  · have hlength : buRdStates.length ≤ k := Nat.le_of_not_lt hk
    rw [List.getD_eq_getElem?_getD, List.getElem?_eq_none hlength]
    simp only [Option.getD_none, Option.isSome_none, Bool.false_eq_true, false_iff]
    omega

/-! ## The two conditions -/

/-- Where a transfer can be between two calls, with its counter. -/
def UnderWayAt (state cnt : Nat) : Prop :=
  state ≤ 10 ∧ cnt = 0 ∨ state = 11 ∧ cnt < 128 ∨ state = 12 ∧ cnt = 128 ∨
    16 ≤ state ∧ state ≤ 21 ∧ cnt = 0 ∨ state = 22 ∧ cnt < 128 ∨
    23 ≤ state ∧ state ≤ 26 ∧ cnt = 128

/-- A transfer that is under way. -/
structure Bu.Under (bu : Bu) : Prop where
  running : bu.stop = false
  place : UnderWayAt bu.state bu.cnt

/-- A transfer that has come to its end. -/
structure Bu.Over (bu : Bu) : Prop where
  stopped : bu.stop = true
  place : bu.state = 13 ∨ bu.state = 27

/-- What every transfer of the driver is. -/
def Bu.Fits (bu : Bu) : Prop := bu.Under ∨ bu.Over

theorem Bu.Under.inTable {bu : Bu} (h : bu.Under) : bu.InTable := by
  have hplace := h.place
  unfold UnderWayAt at hplace
  constructor
  · rw [isSome_buRdStates_iff]
    omega
  · intro hindex
    unfold Bu.Indexes at hindex
    show bu.cnt < 128
    omega

theorem Bu.Over.not_inTable {bu : Bu} (h : bu.Over) : ¬ bu.InTable := by
  intro hin
  have hentry := (isSome_buRdStates_iff _).mp hin.entry
  have hplace := h.place
  omega

/-- Only the place in the table counts. -/
theorem Bu.Fits.congr {bu bu' : Bu} (h : bu.Fits) (hstate : bu'.state = bu.state)
    (hcnt : bu'.cnt = bu.cnt) (hstop : bu'.stop = bu.stop) : bu'.Fits := by
  rcases h with h | h
  · exact .inl ⟨hstop.trans h.running, by rw [hstate, hcnt]; exact h.place⟩
  · exact .inr ⟨hstop.trans h.stopped, by rw [hstate]; exact h.place⟩

theorem Bu.Fits.under {bu : Bu} (h : bu.Fits) (hstop : bu.stop = false) : bu.Under := by
  rcases h with h | h
  · exact h
  · exact absurd (hstop.symm.trans h.stopped) (by decide)

theorem Bu.Fits.over {bu : Bu} (h : bu.Fits) (hstop : bu.stop = true) : bu.Over := by
  rcases h with h | h
  · exact absurd (h.running.symm.trans hstop) (by decide)
  · exact h

/-- `bu_sw_init` puts a transfer in front of one of the halves. -/
theorem under_of_buSwInit {bu bu' : Bu} (h : buSwInit bu = some bu') :
    bu'.Under ∧ (bu'.state = 0 ∨ bu'.state = 16) := by
  unfold buSwInit at h
  simp only at h
  split at h
  · obtain rfl := Option.some.inj h
    exact ⟨⟨rfl, .inl ⟨Nat.zero_le _, rfl⟩⟩, .inl rfl⟩
  · split at h
    · obtain rfl := Option.some.inj h
      refine ⟨⟨rfl, ?_⟩, .inr rfl⟩
      unfold UnderWayAt
      simp
    · cases h

/-! ## What the handlers do to the place -/

/-- A handler that goes on or gives up, and leaves the place to `bu_rd_routine`. -/
structure Plain (bu : Bu) (o : Outcome) : Prop where
  status : o.status = 1 ∨ o.status = -1
  state : o.bu.state = bu.state
  cnt : o.bu.cnt = bu.cnt
  stop : o.bu.stop = bu.stop

theorem plain_exchange (check : UInt8 → Bool) (send : UInt8) (bu : Bu) (input : CardInput) :
    Plain bu (exchange check send bu input) := by
  refine ⟨?_, rfl, rfl, rfl⟩
  unfold exchange
  cases check input.byte
  · exact .inr rfl
  · exact .inl rfl

/-- All handlers are plain, but for those of the data and the last one. -/
theorem exists_plain {k : Nat} (hk : k ≤ 10 ∨ 16 ≤ k ∧ k ≤ 21 ∨ 23 ≤ k ∧ k ≤ 25) :
    ∃ handler, buRdStates.getD k none = some handler ∧ ∀ bu input, Plain bu (handler bu input) := by
  rcases hk with hk | ⟨hlow, hk⟩ | ⟨hlow, hk⟩ <;> interval_cases k
  all_goals first
    | exact ⟨_, rfl, fun bu input => plain_exchange _ _ bu input⟩
    | exact ⟨_, rfl, fun bu input => ⟨.inl rfl, rfl, rfl, rfl⟩⟩

/-- How a call of a transfer under way ends. -/
inductive Goes (bu : Bu) (o : Outcome) : Prop
  | fails (hstatus : o.status = -1) (hunder : o.bu.Under)
  | advances (hstatus : o.status = 0) (hunder : o.bu.Under)
  | ends (hstatus : o.status = 0) (hlast : bu.state = 12 ∨ bu.state = 26) (hover : o.bu.Over)

section Call

variable {bu : Bu} {handler : Handler} (htable : buRdStates.getD bu.state none = some handler)

include htable

theorem exists_goes_of_plain (input : CardInput) (hplain : Plain bu (handler bu input))
    (hunder : bu.Under) (hnext : UnderWayAt (bu.state + 1) bu.cnt) :
    ∃ o, buRdRoutine bu input = some o ∧ Goes bu o := by
  rcases hplain.status with hstatus | hstatus
  · refine ⟨_, buRdRoutine_go htable (by rw [hstatus]; decide), .advances rfl ⟨?_, ?_⟩⟩
    · exact hplain.stop.trans hunder.running
    · show UnderWayAt ((handler bu input).bu.state + (handler bu input).status.toNat)
        (handler bu input).bu.cnt
      rw [hplain.state, hplain.cnt, hstatus]
      exact hnext
  · refine ⟨{ handler bu input with status := -1 }, ?_, .fails rfl ⟨?_, ?_⟩⟩
    · unfold buRdRoutine
      rw [htable]
      exact if_pos (by rw [hstatus]; decide)
    · exact hplain.stop.trans hunder.running
    · rw [hplain.state, hplain.cnt]
      exact hunder.place

/-- The handlers of the data count, and go on after 128 bytes. -/
theorem exists_goes_of_data (input : CardInput)
    (hstatus : (handler bu input).status = if bu.cnt + 1 = buBlkSize then 1 else 0)
    (hstop : (handler bu input).bu.stop = bu.stop)
    (hstate : (handler bu input).bu.state = bu.state)
    (hcnt : (handler bu input).bu.cnt = bu.cnt + 1) (hunder : bu.Under) (hindex : bu.Indexes) :
    ∃ o, buRdRoutine bu input = some o ∧ Goes bu o := by
  have hplace : bu.cnt < 128 := hunder.inTable.index hindex
  have hsize : buBlkSize = 128 := rfl
  unfold Bu.Indexes at hindex
  refine ⟨_, buRdRoutine_go htable (by rw [hstatus]; split <;> decide), .advances rfl ⟨?_, ?_⟩⟩
  · exact hstop.trans hunder.running
  · show UnderWayAt ((handler bu input).bu.state + (handler bu input).status.toNat)
      (handler bu input).bu.cnt
    rw [hstate, hcnt, hstatus]
    unfold UnderWayAt
    split
    · rw [show (1 : Int).toNat = 1 from rfl]
      omega
    · rw [show (0 : Int).toNat = 0 from rfl]
      omega

end Call

/-- The last handler of both halves. -/
theorem exists_goes_of_last {bu : Bu} (htable : buRdStates.getD bu.state none = some buRdState12)
    (input : CardInput) (hunder : bu.Under) (hlast : bu.state = 12 ∨ bu.state = 26) :
    ∃ o, buRdRoutine bu input = some o ∧ Goes bu o := by
  unfold buRdRoutine
  rw [htable]
  unfold buRdState12
  dsimp only
  have hfail (byte : UInt8) : ({ bu with byte := byte } : Bu).Under :=
    ⟨hunder.running, hunder.place⟩
  split
  · exact ⟨_, rfl, .fails rfl (hfail _)⟩
  · split
    · exact ⟨_, rfl, .fails rfl (hfail _)⟩
    · split
      · refine ⟨_, rfl, .ends rfl hlast ⟨rfl, ?_⟩⟩
        show bu.state + 1 = 13 ∨ bu.state + 1 = 27
        omega
      · exact ⟨_, rfl, .fails rfl (hfail _)⟩

/-- **A transfer under way stays in the table until it is over**, whatever the card sends. -/
theorem Bu.Under.routine {bu : Bu} (h : bu.Under) (input : CardInput) :
    ∃ o, buRdRoutine bu input = some o ∧ Goes bu o := by
  have hplain (hk : bu.state ≤ 10 ∨ 16 ≤ bu.state ∧ bu.state ≤ 21 ∨
      23 ≤ bu.state ∧ bu.state ≤ 25) (hnext : UnderWayAt (bu.state + 1) bu.cnt) :
      ∃ o, buRdRoutine bu input = some o ∧ Goes bu o := by
    obtain ⟨handler, htable, hhandler⟩ := exists_plain hk
    exact exists_goes_of_plain htable input (hhandler bu input) h hnext
  rcases h.place with hp | hp | hp | hp | hp | hp
  · exact hplain (by omega) (by unfold UnderWayAt; omega)
  · have htable : buRdStates.getD bu.state none = some buRdData := by
      rw [hp.1]
      rfl
    exact exists_goes_of_data htable input rfl rfl rfl rfl h (.inl hp.1)
  · exact exists_goes_of_last (by rw [hp.1]; rfl) input h (.inl hp.1)
  · exact hplain (by omega) (by unfold UnderWayAt; omega)
  · have htable : buRdStates.getD bu.state none = some buWrData := by
      rw [hp.1]
      rfl
    exact exists_goes_of_data htable input rfl rfl rfl rfl h (.inr hp.1)
  · by_cases hlast : bu.state = 26
    · exact exists_goes_of_last (by rw [hlast]; rfl) input h (.inr hlast)
    · exact hplain (by omega) (by unfold UnderWayAt; omega)

end MemoryCard
end Blackroo
