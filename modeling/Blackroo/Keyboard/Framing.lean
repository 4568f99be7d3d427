import Mathlib.Data.List.GetD
import Mathlib.Data.List.Forall2
import Blackroo.Keyboard.Psxkbd

/-!
# What is typed does not depend on the frames

A keyboard sends a stream of scan codes.  The driver sees it cut into polls, each behind some bytes
of lag and with whatever follows the frame behind it.  The results are

* `psxkbdFrame_eq`: a frame ends exactly behind its last scan code;
* `psxkbdDecode_eq`: the decoder finds the same scan codes the frame was cut short for;
* `typed_of_polls`: over a whole run of the timer the calls of `handle_scancode` are those that the
  stream itself calls for.

What a stream calls for is said by `typed`, which knows nothing of frames, polls or flags: each key
byte is one stroke, looked up and reported by the bytes since the key byte before it.
-/

namespace Blackroo
namespace Keyboard

/-! ## The meaning of a stream -/

/-- A byte that is neither padding nor an announcement. -/
def IsKey (b : UInt8) : Prop := b ≠ 0x00 ∧ b ≠ 0xff ∧ b ≠ 0xe0 ∧ b ≠ 0xf0

instance (b : UInt8) : Decidable (IsKey b) := inferInstanceAs (Decidable (_ ∧ _))

/-- The key bytes of a stream, each with the bytes since the key byte before it. -/
def strokes : List UInt8 → List UInt8 → List (List UInt8 × UInt8)
  | _, [] => []
  | since, b :: stream =>
    if IsKey b then (since, b) :: strokes [] stream else strokes (since ++ [b]) stream

/-- The event of a stroke: extended by an `E0`, a release by an `F0`, none for an unknown key. -/
def strokeEvent (stroke : List UInt8 × UInt8) : Option Event :=
  let keycode := psxkbdKeycode stroke.2 (decide (0xe0 ∈ stroke.1))
  if keycode ≠ 0 then some ⟨keycode, decide (0xf0 ∉ stroke.1)⟩ else none

/-- What a stream calls for, behind the bytes `since`. -/
def typed (since stream : List UInt8) : List Event := (strokes since stream).filterMap strokeEvent

/-- The bytes that an announcement stands for. -/
def Pending.bytes (p : Pending) : List UInt8 :=
  (if p.ext then [0xe0] else []) ++ (if p.brk then [0xf0] else [])

/-- The flags say which announcements are among the bytes. -/
def Pending.Announces (p : Pending) (since : List UInt8) : Prop :=
  p.ext = decide (0xe0 ∈ since) ∧ p.brk = decide (0xf0 ∈ since)

theorem Pending.announces_bytes (p : Pending) : p.Announces p.bytes := by
  rcases p with ⟨ext, brk⟩
  cases ext <;> cases brk <;> exact ⟨by decide, by decide⟩

theorem typed_cons_key {b : UInt8} (h : IsKey b) (since stream : List UInt8) :
    typed since (b :: stream) = (strokeEvent (since, b)).toList ++ typed [] stream := by
  rw [typed, strokes, if_pos h, List.filterMap_cons]
  cases strokeEvent (since, b) <;> rfl

theorem typed_cons_other {b : UInt8} (h : ¬ IsKey b) (since stream : List UInt8) :
    typed since (b :: stream) = typed (since ++ [b]) stream := by
  rw [typed, strokes, if_neg h]
  rfl

/-- The flags of the driver carry as much as the bytes they stand for. -/
theorem decodeBytes_events {p : Pending} {since : List UInt8} (h : p.Announces since)
    (stream : List UInt8) : (decodeBytes p stream).2 = typed since stream := by
  induction stream generalizing p since with
  | nil => rfl
  | cons b stream ih =>
    rw [decodeBytes]
    obtain ⟨hext, hbrk⟩ := h
    by_cases hpad : b = 0x00 ∨ b = 0xff
    · rw [if_pos hpad, typed_cons_other (by rcases hpad with rfl | rfl <;> decide)]
      refine ih ⟨?_, ?_⟩
      · rcases hpad with rfl | rfl <;> simp [hext]
      · rcases hpad with rfl | rfl <;> simp [hbrk]
    rw [if_neg hpad]
    by_cases he0 : b = 0xe0
    · subst he0
      rw [if_pos rfl, typed_cons_other (by decide)]
      exact ih ⟨by simp, by simp [hbrk]⟩
    rw [if_neg he0]
    by_cases hf0 : b = 0xf0
    · subst hf0
      rw [if_pos rfl, typed_cons_other (by decide)]
      exact ih ⟨by simp [hext], by simp⟩
    rw [if_neg hf0]
    have hkey : IsKey b := ⟨fun h => hpad (.inl h), fun h => hpad (.inr h), he0, hf0⟩
    rw [typed_cons_key hkey, ← ih (p := ⟨false, false⟩) ⟨by simp, by simp⟩]
    simp only [strokeEvent, hext, hbrk]
    split <;> simp

theorem decodeBytes_append (p : Pending) (codes more : List UInt8) :
    decodeBytes p (codes ++ more) =
      ((decodeBytes (decodeBytes p codes).1 more).1,
        (decodeBytes p codes).2 ++ (decodeBytes (decodeBytes p codes).1 more).2) := by
  induction codes generalizing p with
  | nil => rfl
  | cons b codes ih =>
    rw [List.cons_append, decodeBytes, decodeBytes]
    split
    · exact ih _
    split
    · exact ih _
    split
    · exact ih _
    rw [ih]
    ext1
    · rfl
    · dsimp only
      split <;> rfl

/-! ## A reply that carries scan codes -/

/-- The bytes of a frame up to its last scan code. -/
def frameBytes (lag payload : List UInt8) : List UInt8 :=
  lag ++ kbdId :: kbdReady :: UInt8.ofNat payload.length :: payload

/-- The reply is some lag without `96 5A`, then `96 5A`, the number of scan codes and the scan
codes, all within a frame.  Nothing is said of what comes behind them. -/
structure Delivers (reply : Reply) (lag payload : List UInt8) : Prop where
  lag_clear : ∀ i, ¬ PairAt lag i
  payload_clear : kbdId ∉ payload
  fits : lag.length + 3 + payload.length ≤ kbdFrameLen
  bytes : ∀ i < lag.length + 3 + payload.length, reply i = (frameBytes lag payload)[i]?

theorem length_frameBytes (lag payload : List UInt8) :
    (frameBytes lag payload).length = lag.length + 3 + payload.length := by
  simp only [frameBytes, List.length_append, List.length_cons]
  omega

theorem getD_frameBytes_add (lag payload : List UInt8) (i : Nat) :
    (frameBytes lag payload).getD (lag.length + i) 0 =
      (kbdId :: kbdReady :: UInt8.ofNat payload.length :: payload).getD i 0 := by
  rw [frameBytes, List.getD_append_right _ _ _ _ (Nat.le_add_right _ _), Nat.add_sub_cancel_left]

namespace Delivers

variable {reply : Reply} {lag payload : List UInt8}

theorem toNat_count (h : Delivers reply lag payload) :
    (UInt8.ofNat payload.length).toNat = payload.length := by
  have := h.fits
  rw [kbdFrameLen] at this
  rw [UInt8.toNat_ofNat']
  omega

theorem count_ne (h : Delivers reply lag payload) {b : UInt8} (hb : kbdFrameLen ≤ b.toNat) :
    UInt8.ofNat payload.length ≠ b := by
  intro heq
  have hcount := h.toNat_count
  have := h.fits
  rw [heq] at hcount
  omega

/-- There is one `96 5A` in the frame. -/
theorem pairAt_iff (h : Delivers reply lag payload) (i : Nat) :
    PairAt (frameBytes lag payload) i ↔ i = lag.length := by
  constructor
  · rintro ⟨hid, hready⟩
    by_contra hne
    rcases Nat.lt_or_gt_of_ne hne with hlt | hgt
    · rw [frameBytes, List.getD_append _ _ _ _ hlt] at hid
      rcases Nat.lt_or_ge (i + 1) lag.length with hin | hout
      · rw [frameBytes, List.getD_append _ _ _ _ hin] at hready
        exact h.lag_clear i ⟨hid, hready⟩
      · have hi : i + 1 = lag.length + 0 := by omega
        rw [hi, getD_frameBytes_add] at hready
        exact absurd hready (by simp [kbdId, kbdReady])
    · obtain ⟨k, rfl⟩ : ∃ k, i = lag.length + (k + 1) := ⟨i - lag.length - 1, by omega⟩
      rw [getD_frameBytes_add] at hid
      match k with
      | 0 => exact absurd hid (by simp [kbdId, kbdReady])
      | 1 => exact h.count_ne (by decide) hid
      | k + 2 =>
        simp only [List.getD_cons_succ] at hid
        rcases Nat.lt_or_ge k payload.length with hin | hout
        · rw [List.getD_eq_getElem _ _ hin] at hid
          exact h.payload_clear (hid ▸ List.getElem_mem hin)
        · rw [List.getD_eq_default _ _ hout] at hid
          exact absurd hid (by decide)
  · rintro rfl
    refine ⟨?_, ?_⟩
    · exact getD_frameBytes_add lag payload 0
    · exact getD_frameBytes_add lag payload 1

/-! ## The frame -/

/-- How many bytes are wanted once `k` are there: a whole frame, until the number of scan codes has
come in. -/
def wanted (lag payload : List UInt8) (k : Nat) : Nat :=
  if k ≤ lag.length + 2 then kbdFrameLen else lag.length + 3 + payload.length

theorem pairAt_take {rx : List UInt8} {i k : Nat} (hi : i + 1 < k) :
    PairAt (rx.take k) i ↔ PairAt rx i := by
  simp only [PairAt, List.getD_eq_getElem?_getD, List.getElem?_take]
  rw [if_pos (by omega), if_pos hi]

theorem wantAfter_frameBytes (h : Delivers reply lag payload) (k : Nat) :
    wantAfter (wanted lag payload k) k ((frameBytes lag payload).take (k + 1)) =
      wanted lag payload (k + 1) := by
  have hfits := h.fits
  by_cases hat : k = lag.length + 2
  · -- the number of scan codes has just come in
    have hpair : PairAt ((frameBytes lag payload).take (k + 1)) (k - 2) := by
      rw [pairAt_take (by omega), h.pairAt_iff]
      omega
    have hcount : ((frameBytes lag payload).take (k + 1)).getD k 0 =
        UInt8.ofNat payload.length := by
      rw [List.getD_eq_getElem?_getD, List.getElem?_take, if_pos (Nat.lt_succ_self k),
        ← List.getD_eq_getElem?_getD, hat]
      exact getD_frameBytes_add lag payload 2
    have hwant : wanted lag payload k = kbdFrameLen := by
      rw [wanted, if_pos (by omega)]
    rw [wantAfter, if_pos ⟨hwant, by omega, hpair⟩, hcount, if_pos (h.count_ne (by decide)),
      h.toNat_count, wanted, if_neg (by omega)]
    omega
  · have hpair : ¬ (2 ≤ k ∧ PairAt ((frameBytes lag payload).take (k + 1)) (k - 2)) := by
      rintro ⟨h2, hpair⟩
      rw [pairAt_take (by omega), h.pairAt_iff] at hpair
      omega
    rw [wantAfter, if_neg (fun hc => hpair hc.2), wanted, wanted]
    split <;> split <;> omega

/-- The loop keeps a part of the frame, and stops with all of it. -/
theorem frameLoop_eq (h : Delivers reply lag payload) (turns k : Nat)
    (hk : k ≤ lag.length + 3 + payload.length)
    (hturns : lag.length + 3 + payload.length ≤ turns + k) :
    frameLoop reply turns (wanted lag payload k) ((frameBytes lag payload).take k) =
      frameBytes lag payload := by
  have hlen := length_frameBytes lag payload
  have hfits := h.fits
  induction turns generalizing k with
  | zero => exact List.take_of_length_le (by omega)
  | succ turns ih =>
    have htake : ((frameBytes lag payload).take k).length = k := by
      rw [List.length_take]
      omega
    rw [frameLoop, htake]
    rcases Nat.lt_or_ge k (lag.length + 3 + payload.length) with hlt | hge
    · have hin : k < (frameBytes lag payload).length := by omega
      have hbyte : reply k = some (frameBytes lag payload)[k] := by
        rw [h.bytes k hlt, List.getElem?_eq_getElem hin]
      rw [if_pos (by rw [wanted]; split <;> omega), hbyte]
      dsimp only
      rw [List.take_append_getElem hin, wantAfter_frameBytes h k]
      exact ih (k + 1) hlt (by omega)
    · rw [if_neg (by rw [wanted]; split <;> omega)]
      exact List.take_of_length_le (by omega)

/-- **A frame ends behind its last scan code**: none is lost, and nothing of what follows is
read. -/
theorem psxkbdFrame_eq (h : Delivers reply lag payload) :
    psxkbdFrame reply = frameBytes lag payload := by
  have hfits := h.fits
  exact frameLoop_eq h kbdFrameLen 0 (Nat.zero_le _) (by omega)

/-- The decoder finds the `96 5A` that the frame was cut short for. -/
theorem anchor_frameBytes (h : Delivers reply lag payload) :
    anchor (frameBytes lag payload) = some lag.length := by
  rw [anchor, List.find?_range_eq_some]
  refine ⟨?_, ?_, ?_⟩
  · exact decide_eq_true ((h.pairAt_iff _).mpr rfl)
  · rw [List.mem_range, length_frameBytes]
    omega
  · intro j hj
    rw [Bool.not_eq_true', decide_eq_false_iff_not, h.pairAt_iff]
    omega

/-- **The decoder reads the scan codes of the frame**, all of them and nothing else. -/
theorem psxkbdDecode_eq (h : Delivers reply lag payload) (p : Pending) :
    psxkbdDecode (frameBytes lag payload) p = (true, decodeBytes p payload) := by
  have hcount : (frameBytes lag payload).getD (lag.length + 2) 0 = UInt8.ofNat payload.length :=
    getD_frameBytes_add lag payload 2
  have hdrop : (frameBytes lag payload).drop (lag.length + 3) = payload := by
    rw [frameBytes, List.drop_append, List.drop_of_length_le (by omega), Nat.add_sub_cancel_left]
    rfl
  rw [psxkbdDecode, h.anchor_frameBytes]
  dsimp only
  rw [if_neg (by rw [length_frameBytes]; omega), hcount, if_neg (h.count_ne (by decide)),
    h.toNat_count, hdrop, length_frameBytes, Nat.add_sub_cancel_left, Nat.min_self,
    List.take_length]

end Delivers

/-! ## The polls of a run -/

/-- Without a keyboard nothing is announced. -/
def Psxkbd.Clean (s : Psxkbd) : Prop := s.present = true ∨ s.pending = ⟨false, false⟩

/-- The replies that a run of the timer clocks in: those of the port and the address it is at, at
the ticks that get the bus. -/
def replies (s : Psxkbd) : List (Nat × Turn) → List Reply
  | [] => []
  | (jiffies, .busy) :: ticks => replies (psxkbdTick s jiffies .busy).1 ticks
  | (jiffies, .poll reply) :: ticks =>
    reply s.search.slot s.search.addr :: replies (psxkbdTick s jiffies (.poll reply)).1 ticks

@[simp] theorem Psxkbd.search_present (s : Psxkbd) : s.search.present = s.present := by
  rw [Psxkbd.search]
  split <;> rfl

@[simp] theorem Psxkbd.search_pending (s : Psxkbd) : s.search.pending = s.pending := by
  rw [Psxkbd.search]
  split <;> rfl

/-- Whoever does not answer announces nothing. -/
theorem psxkbdDecode_of_silent {rx : List UInt8} {p : Pending}
    (h : (psxkbdDecode rx p).1 = false) : (psxkbdDecode rx p).2 = (p, []) := by
  rw [psxkbdDecode] at h ⊢
  split
  · rfl
  · next heq =>
    rw [heq] at h
    dsimp only at h ⊢
    split
    · rfl
    · next hin =>
      rw [if_neg hin] at h
      split at h
      · cases h
      · cases h

theorem Psxkbd.ask_of_silent {s : Psxkbd} {turn : Turn} (h : (s.ask turn).1 = false) :
    (s.ask turn).2 = (s.pending, []) := by
  cases turn with
  | busy => rfl
  | poll reply =>
    simp only [Psxkbd.ask] at h ⊢
    split
    · next hpos =>
      rw [if_pos hpos] at h
      exact psxkbdDecode_of_silent h
    · rfl

/-- What is announced is given up with the keyboard only. -/
theorem clean_psxkbdTick {s : Psxkbd} (h : s.Clean) (jiffies : Nat) (turn : Turn) :
    (psxkbdTick s jiffies turn).1.Clean := by
  rcases hask : s.search.ask turn with ⟨alive, pending, events⟩
  rw [psxkbdTick, hask]
  cases alive with
  | true => exact .inl rfl
  | false =>
    have hsilent := Psxkbd.ask_of_silent (congrArg Prod.fst hask)
    rw [hask, Psxkbd.search_pending] at hsilent
    cases hsilent
    simp only [Psxkbd.settle, Psxkbd.Clean, Bool.false_eq_true, if_false]
    split
    · rcases h with hpresent | hpending
      · exact .inl (by simpa using hpresent)
      · exact .inr (by simpa using hpending)
    · exact .inr rfl

/-- Every state that the driver gets to from its start is clean. -/
theorem clean_psxkbdRun (start : Nat) (ticks : List (Nat × Turn)) :
    (psxkbdRun (kbdInitHw start) ticks).1.Clean := by
  have hrun : ∀ s : Psxkbd, s.Clean → (psxkbdRun s ticks).1.Clean := by
    induction ticks with
    | nil => exact fun s h => h
    | cons tick ticks ih => exact fun s h => ih _ (clean_psxkbdTick h tick.1 tick.2)
  exact hrun _ (.inr rfl)

/-- A tick that finds the bus busy leaves what is announced. -/
theorem psxkbdTick_busy {s : Psxkbd} (h : s.Clean) (jiffies : Nat) :
    (psxkbdTick s jiffies .busy).1.pending = s.pending ∧ (psxkbdTick s jiffies .busy).2 = [] := by
  refine ⟨?_, rfl⟩
  simp only [psxkbdTick, Psxkbd.ask, Psxkbd.settle, Psxkbd.search_present, Psxkbd.search_pending]
  split
  · rfl
  split
  · rfl
  · next hpresent _ => exact (h.resolve_left hpresent).symm

/-- A tick that polls takes in the scan codes of the reply. -/
theorem psxkbdTick_poll {s : Psxkbd} {reply : Nat → UInt8 → Reply} {lag payload : List UInt8}
    (h : Delivers (reply s.search.slot s.search.addr) lag payload) (jiffies : Nat) :
    (psxkbdTick s jiffies (.poll reply)).1.pending = (decodeBytes s.pending payload).1 ∧
      (psxkbdTick s jiffies (.poll reply)).2 = (decodeBytes s.pending payload).2 := by
  have hask : s.search.ask (.poll reply) = (true, decodeBytes s.pending payload) := by
    simp only [Psxkbd.ask]
    rw [h.psxkbdFrame_eq, if_pos (by rw [length_frameBytes]; omega), h.psxkbdDecode_eq,
      Psxkbd.search_pending]
  rw [psxkbdTick, hask]
  exact ⟨rfl, rfl⟩

/-- The run as a whole decodes the scan codes of its replies, in their order. -/
theorem psxkbdRun_events {s : Psxkbd} (hs : s.Clean) {ticks : List (Nat × Turn)}
    {payloads : List (List UInt8)}
    (h : List.Forall₂ (fun reply payload => ∃ lag, Delivers reply lag payload)
      (replies s ticks) payloads) :
    (psxkbdRun s ticks).2 = (decodeBytes s.pending payloads.flatten).2 := by
  induction ticks generalizing s payloads with
  | nil =>
    cases h
    rfl
  | cons tick ticks ih =>
    obtain ⟨jiffies, turn⟩ := tick
    have hclean := clean_psxkbdTick hs jiffies turn
    rw [psxkbdRun]
    dsimp only
    cases turn with
    | busy =>
      obtain ⟨hpending, hevents⟩ := psxkbdTick_busy hs jiffies
      rw [ih hclean h, hpending, hevents, List.nil_append]
    | poll reply =>
      rw [replies] at h
      obtain ⟨payload, rest, ⟨lag, hfirst⟩, hrest, rfl⟩ := List.forall₂_cons_left_iff.mp h
      obtain ⟨hpending, hevents⟩ := psxkbdTick_poll hfirst jiffies
      rw [ih hclean hrest, hpending, hevents, List.flatten_cons, decodeBytes_append]

/-- **What is typed does not depend on the frames.**  Whatever the lags, the ends of the replies,
the busy ticks in between and the cuts between the polls, the calls of `handle_scancode` are those
that the stream of scan codes calls for, behind what was announced before; and each frame reaches
the last of its scan codes. -/
theorem typed_of_polls (s : Psxkbd) (hs : s.Clean) (ticks : List (Nat × Turn))
    (payloads : List (List UInt8))
    (h : List.Forall₂ (fun reply payload => ∃ lag, Delivers reply lag payload)
      (replies s ticks) payloads) :
    (psxkbdRun s ticks).2 = typed s.pending.bytes payloads.flatten ∧
      List.Forall₂ (fun reply payload => ∃ lag, psxkbdFrame reply = frameBytes lag payload)
        (replies s ticks) payloads := by
  refine ⟨?_, ?_⟩
  · rw [psxkbdRun_events hs h]
    exact decodeBytes_events s.pending.announces_bytes _
  · exact h.imp fun reply payload ⟨lag, hdelivers⟩ => ⟨lag, hdelivers.psxkbdFrame_eq⟩

/-- Right control, let go of, with its three bytes in three polls, a busy tick between them and a
different lag each time. -/
theorem typed_right_control_released :
    (psxkbdRun (kbdInitHw 0)
      [(0, .poll fun _ _ i => [0x00, 0x96, 0x5a, 0x01, 0xe0][i]?),
        (1, .poll fun _ _ i => [0x96, 0x96, 0x5a, 0x01, 0xf0, 0x14][i]?),
        (2, .busy),
        (3, .poll fun _ _ i => [0x96, 0x5a, 0x01, 0x14, 0x1c][i]?)]).2 = [⟨97, false⟩] := by
  refine (typed_of_polls (kbdInitHw 0) (.inr rfl) _ [[0xe0], [0xf0], [0x14]] ?_).1.trans
    (by decide)
  refine .cons ⟨[0x00], ?_, by decide, by decide, by decide⟩
    (.cons ⟨[0x96], ?_, by decide, by decide, by decide⟩
      (.cons ⟨[], ?_, by decide, by decide, by decide⟩ .nil))
  · rintro (_ | i) <;> simp [PairAt, kbdId, kbdReady]
  · rintro (_ | i) <;> simp [PairAt, kbdId, kbdReady]
  · intro i
    simp [PairAt, kbdId, kbdReady]

end Keyboard
end Blackroo
