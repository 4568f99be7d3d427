import Mathlib.Algebra.BigOperators.Fin
import Blackroo.Lib.LittleEndian
import Blackroo.MemoryCard.PortOrder
import Blackroo.MemoryCard.RoundTrip

/-!
# Preparing cards

Two programs prepare cards for the driver.  The memory-card manager of the boot loader
formats the card in a port, and `mkmemcard --raid` writes a set of card images.  Each
fills in the four words of the first block by its own rule; the driver's sweep decides
whether the result is a card.

The manager gives a card the slot number as its position in the set, and the second
port is slot 4, past the last position the driver has.  `usable_iff` follows whole
sessions of the manager, with cards changed between the formats, and says in which of
them the sweep joins what the manager announced.

`make_serial` seeds the generator with the time and the process, again for every card.
`raidJoined_iff` says which sets the driver joins.
-/

namespace Blackroo
namespace MemoryCard

open Dialogue SerialBus LittleEndian

/-! ## The first block as bytes -/

/-- The record at the start of an otherwise empty block. -/
def FirstBlock.toBlock (b : FirstBlock) : Block :=
  ⟨bytes32 b.id ++ bytes32 b.size ++ bytes32 b.serial ++ bytes32 b.number ++
    List.replicate 112 0, by simp [buBlkSize]⟩

/-- The record read back from a block. -/
def FirstBlock.ofBytes (bytes : List UInt8) : FirstBlock :=
  ⟨get32 bytes 0, get32 bytes 4, get32 bytes 8, get32 bytes 12⟩

/-- **Round trip** of the record. -/
theorem FirstBlock.ofBytes_toBlock (b : FirstBlock) : ofBytes b.toBlock.val = b := by
  have hid : get32 b.toBlock.val 0 = b.id := word32_bytes32 b.id
  have hsize : get32 b.toBlock.val 4 = b.size := word32_bytes32 b.size
  have hserial : get32 b.toBlock.val 8 = b.serial := word32_bytes32 b.serial
  have hnumber : get32 b.toBlock.val 12 = b.number := word32_bytes32 b.number
  rw [ofBytes, hid, hsize, hserial, hnumber]

/-! ## The functions of the manager on a port -/

/-- An empty port answers nothing. -/
def emptyPort : Peer Unit UInt8 := fun s _ => (none, s)

/-- `memcard_detect`. -/
def memcardDetect {σ : Type} (dev : Peer σ UInt8) (slot : Nat) : Polled σ UInt8 Unit := do
  let rx ← sio0Xfer dev (mcAddr slot)
  ensure rx.isSome
  let rx ← sio0Xfer dev mcCmdId
  ensure rx.isSome
  let rx ← sio0Xfer dev 0x00
  ensure (rx == some 0x5A)
  let rx ← sio0Xfer dev 0x00
  ensure (rx == some 0x5D)
  -- the rest of the ID response is read and dropped
  let _ ← sio0Xfer dev 0x00
  let _ ← sio0Xfer dev 0x00
  let _ ← sio0Xfer dev 0x00
  let _ ← sio0Xfer dev 0x00
  let _ ← sio0Xfer dev 0x00
  let _ ← sio0Xfer dev 0x00
  let _ ← sio0Xfer dev 0x00
  let _ ← sio0Xfer dev 0x00
  pure ()

/-- The record `memcard_format` writes. -/
def formatRecord (sequenceNumber : Nat) : FirstBlock :=
  ⟨buId, 1024, 0xABCD0000 + UInt32.ofNat sequenceNumber, UInt32.ofNat sequenceNumber⟩

section Port

variable (e : Surroundings) (port : Slot)

/-- `memcard_detect` on what is in a port. -/
def detectPort : Option Blocks → Bool
  | none => ((memcardDetect emptyPort (mcVisibleSlots port)).run ⟨(), some e.stale, []⟩).1.isSome
  | some blocks =>
    ((memcardDetect (cardPeer e.noise) (mcVisibleSlots port)).run
      (selected blocks e.stale)).1.isSome

/-- `memcard_read_header` on what is in a port. -/
def memcardReadHeader : Option Blocks → Option FirstBlock
  | none =>
    ((memcardReadBlock emptyPort (mcVisibleSlots port) 0).run ⟨(), some e.stale, []⟩).1.map
      FirstBlock.ofBytes
  | some blocks =>
    ((memcardReadBlock (cardPeer e.noise) (mcVisibleSlots port) 0).run
      (selected blocks e.stale)).1.map FirstBlock.ofBytes

/-- `memcard_format` on what is in a port: whether it succeeds, and what is in the port
afterwards. -/
def memcardFormat (sequenceNumber : Nat) : Option Blocks → Bool × Option Blocks
  | none =>
    (((memcardWriteBlock emptyPort (mcVisibleSlots port) 0
      (formatRecord sequenceNumber).toBlock.val).run ⟨(), some e.stale, []⟩).1.isSome, none)
  | some blocks =>
    let r := (memcardWriteBlock (cardPeer e.noise) (mcVisibleSlots port) 0
      (formatRecord sequenceNumber).toBlock.val).run (selected blocks e.stale)
    (r.1.isSome, some r.2.peer.blocks)

/-- A card is found where there is one. -/
theorem detectPort_eq (content : Option Blocks) : detectPort e port content = content.isSome := by
  cases content with
  | none => rfl
  | some blocks =>
    let send : Nat → UInt8 := fun i => if i = 0 then 0x81 else if i = 1 then mcCmdId else 0
    have hx := @sio0Xfer_bind Card (cardPeer e.noise) (selected blocks e.stale) send
    have hreply : ∀ n, n ≤ 137 → (selected blocks e.stale).reply (cardPeer e.noise) send n =
        Card.reply e.noise ⟨blocks, (List.range n).map send⟩ :=
      fun n hn => reply_sends (blocks_sends hn)
    have hrun : (memcardDetect (cardPeer e.noise) (mcVisibleSlots port)).run
        ((selected blocks e.stale).sends (cardPeer e.noise) send 0) =
        (some (), (selected blocks e.stale).sends (cardPeer e.noise) send 12) := by
      have haddr : mcAddr (mcVisibleSlots port) = send 0 := by
        rw [mcAddr, mcFloor_mcVisibleSlots]
        rfl
      unfold memcardDetect
      rw [hx 0 1 _ rfl haddr, ensure_bind_iff, hx 1 2 mcCmdId rfl rfl, ensure_bind_iff,
        hx 2 3 0 rfl rfl, ensure_bind_iff, hx 3 4 0 rfl rfl, ensure_bind_iff, hx 4 5 0 rfl rfl,
        hx 5 6 0 rfl rfl, hx 6 7 0 rfl rfl, hx 7 8 0 rfl rfl, hx 8 9 0 rfl rfl,
        hx 9 10 0 rfl rfl, hx 10 11 0 rfl rfl, hx 11 12 0 rfl rfl, pure_eq_some_iff,
        hreply 0 (by omega), hreply 1 (by omega), hreply 2 (by omega), hreply 3 (by omega)]
      exact ⟨rfl, rfl, rfl, rfl, rfl, rfl⟩
    show ((memcardDetect (cardPeer e.noise) (mcVisibleSlots port)).run
      ((selected blocks e.stale).sends (cardPeer e.noise) send 0)).1.isSome = _
    rw [hrun]
    rfl

/-- The record of a card is read as it is. -/
theorem memcardReadHeader_eq (content : Option Blocks) :
    memcardReadHeader e port content =
      content.map fun blocks => FirstBlock.ofBytes (blocks 0).val := by
  cases content with
  | none => rfl
  | some blocks =>
    have hread := read_spec .kloader e port 0 blocks
    simp only [Master.read, Option.map_eq_some_iff] at hread
    obtain ⟨buf, hbuf, heq⟩ := hread
    rw [Prod.mk.injEq] at heq
    rw [memcardReadHeader, hbuf, heq.1]
    rfl

/-- A card is formatted by writing its first block. -/
theorem memcardFormat_eq (sequenceNumber : Nat) (content : Option Blocks) :
    memcardFormat e port sequenceNumber content =
      (content.isSome,
        content.map fun blocks =>
          Function.update blocks 0 (formatRecord sequenceNumber).toBlock) := by
  cases content with
  | none => rfl
  | some blocks =>
    have hwrite := write_spec .kloader e port 0 (formatRecord sequenceNumber).toBlock blocks
    simp only [Master.write, Option.map_eq_some_iff] at hwrite
    obtain ⟨r, hr, hblocks⟩ := hwrite
    rw [memcardFormat]
    simp only [hr, hblocks, Option.isSome_some, Option.map_some]

end Port

/-- What the driver reads from the first block of the cards in the ports. -/
def buProbe (e : Surroundings) (content : Slot → Option Blocks) : Cards := fun port =>
  (content port).bind fun blocks =>
    (Master.kernel.read e port 0 blocks).map fun r => FirstBlock.ofBytes r.1

theorem buProbe_eq (e : Surroundings) (content : Slot → Option Blocks) (port : Slot) :
    buProbe e content port = (content port).map fun blocks =>
      FirstBlock.ofBytes (blocks 0).val := by
  rw [buProbe]
  cases content port with
  | none => rfl
  | some blocks =>
    rw [Option.bind_some, read_spec]
    rfl

/-! ## The manager -/

variable {κ : Type}

/-- Which card is in which port.  A card is in one port at most. -/
structure Ports (κ : Type) where
  card : Slot → Option κ
  apart : ∀ k, card 0 = some k → card 1 ≠ some k

section Session

variable [DecidableEq κ]

/-- Put a card into a port in place of what was there, or leave the port empty.  A card
that is in the other port has to be taken out first. -/
def Ports.plug (ports : Ports κ) (port : Slot) (c : Option κ) : Ports κ :=
  if h : ∃ k, c = some k ∧ ports.card (1 - port) = some k then ports
  else
    { card := Function.update ports.card port c
      apart := by
        intro k h₀ h₁
        rcases slot_cases port with rfl | rfl
        · rw [Function.update_self] at h₀
          rw [Function.update_of_ne (by decide)] at h₁
          exact h ⟨k, h₀, h₁⟩
        · rw [Function.update_self] at h₁
          rw [Function.update_of_ne (by decide)] at h₀
          exact h ⟨k, h₁, h₀⟩ }

/-- The state of a session: the cards and their contents, and the variables of the
manager.  The last three fields are not stored anywhere: whether a port was ever
formatted, whether the card formatted there last has stayed in it, and which cards were
formatted. -/
structure Bench (κ : Type) where
  ports : Ports κ
  contents : κ → Blocks
  /-- the menu is on the screen -/
  opened : Bool
  selected : Slot
  /-- `mc_present`, `mc_blackroo` and `mc_number` of the visible slots -/
  present : Slot → Bool
  blackroo : Slot → Bool
  number : Slot → Int
  ever : Slot → Bool
  kept : Slot → Bool
  prepared : κ → Bool

/-- What is in a port. -/
def Bench.content (s : Bench κ) (port : Slot) : Option Blocks := (s.ports.card port).map s.contents

/-- The boot loader with some cards in its ports. -/
def Bench.start (ports : Ports κ) (contents : κ → Blocks) : Bench κ where
  ports := ports
  contents := contents
  opened := false
  selected := 0
  present := fun _ => false
  blackroo := fun _ => false
  number := fun _ => 0
  ever := fun _ => false
  kept := fun _ => false
  prepared := fun _ => false

/-- One turn of the loop of `mc_scan`. -/
def Bench.scanPort (e : Surroundings) (s : Bench κ) (port : Slot) : Bench κ :=
  let present := detectPort e port (s.content port)
  let header := if present then memcardReadHeader e port (s.content port) else none
  let header := header.filter fun hdr => hdr.id == buId
  { s with
    present := Function.update s.present port present
    blackroo := Function.update s.blackroo port header.isSome
    number := Function.update s.number port
      (header.elim (-1) fun hdr => toInt32 hdr.number.toNat) }

/-- `mc_scan`. -/
def Bench.mcScan (e : Surroundings) (s : Bench κ) : Bench κ := slots.foldl (Bench.scanPort e) s

/-- `memcard_format(slot, slot)` from the menu, and what the menu makes of it. -/
def Bench.format (e : Surroundings) (s : Bench κ) (port : Slot) : Bench κ :=
  let r := memcardFormat e port (mcVisibleSlots port) (s.content port)
  if r.1 then
    { s with
      contents := fun k =>
        if s.ports.card port = some k then r.2.getD (s.contents k) else s.contents k
      blackroo := Function.update s.blackroo port true
      number := Function.update s.number port (mcVisibleSlots port)
      ever := Function.update s.ever port true
      kept := Function.update s.kept port true
      prepared := fun k => s.prepared k || s.ports.card port == some k }
  else { s with blackroo := Function.update s.blackroo port false }

/-- The buttons newly pressed in one turn of the menu.  `start` is Start or Cross, and
`confirm` the answer to `mc_confirm_format`. -/
structure Press where
  up : Bool
  down : Bool
  select : Bool
  square : Bool
  start : Bool
  confirm : Bool

/-- Up and down move the cursor within the two rows. -/
def Bench.moveCursor (press : Press) (s : Bench κ) : Bench κ :=
  let row := if press.up && decide (0 < s.selected) then s.selected - 1 else s.selected
  { s with selected := if press.down && decide (row < 1) then row + 1 else row }

/-- Start or Cross on a row that is shown as occupied. -/
def Bench.pressStart (e : Surroundings) (press : Press) (s : Bench κ) : Bench κ :=
  if press.start && s.present s.selected && press.confirm then s.format e s.selected else s

/-- One turn of `memcard_manager_menu`.  Circle shows block 0 and changes nothing. -/
def Bench.menuTurn (e : Surroundings) (press : Press) (s : Bench κ) : Bench κ :=
  let s := s.moveCursor press
  if press.select then { s with opened := false }
  else (if press.square then s.mcScan e else s).pressStart e press

/-- What happens in a session. -/
inductive SessionEvent (κ : Type)
  | plug (port : Slot) (c : Option κ)
  | enter (e : Surroundings)
  | turn (e : Surroundings) (press : Press)

def Bench.step (s : Bench κ) : SessionEvent κ → Bench κ
  | .plug port c =>
    let ports := s.ports.plug port c
    { s with
      ports := ports
      kept := fun q => s.kept q && ports.card q == s.ports.card q }
  | .enter e => if s.opened then s else { s.mcScan e with opened := true, selected := 0 }
  | .turn e press => if s.opened then s.menuTurn e press else s

def Bench.session (s : Bench κ) (events : List (SessionEvent κ)) : Bench κ :=
  events.foldl Bench.step s

/-- The KB shown for a port. -/
def Bench.shown (s : Bench κ) (port : Slot) : Int :=
  if s.present port && s.blackroo port then 127 else 0

/-- "Linux would join %d KB". -/
def Bench.wouldJoin (s : Bench κ) : Int := (slots.map s.shown).sum

/-- What the driver reads from the first block of the cards in the ports. -/
def Bench.probe (s : Bench κ) (e : Surroundings) : Cards := buProbe e s.content

/-- A kernel sweep finds the cards the manager prepared, and as much as it announced. -/
structure Usable (s : Bench κ) (d : Joined) : Prop where
  accepted : ∀ port k, s.ports.card port = some k → s.prepared k = true → d.accepted port = true
  capacity : d.sizes 0 = s.wouldJoin

end Session

/-! ## What a session keeps -/

/-- What holds along a session: a card still in the port it was formatted in has the
record of that port and is shown, and every formatted card has the record of a port that
was formatted. -/
structure SessionInv (s : Bench κ) : Prop where
  kept : ∀ port, s.kept port = true → ∃ k, s.ports.card port = some k ∧
    s.contents k 0 = (formatRecord (mcVisibleSlots port)).toBlock ∧ s.prepared k = true ∧
    s.present port = true ∧ s.blackroo port = true
  prepared : ∀ k, s.prepared k = true → ∃ port, s.ever port = true ∧
    s.contents k 0 = (formatRecord (mcVisibleSlots port)).toBlock

theorem sessionInv_start (ports : Ports κ) (contents : κ → Blocks) :
    SessionInv (Bench.start ports contents) :=
  ⟨fun _ h => absurd h Bool.false_ne_true, fun _ h => absurd h Bool.false_ne_true⟩

/-- Fields the invariant looks at, apart from what is shown. -/
theorem SessionInv.of_shown {s s' : Bench κ} (h : SessionInv s) (hports : s'.ports = s.ports)
    (hcontents : s'.contents = s.contents) (hever : s'.ever = s.ever) (hkept : s'.kept = s.kept)
    (hprepared : s'.prepared = s.prepared)
    (hshown : ∀ port, s.kept port = true → s'.present port = true ∧ s'.blackroo port = true) :
    SessionInv s' := by
  refine ⟨fun port hp => ?_, fun k hk => ?_⟩
  · rw [hkept] at hp
    obtain ⟨k, hk, hrec, hprep, -⟩ := h.kept port hp
    exact ⟨k, by rw [hports, hk], by rw [hcontents, hrec], by rw [hprepared, hprep], hshown port hp⟩
  · rw [hprepared] at hk
    obtain ⟨port, hp, hrec⟩ := h.prepared k hk
    exact ⟨port, by rw [hever, hp], by rw [hcontents, hrec]⟩

theorem SessionInv.scanPort {s : Bench κ} (h : SessionInv s) (e : Surroundings) (port : Slot) :
    SessionInv (s.scanPort e port) := by
  refine h.of_shown rfl rfl rfl rfl rfl fun q hq => ?_
  obtain ⟨k, hk, hrec, -, hpresent, hblackroo⟩ := h.kept q hq
  by_cases hqp : q = port
  · subst hqp
    simp [Bench.scanPort, Bench.content, hk, detectPort_eq, memcardReadHeader_eq, hrec,
      FirstBlock.ofBytes_toBlock, formatRecord]
  · simp [Bench.scanPort, hqp, hpresent, hblackroo]

theorem SessionInv.mcScan {s : Bench κ} (h : SessionInv s) (e : Surroundings) :
    SessionInv (s.mcScan e) := by
  rw [Bench.mcScan, slots_eq]
  exact (h.scanPort e 0).scanPort e 1

/-- The invariant does not look at the menu. -/
theorem SessionInv.menu {s : Bench κ} (h : SessionInv s) (opened : Bool) (selected : Slot) :
    SessionInv { s with opened := opened, selected := selected } :=
  h.of_shown rfl rfl rfl rfl rfl fun port hp => by
    obtain ⟨-, -, -, -, hshown⟩ := h.kept port hp
    exact hshown

/-- A card is in one port. -/
theorem Ports.eq_of_card (ports : Ports κ) {p q : Slot} {k : κ} (hp : ports.card p = some k)
    (hq : ports.card q = some k) : p = q := by
  rcases slot_cases p with rfl | rfl <;> rcases slot_cases q with rfl | rfl
  · rfl
  · exact absurd hq (ports.apart k hp)
  · exact absurd hp (ports.apart k hq)
  · rfl

section Format

variable [DecidableEq κ]

/-- Formatting an empty port fails. -/
theorem Bench.format_of_none {s : Bench κ} {e : Surroundings} {port : Slot}
    (hcard : s.ports.card port = none) :
    s.format e port = { s with blackroo := Function.update s.blackroo port false } := by
  rw [Bench.format, memcardFormat_eq, Bench.content, hcard]
  rfl

/-- Formatting the card in a port succeeds, and no other card changes. -/
theorem Bench.format_of_some {s : Bench κ} {e : Surroundings} {port : Slot} {k : κ}
    (hcard : s.ports.card port = some k) :
    s.format e port =
      { s with
        contents := Function.update s.contents k
          (Function.update (s.contents k) 0 (formatRecord (mcVisibleSlots port)).toBlock)
        blackroo := Function.update s.blackroo port true
        number := Function.update s.number port (mcVisibleSlots port)
        ever := Function.update s.ever port true
        kept := Function.update s.kept port true
        prepared := fun c => s.prepared c || some k == some c } := by
  rw [Bench.format, memcardFormat_eq, Bench.content, hcard]
  simp only [Option.map_some, Option.isSome_some, if_true, Option.getD_some, Option.some.injEq]
  congr 1
  funext c
  by_cases hc : k = c
  · subst hc
    rw [if_pos rfl, Function.update_self]
  · rw [if_neg hc, Function.update_of_ne (Ne.symm hc)]

/-- Formatting in a port that is shown as occupied. -/
theorem SessionInv.format {s : Bench κ} (h : SessionInv s) (e : Surroundings) {port : Slot}
    (hpresent : s.present port = true) : SessionInv (s.format e port) := by
  cases hcard : s.ports.card port with
  | none =>
    rw [Bench.format_of_none hcard]
    refine h.of_shown rfl rfl rfl rfl rfl fun q hq => ?_
    obtain ⟨k, hk, -, -, hpres, hblack⟩ := h.kept q hq
    have hne : q ≠ port := by
      rintro rfl
      rw [hcard] at hk
      exact absurd hk (by simp)
    exact ⟨hpres, (Function.update_of_ne hne _ _).trans hblack⟩
  | some k =>
    rw [Bench.format_of_some hcard]
    refine ⟨fun q hq => ?_, fun c hc => ?_⟩
    · dsimp only at hq ⊢
      by_cases hqp : q = port
      · subst hqp
        refine ⟨k, hcard, ?_, by simp, hpresent, Function.update_self _ _ _⟩
        rw [Function.update_self, Function.update_self]
      · -- the other port holds another card, whose contents stay
        rw [Function.update_of_ne hqp] at hq
        obtain ⟨c, hc, hrec, hprep, hpres, hblack⟩ := h.kept q hq
        have hck : c ≠ k := by
          rintro rfl
          exact hqp (s.ports.eq_of_card hc hcard)
        refine ⟨c, hc, ?_, by rw [hprep, Bool.true_or], hpres, ?_⟩
        · rw [Function.update_of_ne hck]
          exact hrec
        · rw [Function.update_of_ne hqp]
          exact hblack
    · dsimp only at hc ⊢
      by_cases hck : c = k
      · subst hck
        refine ⟨port, Function.update_self _ _ _, ?_⟩
        rw [Function.update_self, Function.update_self]
      · have hold : s.prepared c = true := by simpa [Ne.symm hck] using hc
        obtain ⟨q, hq, hrec⟩ := h.prepared c hold
        refine ⟨q, ?_, by rw [Function.update_of_ne hck]; exact hrec⟩
        by_cases hqp : q = port
        · rw [hqp, Function.update_self]
        · rw [Function.update_of_ne hqp]
          exact hq

theorem SessionInv.menuTurn {s : Bench κ} (h : SessionInv s) (e : Surroundings) (press : Press) :
    SessionInv (s.menuTurn e press) := by
  have hmoved : SessionInv (s.moveCursor press) := h.menu _ _
  rw [Bench.menuTurn]
  generalize s.moveCursor press = s₁ at hmoved
  split
  · exact hmoved.menu false s₁.selected
  · have hscanned : SessionInv (if press.square then s₁.mcScan e else s₁) := by
      split
      · exact hmoved.mcScan e
      · exact hmoved
    generalize (if press.square then s₁.mcScan e else s₁) = s₂ at hscanned
    rw [Bench.pressStart]
    split
    case isTrue hpress =>
      rw [Bool.and_eq_true, Bool.and_eq_true] at hpress
      exact hscanned.format e hpress.1.2
    case isFalse => exact hscanned

theorem SessionInv.step {s : Bench κ} (h : SessionInv s) (event : SessionEvent κ) :
    SessionInv (s.step event) := by
  cases event with
  | plug port c =>
    refine ⟨fun q hq => ?_, h.prepared⟩
    have hq' : s.kept q && (s.ports.plug port c).card q == s.ports.card q := hq
    rw [Bool.and_eq_true, beq_iff_eq] at hq'
    obtain ⟨k, hk, hrest⟩ := h.kept q hq'.1
    exact ⟨k, hq'.2.trans hk, hrest⟩
  | enter e =>
    show SessionInv (if s.opened then s else { s.mcScan e with opened := true, selected := 0 })
    split
    · exact h
    · exact (h.mcScan e).menu true 0
  | turn e press =>
    show SessionInv (if s.opened then s.menuTurn e press else s)
    split
    · exact h.menuTurn e press
    · exact h

/-- **The invariant holds after every session.** -/
theorem SessionInv.session {s : Bench κ} (h : SessionInv s) (events : List (SessionEvent κ)) :
    SessionInv (s.session events) := by
  induction events generalizing s with
  | nil => exact h
  | cons event events ih => exact ih (h.step event)

end Format

/-! ## The sweep after a session -/

/-- Each port's last formatted card has stayed in it. -/
def Bench.Stays (s : Bench κ) : Prop := ∀ port, s.ever port = true → s.kept port = true

/-- The records of the cards in the ports. -/
def Bench.records (s : Bench κ) : Cards := fun port =>
  (s.content port).map fun blocks => FirstBlock.ofBytes (blocks 0).val

theorem Bench.probe_eq (s : Bench κ) (e : Surroundings) : s.probe e = s.records := by
  funext port
  rw [Bench.probe, buProbe_eq]
  rfl

/-- The KB a sweep counts in a port. -/
def counted (bySerial : Bool) (cards : Cards) (port : Slot) : Int :=
  if accepts bySerial cards port then ((cardSize cards port).toNat / 8 : Int) - 1 else 0

/-- The variables of the manager count this port. -/
def Bench.shows (s : Bench κ) (port : Slot) : Bool := s.present port && s.blackroo port

/-- A card that the driver joins beside one formatted in the first port: marked, with the other
number, and with another serial where serials are compared. -/
def Beside (bySerial : Bool) (r : FirstBlock) : Prop :=
  r.id = buId ∧ r.number = 1 ∧ (bySerial = true → r.serial ≠ 0xABCD0000)

instance (bySerial : Bool) (r : FirstBlock) : Decidable (Beside bySerial r) :=
  inferInstanceAs (Decidable (_ ∧ _))

/-- The card in this port is marked and has a number the driver has a place for, and in the second
port neither the number nor, where serials are compared, the serial of such a card in the first. -/
def Joins (bySerial : Bool) (cards : Cards) (port : Slot) (r : FirstBlock) : Prop :=
  cards port = some r ∧ r.id = buId ∧ r.number.toNat < 2 ∧
    (port = 1 → ∀ q, cards 0 = some q → q.id = buId → q.number.toNat < 2 →
      q.number ≠ r.number ∧ (bySerial = true → q.serial ≠ r.serial))

/-- The sizes on the cards that are joined make 127 KB for every port that is shown; the first KB of
every card is not counted. -/
structure Accounted (bySerial : Bool) (cards : Cards) (shown : Nat) : Prop where
  both : ∀ a b, Joins bySerial cards 0 a → Joins bySerial cards 1 b →
    a.size.toNat / 8 + b.size.toNat / 8 = 127 * shown + 2
  alone : ∀ port r, Joins bySerial cards port r → (∀ q, ¬ Joins bySerial cards (1 - port) q) →
    r.size.toNat / 8 = 127 * shown + 1
  nothing : (∀ port r, ¬ Joins bySerial cards port r) → shown = 0

/-- The sessions that prepare cards the driver joins as announced. -/
structure Prepares (s : Bench κ) (bySerial : Bool) : Prop where
  /-- nothing was formatted in the second port -/
  second : s.ever 1 = false
  /-- the card there was not formatted before in the first one -/
  moved : ∀ k, s.ports.card 1 = some k → s.prepared k = false
  /-- beside a formatted card, a card of a whole 1024 blocks is shown and nothing else -/
  beside : s.ever 0 = true →
    if s.shows 1 then ∃ r ∈ s.records 1, Beside bySerial r ∧ r.size.toNat / 8 = 128
    else ∀ r ∈ s.records 1, Beside bySerial r → r.size.toNat / 8 = 1
  /-- without one, the cards that are there make what is shown -/
  foreign : s.ever 0 = false → Accounted bySerial s.records (slots.filter s.shows).length

theorem Bench.wouldJoin_eq (s : Bench κ) :
    s.wouldJoin = 127 * ((slots.filter s.shows).length : Nat) := by
  have hshown : ∀ port, s.shown port = if s.shows port then 127 else 0 := fun _ => rfl
  rw [Bench.wouldJoin, slots_eq]
  simp only [List.map_cons, List.map_nil, List.sum_cons, List.sum_nil, hshown]
  cases h₀ : s.shows 0 <;> cases h₁ : s.shows 1 <;> simp [h₀, h₁]

theorem Bench.records_of_card {s : Bench κ} {port : Slot} {k : κ} {b : FirstBlock}
    (hcard : s.ports.card port = some k) (hrec : s.contents k 0 = b.toBlock) :
    s.records port = some b := by
  rw [Bench.records, Bench.content, hcard]
  simp only [Option.map_some, hrec, FirstBlock.ofBytes_toBlock]

theorem identified_formatRecord {cards : Cards} {port : Slot} {sequenceNumber : Nat}
    (h : cards port = some (formatRecord sequenceNumber)) :
    identified cards port = some (formatRecord sequenceNumber) := by
  rw [identified, h]
  rfl

/-- The record of the first port is accepted there. -/
theorem accepts_first {cards : Cards} (h : cards 0 = some (formatRecord 0)) (bySerial : Bool) :
    accepts bySerial cards 0 = true := by
  rw [accepts_zero, identified_formatRecord h]
  rfl

/-- The record of the second port is not: its number is 4. -/
theorem not_accepts_second {cards : Cards} (h : cards 1 = some (formatRecord 4))
    (bySerial : Bool) : accepts bySerial cards 1 = false := by
  rw [accepts_one, identified_formatRecord h]
  rfl

/-- The record of the first port is not accepted twice. -/
theorem not_accepts_moved {cards : Cards} (h₀ : cards 0 = some (formatRecord 0))
    (h₁ : cards 1 = some (formatRecord 0)) (bySerial : Bool) :
    accepts bySerial cards 1 = false := by
  rw [accepts_one, accepts_first h₀, identified_formatRecord h₀, identified_formatRecord h₁]
  cases bySerial <;> rfl

theorem claimable_eq_some_iff {cards : Cards} {i : Slot} {b : FirstBlock} :
    claimable cards i = some b ↔ cards i = some b ∧ b.id = buId ∧ b.number.toNat < 2 := by
  simp [claimable, identified, Option.filter_eq_some_iff, numberInRange, buMinors]

/-- The driver accepts the cards that it joins. -/
theorem accepts_iff_joins (bySerial : Bool) (cards : Cards) (port : Slot) :
    accepts bySerial cards port = true ↔ ∃ r, Joins bySerial cards port r := by
  have hfirst : ∀ r, (!(claimable cards 0).any fun a => clash bySerial a r) = true ↔
      ∀ q, cards 0 = some q → q.id = buId → q.number.toNat < 2 →
        q.number ≠ r.number ∧ (bySerial = true → q.serial ≠ r.serial) := by
    intro r
    cases ha : claimable cards 0 with
    | none =>
      refine iff_of_true rfl fun q hq hid hlt => ?_
      rw [claimable_eq_some_iff.mpr ⟨hq, hid, hlt⟩] at ha
      cases ha
    | some a =>
      obtain ⟨hcard, hid, hlt⟩ := claimable_eq_some_iff.mp ha
      have hclash : (!clash bySerial a r) = true ↔
          a.number ≠ r.number ∧ (bySerial = true → a.serial ≠ r.serial) := by
        cases bySerial <;> simp [clash]
      rw [Option.any_some, hclash]
      exact ⟨fun h q hq _ _ => Option.some.inj (hcard.symm.trans hq) ▸ h,
        fun h => h a hcard hid hlt⟩
  rw [accepts]
  cases hr : claimable cards port with
  | none =>
    refine iff_of_false Bool.false_ne_true ?_
    rintro ⟨r, hcard, hid, hnumber, -⟩
    rw [claimable_eq_some_iff.mpr ⟨hcard, hid, hnumber⟩] at hr
    cases hr
  | some r =>
    obtain ⟨hcard, hid, hnumber⟩ := claimable_eq_some_iff.mp hr
    rw [Option.any_some, Bool.or_eq_true, hfirst]
    constructor
    · rintro (hport | hclash)
      · exact ⟨r, hcard, hid, hnumber, fun h => absurd (eq_of_beq hport) (by rw [h]; decide)⟩
      · exact ⟨r, hcard, hid, hnumber, fun _ => hclash⟩
    · rintro ⟨q, hq, -, -, hclash⟩
      obtain rfl := Option.some.inj (hcard.symm.trans hq)
      rcases slot_cases port with rfl | rfl
      · exact .inl rfl
      · exact .inr (hclash rfl)

theorem Joins.unique {bySerial : Bool} {cards : Cards} {port : Slot} {r r' : FirstBlock}
    (h : Joins bySerial cards port r) (h' : Joins bySerial cards port r') : r = r' :=
  Option.some.inj (h.1.symm.trans h'.1)

/-- The KB that are counted for a card that is joined. -/
theorem counted_of_joins {bySerial : Bool} {cards : Cards} {port : Slot} {r : FirstBlock}
    (h : Joins bySerial cards port r) : counted bySerial cards port =
      (r.size.toNat / 8 : Int) - 1 := by
  have hid : identified cards port = some r := by
    rw [identified, h.1, Option.filter_some, if_pos (beq_iff_eq.mpr h.2.1)]
  rw [counted, if_pos ((accepts_iff_joins bySerial cards port).mpr ⟨r, h⟩), cardSize, hid]
  rfl

theorem counted_of_not_joins {bySerial : Bool} {cards : Cards} {port : Slot}
    (h : ∀ r, ¬ Joins bySerial cards port r) : counted bySerial cards port = 0 := by
  rw [counted, if_neg]
  exact fun hacc => Exists.elim ((accepts_iff_joins bySerial cards port).mp hacc) h

/-- Beside a card formatted in the first port. -/
theorem joins_second_iff {cards : Cards} (h₀ : cards 0 = some (formatRecord 0)) (bySerial : Bool)
    (r : FirstBlock) : Joins bySerial cards 1 r ↔ cards 1 = some r ∧ Beside bySerial r := by
  have hnumber : r.number = 1 ↔ r.number.toNat < 2 ∧ (0 : UInt32) ≠ r.number := by
    rw [← UInt32.toNat_inj, ne_eq, ← UInt32.toNat_inj, UInt32.toNat_one, UInt32.toNat_zero]
    omega
  rw [Joins, Beside, hnumber]
  constructor
  · rintro ⟨hcard, hid, hlt, hclash⟩
    obtain ⟨hne, hserial⟩ := hclash rfl _ h₀ rfl (by decide)
    exact ⟨hcard, hid, ⟨hlt, hne⟩, fun hb => Ne.symm (hserial hb)⟩
  · rintro ⟨hcard, hid, ⟨hlt, hne⟩, hserial⟩
    refine ⟨hcard, hid, hlt, fun _ q hq _ _ => ?_⟩
    obtain rfl := Option.some.inj (h₀.symm.trans hq)
    exact ⟨hne, fun hb => Ne.symm (hserial hb)⟩

/-- **The sizes add up** exactly if they are accounted for. -/
theorem accounted_iff (bySerial : Bool) (cards : Cards) (shown : Nat) :
    dataKb (accepts bySerial cards) cards = 127 * shown ↔ Accounted bySerial cards shown := by
  have hsum : dataKb (accepts bySerial cards) cards =
      counted bySerial cards 0 + counted bySerial cards 1 := dataKb_eq _ _
  rw [hsum]
  by_cases h₀ : ∃ a, Joins bySerial cards 0 a <;> by_cases h₁ : ∃ b, Joins bySerial cards 1 b
  · obtain ⟨a, ha⟩ := h₀
    obtain ⟨b, hb⟩ := h₁
    rw [counted_of_joins ha, counted_of_joins hb]
    refine ⟨fun heq => ⟨fun a' b' ha' hb' => ?_, fun port r hr hno => ?_,
      fun hno => ?_⟩, fun h => ?_⟩
    · rw [← ha.unique ha', ← hb.unique hb']
      omega
    · rcases slot_cases port with rfl | rfl
      · exact absurd hb (hno b)
      · exact absurd ha (hno a)
    · exact absurd ha (hno 0 a)
    · have := h.both a b ha hb
      omega
  · obtain ⟨a, ha⟩ := h₀
    have hno₁ := not_exists.mp h₁
    rw [counted_of_joins ha, counted_of_not_joins hno₁]
    refine ⟨fun heq => ⟨fun _ b _ hb => absurd hb (hno₁ b), fun port r hr hno => ?_, fun hno => ?_⟩,
      fun h => ?_⟩
    · rcases slot_cases port with rfl | rfl
      · rw [← ha.unique hr]
        omega
      · exact absurd hr (hno₁ r)
    · exact absurd ha (hno 0 a)
    · have := h.alone 0 a ha hno₁
      omega
  · obtain ⟨b, hb⟩ := h₁
    have hno₀ := not_exists.mp h₀
    rw [counted_of_not_joins hno₀, counted_of_joins hb]
    refine ⟨fun heq => ⟨fun a _ ha _ => absurd ha (hno₀ a), fun port r hr hno => ?_, fun hno => ?_⟩,
      fun h => ?_⟩
    · rcases slot_cases port with rfl | rfl
      · exact absurd hr (hno₀ r)
      · rw [← hb.unique hr]
        omega
    · exact absurd hb (hno 1 b)
    · have := h.alone 1 b hb hno₀
      omega
  · have hno₀ := not_exists.mp h₀
    have hno₁ := not_exists.mp h₁
    have hno : ∀ port r, ¬ Joins bySerial cards port r := fun port => by
      rcases slot_cases port with rfl | rfl
      · exact hno₀
      · exact hno₁
    rw [counted_of_not_joins hno₀, counted_of_not_joins hno₁]
    refine ⟨fun heq => ⟨fun a _ ha _ => absurd ha (hno₀ a),
      fun port r hr _ => absurd hr (hno port r),
      fun _ => by omega⟩, fun h => ?_⟩
    rw [h.nothing hno]
    rfl

section Prepared

variable {s : Bench κ} (h : SessionInv s)
include h

/-- What a port formatted and left alone holds. -/
theorem SessionInv.records_kept {port : Slot} (hkept : s.kept port = true) :
    s.records port = some (formatRecord (mcVisibleSlots port)) := by
  obtain ⟨k, hk, hrec, -⟩ := h.kept port hkept
  exact Bench.records_of_card hk hrec

/-- With the second port never formatted, every formatted card has the record of the
first one. -/
theorem SessionInv.records_prepared (hsecond : s.ever 1 = false) {port : Slot} {k : κ}
    (hcard : s.ports.card port = some k) (hprep : s.prepared k = true) :
    s.ever 0 = true ∧ s.records port = some (formatRecord 0) := by
  obtain ⟨q, hq, hrec⟩ := h.prepared k hprep
  obtain rfl : q = 0 := by
    rcases slot_cases q with rfl | rfl
    · rfl
    · exact absurd (hsecond.symm.trans hq) Bool.false_ne_true
  exact ⟨hq, Bench.records_of_card hcard hrec⟩

/-- A port formatted first and left alone counts for what is shown. -/
theorem SessionInv.counted_first (hkept : s.kept 0 = true) (bySerial : Bool) :
    counted bySerial s.records 0 = s.shown 0 := by
  obtain ⟨k, -, -, -, hpresent, hblackroo⟩ := h.kept 0 hkept
  have hrec : s.records 0 = some (formatRecord 0) := h.records_kept hkept
  rw [counted, accepts_first hrec, cardSize, identified_formatRecord hrec, Bench.shown, hpresent,
    hblackroo]
  rfl

/-- Beside a formatted card that was left alone. -/
theorem SessionInv.beside_iff (hkept : s.kept 0 = true) (bySerial : Bool) :
    dataKb (accepts bySerial s.records) s.records = s.wouldJoin ↔
      if s.shows 1 then ∃ r ∈ s.records 1, Beside bySerial r ∧ r.size.toNat / 8 = 128
      else ∀ r ∈ s.records 1, Beside bySerial r → r.size.toNat / 8 = 1 := by
  have hfirst := h.counted_first hkept bySerial
  have hjoins := joins_second_iff (h.records_kept hkept) bySerial
  have hsum : dataKb (accepts bySerial s.records) s.records = s.wouldJoin ↔
      counted bySerial s.records 1 = s.shown 1 := by
    show (slots.map (counted bySerial s.records)).sum = (slots.map s.shown).sum ↔ _
    rw [slots_eq]
    simp only [List.map_cons, List.map_nil, List.sum_cons, List.sum_nil, hfirst]
    omega
  rw [hsum, Bench.shown, ← Bench.shows]
  by_cases hr : ∃ r, Joins bySerial s.records 1 r
  · obtain ⟨r, hr⟩ := hr
    obtain ⟨hcard, hbeside⟩ := (hjoins r).mp hr
    rw [counted_of_joins hr, hcard]
    cases s.shows 1 with
    | true =>
      simp only [if_true, Option.mem_def, Option.some.injEq, exists_eq_left', hbeside, true_and]
      omega
    | false =>
      simp only [Bool.false_eq_true, if_false, Option.mem_def, Option.some.injEq, forall_eq',
        hbeside, true_implies]
      omega
  · have hno := not_exists.mp hr
    rw [counted_of_not_joins hno]
    cases s.shows 1 with
    | true =>
      refine iff_of_false (by decide) ?_
      rintro ⟨r, hcard, hbeside, -⟩
      exact hno r ((hjoins r).mpr ⟨hcard, hbeside⟩)
    | false =>
      refine iff_of_true rfl fun r hcard hbeside => ?_
      exact absurd ((hjoins r).mpr ⟨hcard, hbeside⟩) (hno r)

end Prepared

/-- An empty card in each port. -/
def emptyPair : Ports Bool where
  card := fun port => some (port == 1)
  apart := by decide

/-- Start on the row under the cursor, and then in `mc_confirm_format`. -/
def pressFormat (down : Bool) : Press :=
  { up := false, down := down, select := false, square := false, start := true, confirm := true }

/-- An empty card, and one with the number 1. -/
def secondOfSet (k : Bool) : Blocks :=
  if k then Function.update (fun _ => filled 0) 0 (FirstBlock.mk buId 1024 77 1).toBlock
  else fun _ => filled 0

/-- The manager after a format in the first port, beside that card. -/
def besideSecond : Bench Bool :=
  (Bench.start emptyPair secondOfSet).session
    [.enter idleSurroundings, .turn idleSurroundings (pressFormat false)]

/-- The manager after a format in both ports. -/
def formattedBoth : Bench Bool :=
  (Bench.start emptyPair fun _ _ => filled 0).session
    [.enter idleSurroundings, .turn idleSurroundings (pressFormat false),
      .turn idleSurroundings (pressFormat true)]

section Raid

/-- What `make_serial` takes from its surroundings.  `rand seed n` is the value of call
`n` of `rand` after `srand(seed)`; C leaves open which of the two calls in one expression
comes first; `time i` is the time at which card `i` is made. -/
structure HostClock where
  rand : UInt32 → Nat → UInt32
  leftFirst : Bool
  time : Nat → UInt64
  pid : UInt32

/-- `make_serial` for card `i`. -/
def makeSerial (c : HostClock) (i : Nat) : UInt32 :=
  let seed := (c.time i ^^^ c.pid.toUInt64).toUInt32
  let first := c.rand seed 0
  let second := c.rand seed 1
  if c.leftFirst then first ^^^ (second <<< 16) else second ^^^ (first <<< 16)

/-- The header `create_card` fills in. -/
def cardRecord (c : HostClock) (cardNumber : Nat) : FirstBlock :=
  ⟨0x1234, 1024, makeSerial c cardNumber, UInt32.ofNat cardNumber⟩

/-- `create_card` without a data file: the header on an empty card. -/
def createCard (c : HostClock) (cardNumber : Nat) : Blocks :=
  Function.update (fun _ => filled 0) 0 (cardRecord c cardNumber).toBlock

/-- `mkmemcard --raid count prefix`: the cards, and the KB printed at the end. -/
def raid (c : HostClock) (count : Int) : Option (List Blocks × Int) :=
  if count < 1 ∨ count > 8 then none
  else some ((List.range count.toNat).map (createCard c), count * (1024 - 8) * 128 / 1024)

/-- The cards of a set in the slots. -/
def insert (cards : List Blocks) (p : Plugging (Fin cards.length)) (j : Slot) : Option Blocks :=
  (p.card j).map cards.get

/-- A sweep accepts all cards of a set, and joins the printed capacity. -/
structure RaidJoined (cards : List Blocks) (printed : Int) (p : Plugging (Fin cards.length))
    (d : Joined) : Prop where
  accepted : ∀ j k, p.card j = some k → d.accepted j = true
  capacity : d.sizes 0 = printed

/-- As many slots are filled as there are cards. -/
theorem Plugging.filled_slots {n : Nat} (p : Plugging (Fin n)) :
    (if (p.card 0).isSome then 1 else 0) + (if (p.card 1).isSome then 1 else 0) = n := by
  have hcard : (Finset.univ.filter fun j => (p.card j).isSome = true).card =
      (Finset.univ : Finset (Fin n)).card := by
    refine Finset.card_bij (fun j hj => (p.card j).get (Finset.mem_filter.mp hj).2)
      (fun _ _ => Finset.mem_univ _) (fun j hj j' hj' heq => ?_) (fun k _ => ?_)
    · exact (p.once ((p.card j).get (Finset.mem_filter.mp hj).2)).unique
        (Option.some_get _).symm (by rw [heq]; exact (Option.some_get _).symm)
    · obtain ⟨j, hj, -⟩ := p.once k
      have hsome : (p.card j).isSome = true := by rw [hj]; rfl
      exact ⟨j, Finset.mem_filter.mpr ⟨Finset.mem_univ j, hsome⟩, by simp [hj]⟩
  rw [Finset.card_filter, Finset.card_univ, Fintype.card_fin, Fin.sum_univ_two] at hcard
  exact hcard

variable {c : HostClock} {count : Int} {cards : List Blocks} {printed : Int}

theorem raid_eq_some_iff :
    raid c count = some (cards, printed) ↔
      (1 ≤ count ∧ count ≤ 8) ∧ cards = (List.range count.toNat).map (createCard c) ∧
        printed = count * 127 := by
  unfold raid
  split
  · simp only [reduceCtorEq, false_iff]
    omega
  · rw [Option.some.injEq, Prod.mk.injEq]
    have hkb : count * (1024 - 8) * 128 / 1024 = count * 127 := by omega
    rw [hkb, eq_comm, @eq_comm _ (count * 127)]
    constructor
    · intro h
      exact ⟨by omega, h⟩
    · exact fun h => h.2

/-- The driver reads the header of each card. -/
theorem buProbe_insert (hcards : cards = (List.range count.toNat).map (createCard c))
    (e : Surroundings) (p : Plugging (Fin cards.length)) (j : Slot) :
    buProbe e (insert cards p) j = (p.card j).map fun k => cardRecord c k.val := by
  rw [buProbe_eq, insert, Option.map_map]
  congr 1
  funext k
  have hk : cards.get k = createCard c k.val := by
    subst hcards
    simp
  rw [Function.comp_apply, hk, createCard, Function.update_self, FirstBlock.ofBytes_toBlock]

theorem toNat_cardNumber {n : Nat} (hn : n ≤ buMinors) (k : Fin n) :
    (UInt32.ofNat k.val).toNat = k.val :=
  UInt32.toNat_ofNat_of_lt' (lt_of_lt_of_le k.isLt (hn.trans (by decide)))

/-- Different serials make a set the driver can join. -/
def raidSet (c : HostClock) {n : Nat} (hn : n ≤ buMinors)
    (hserial : Function.Injective fun k : Fin n => makeSerial c k.val) : CardSet (Fin n) where
  record := fun k => cardRecord c k.val
  marked := fun _ => rfl
  number_lt := by
    intro k
    rw [cardRecord, toNat_cardNumber hn]
    exact lt_of_lt_of_le k.isLt hn
  number_injective := by
    intro k k' h
    have hnat := congrArg UInt32.toNat h
    simp only [cardRecord] at hnat
    rw [toNat_cardNumber hn, toNat_cardNumber hn] at hnat
    exact Fin.ext hnat
  serial_injective := hserial

/-- A set is joined if its serials all differ. -/
theorem raidJoined_iff_injective (hraid : raid c count = some (cards, printed))
    (hfit : count ≤ buMinors)
    (e : Surroundings) (p : Plugging (Fin cards.length)) (d : Joined) :
    RaidJoined cards printed p (buRevalidate d (buProbe e (insert cards p))).1 ↔
      Function.Injective fun k : Fin cards.length => makeSerial c k.val := by
  obtain ⟨hcount, hcards, hprinted⟩ := raid_eq_some_iff.mp hraid
  have hlen : (cards.length : Int) = count := by
    rw [hcards, List.length_map, List.length_range]
    omega
  have hprobe : buProbe e (insert cards p) = fun j => (p.card j).map fun k => cardRecord c k.val :=
    funext (buProbe_insert hcards e p)
  have hswept := buRevalidate_swept d (buProbe e (insert cards p))
  have hid : ∀ j, identified (buProbe e (insert cards p)) j =
      (p.card j).map fun k => cardRecord c k.val := by
    intro j
    rw [identified, buProbe_insert hcards]
    cases p.card j <;> rfl
  constructor
  · intro hjoined
    -- of two cards with one serial the sweep drops the one in slot 1
    have hpair : ∀ k k', p.card 0 = some k → p.card 1 = some k' →
        makeSerial c k.val ≠ makeSerial c k'.val := by
      intro k k' h₀ h₁ hserial
      have hacc := hjoined.accepted 1 k' h₁
      rw [hswept.accepted, accepts_one, ← hswept.accepted, hjoined.accepted 0 k h₀, hid, hid, h₀,
        h₁] at hacc
      simp [cardRecord, clash, hserial] at hacc
    intro k k' hserial
    obtain ⟨j, hj, -⟩ := p.once k
    obtain ⟨j', hj', -⟩ := p.once k'
    rcases slot_cases j with rfl | rfl <;> rcases slot_cases j' with rfl | rfl
    · exact Option.some.inj (hj.symm.trans hj')
    · exact absurd hserial (hpair k k' hj hj')
    · exact absurd hserial.symm (hpair k' k hj' hj)
    · exact Option.some.inj (hj.symm.trans hj')
  · intro hserial
    let set := raidSet c (by omega) hserial
    have hset : buProbe e (insert cards p) = set.cards p := hprobe
    rw [hset] at hswept ⊢
    have hacc := set.accepts_cards p true
    refine ⟨fun j k hj => ?_, ?_⟩
    · rw [hswept.accepted, hacc, hj]
      rfl
    · have hsize : ∀ j, (p.card j).isSome = true → (cardSize (set.cards p) j).toNat = 1024 := by
        intro j hj
        obtain ⟨k, hk⟩ := Option.isSome_iff_exists.mp hj
        rw [cardSize, set.identified_cards, hk]
        rfl
      have hfilled := p.filled_slots
      have hsize₀ := hsize 0
      have hsize₁ := hsize 1
      rw [hswept.advertised, dataKb_eq, hacc, hacc]
      split_ifs at hfilled ⊢ <;> simp_all <;> omega

/-- **Which sets are joined**: a set of one card always, and a set of two exactly if the two calls
of `rand` behind the two seeds, which are the times at which the cards are made combined with the
process, come to different serials. -/
theorem raidJoined_iff (hraid : raid c count = some (cards, printed)) (hfit : count ≤ buMinors)
    (e : Surroundings) (p : Plugging (Fin cards.length)) (d : Joined) :
    RaidJoined cards printed p (buRevalidate d (buProbe e (insert cards p))).1 ↔
      (count = 2 → ∀ seed seed' : UInt32, seed = (c.time 0 ^^^ c.pid.toUInt64).toUInt32 →
        seed' = (c.time 1 ^^^ c.pid.toUInt64).toUInt32 →
        if c.leftFirst then
          c.rand seed 0 ^^^ (c.rand seed 1 <<< 16) ≠ c.rand seed' 0 ^^^ (c.rand seed' 1 <<< 16)
        else c.rand seed 1 ^^^ (c.rand seed 0 <<< 16) ≠
          c.rand seed' 1 ^^^ (c.rand seed' 0 <<< 16)) := by
  have hserials : (count = 2 → makeSerial c 0 ≠ makeSerial c 1) ↔
      (count = 2 → ∀ seed seed' : UInt32, seed = (c.time 0 ^^^ c.pid.toUInt64).toUInt32 →
        seed' = (c.time 1 ^^^ c.pid.toUInt64).toUInt32 →
        if c.leftFirst then
          c.rand seed 0 ^^^ (c.rand seed 1 <<< 16) ≠ c.rand seed' 0 ^^^ (c.rand seed' 1 <<< 16)
        else c.rand seed 1 ^^^ (c.rand seed 0 <<< 16) ≠
          c.rand seed' 1 ^^^ (c.rand seed' 0 <<< 16)) := by
    refine imp_congr_right fun _ => ?_
    simp only [makeSerial]
    cases c.leftFirst <;> simp
  obtain ⟨hcount, hcards, -⟩ := raid_eq_some_iff.mp hraid
  have hlen : (cards.length : Int) = count := by
    rw [hcards, List.length_map, List.length_range]
    omega
  have hfit' : count ≤ 2 := hfit
  rw [raidJoined_iff_injective hraid hfit, ← hserials]
  constructor
  · intro hinj htwo heq
    have h01 := @hinj ⟨0, by omega⟩ ⟨1, by omega⟩ heq
    exact Nat.zero_ne_one (congrArg Fin.val h01)
  · intro hne k k' heq
    have heq : makeSerial c k.val = makeSerial c k'.val := heq
    have hk := k.isLt
    have hk' := k'.isLt
    by_contra hkk
    have hval : k.val ≠ k'.val := fun h => hkk (Fin.ext h)
    have hcases : k.val = 0 ∧ k'.val = 1 ∨ k.val = 1 ∧ k'.val = 0 := by omega
    rcases hcases with ⟨h, h'⟩ | ⟨h, h'⟩
    · rw [h, h'] at heq
      exact hne (by omega) heq
    · rw [h, h'] at heq
      exact hne (by omega) heq.symm

/-- A generator that follows its seed, and a clock that goes on by `step` seconds from
one card to the next. -/
def seedClock (step : UInt64) : HostClock :=
  ⟨fun seed n => seed + UInt32.ofNat n, true, fun i => 1000 + UInt64.ofNat i * step, 77⟩

/-- Both cards of a set, in the order of their numbers. -/
def bothInOrder : Plugging (Fin 2) where
  card := fun j => some j
  once := by
    unfold ExistsUnique
    decide

theorem raidJoined_iff_seedClock :
    ∃ cards printed, ∃ p : Plugging (Fin cards.length),
      raid (seedClock 1) 2 = some (cards, printed) ∧
        RaidJoined cards printed p
          (buRevalidate .zero (buProbe idleSurroundings (insert cards p))).1 := by
  have hraid : raid (seedClock 1) 2 =
      some ((List.range 2).map (createCard (seedClock 1)), 254) := rfl
  refine ⟨(List.range 2).map (createCard (seedClock 1)), 254, bothInOrder, hraid,
    (raidJoined_iff hraid (by decide) idleSurroundings bothInOrder .zero).mpr ?_⟩
  rintro - _ _ rfl rfl
  decide

/-- **A set made within one second is not joined.** -/
theorem not_raidJoined_seedClock :
    ∃ cards printed, ∃ p : Plugging (Fin cards.length),
      raid (seedClock 0) 2 = some (cards, printed) ∧
        ¬ RaidJoined cards printed p
          (buRevalidate .zero (buProbe idleSurroundings (insert cards p))).1 := by
  refine ⟨(List.range 2).map (createCard (seedClock 0)), 254, bothInOrder, rfl, fun h => ?_⟩
  have hacc := h.accepted 1 (1 : Fin 2) rfl
  have hprobe : buProbe idleSurroundings
      (insert ((List.range 2).map (createCard (seedClock 0))) bothInOrder) =
        fun j => (bothInOrder.card j).map fun k => cardRecord (seedClock 0) k.val :=
    funext (@buProbe_insert (seedClock 0) 2 _ rfl idleSurroundings bothInOrder)
  rw [hprobe] at hacc
  exact absurd hacc (by decide +kernel)

end Raid

end MemoryCard
end Blackroo
