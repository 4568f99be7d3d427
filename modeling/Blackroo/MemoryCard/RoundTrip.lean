import Blackroo.MemoryCard.Polled

/-!
# A compliant card, and what is written to it

A card is an array of blocks of 128 bytes behind a protocol of its own.  It answers
each byte from the bytes it has received since it was selected; what the protocol does
not fix (the flag byte, and the line while an address or data come in) is left open as
`Noise`.  A write is stored when the end byte is sent, if the checksum was right.

Two programs write such cards and two read them: the state machine of the kernel and
the polled functions of the boot loader.  `write_spec` and `read_spec` say that all
four line up with the card, and `written_is_read` that a block written by either is
read back by either, whatever else is done to the card in between.

## One script for four programs

What a master sends for a read or a write is a list of bytes, and the lists are those of
`MemoryCard.Transfer` and `MemoryCard.Polled`, which prove of each program that it sends its list as
long as the right answers come.  Here the card is put at the other end, and `card_readReplies` and
`card_writeReplies` say that its answers are the right ones.  The end byte is what stores a block,
so up to there a write may be cut off at any byte and the card is as it was (`blocks_sends`).
-/

namespace Blackroo
namespace MemoryCard

open Dialogue SerialBus

/-! ## The card -/

/-- The contents of a card block. -/
abbrev Block : Type := { data : List UInt8 // data.length = buBlkSize }

abbrev Blocks : Type := UInt16 → Block

/-- A card on the bus: its blocks, and the bytes received since it was selected. -/
@[ext]
structure Card where
  blocks : Blocks
  got : List UInt8

/-- The bytes the protocol leaves open. -/
structure Noise where
  flag : UInt8
  line : List UInt8 → UInt8

/-- `MC_CMD_ID`. -/
def mcCmdId : UInt8 := 0x53

/-- The block number in the fifth and sixth byte. -/
def Card.address (c : Card) : UInt16 :=
  UInt16.ofNat (256 * (c.got.getD 4 0).toNat + (c.got.getD 5 0).toNat)

/-- The data bytes of a write. -/
def Card.incoming (c : Card) : List UInt8 := (c.got.drop 6).take buBlkSize

/-- Whether the checksum received in a write is right. -/
def Card.intact (c : Card) : Bool := c.got.getD 134 0 == checksum c.address c.incoming

/-- The answers of a read: identification, acknowledge, the address again, the data,
their checksum and the end byte. -/
def Card.readReply (noise : Noise) (c : Card) : Option UInt8 :=
  let n := c.got.length
  if n = 2 then some 0x5A
  else if n = 3 then some 0x5D
  else if n < 6 then some (noise.line c.got)
  else if n = 6 then some 0x5C
  else if n = 7 then some 0x5D
  else if n = 8 then some (c.got.getD 4 0)
  else if n = 9 then some (c.got.getD 5 0)
  else if n < 138 then some ((c.blocks c.address).val.getD (n - 10) 0)
  else if n = 138 then some (checksum c.address (c.blocks c.address).val)
  else if n = 139 then some 0x47
  else none

/-- The answers of a write: identification, the line while address, data and checksum
come in, acknowledge, and the end byte. -/
def Card.writeReply (noise : Noise) (c : Card) : Option UInt8 :=
  let n := c.got.length
  if n = 2 then some 0x5A
  else if n = 3 then some 0x5D
  else if n < 135 then some (noise.line c.got)
  else if n = 135 then some 0x5C
  else if n = 136 then some 0x5D
  else if n = 137 then some (if c.intact then 0x47 else 0x4E)
  else none

/-- The answers of a query of the card's identity. -/
def Card.idReply (noise : Noise) (c : Card) : Option UInt8 :=
  let n := c.got.length
  if n = 2 then some 0x5A
  else if n = 3 then some 0x5D
  else if n < 12 then some (noise.line c.got)
  else none

/-- The answer to the byte now coming in.  A card answers its own address only, and no
command it does not know. -/
def Card.reply (noise : Noise) (c : Card) : Option UInt8 :=
  if c.got.length = 0 then some (noise.line c.got)
  else if c.got.getD 0 0 ≠ 0x81 then none
  else if c.got.length = 1 then some noise.flag
  else if c.got.getD 1 0 = mcCmdRead then c.readReply noise
  else if c.got.getD 1 0 = mcCmdWrite then c.writeReply noise
  else if c.got.getD 1 0 = mcCmdId then c.idReply noise
  else none

/-- The blocks after the exchange: an intact write is stored with its end byte. -/
def Card.store (c : Card) : Blocks :=
  if h : c.got.length = 137 then
    if c.got.getD 0 0 = 0x81 ∧ c.got.getD 1 0 = mcCmdWrite ∧ c.intact = true then
      Function.update c.blocks c.address ⟨c.incoming, by simp [incoming, h, buBlkSize]⟩
    else c.blocks
  else c.blocks

/-- The card as a peer on the bus. -/
def cardPeer (noise : Noise) : Peer Card UInt8 := fun c tx =>
  (c.reply noise, ⟨c.store, c.got ++ [tx]⟩)

/-- A card that has just been selected, with a byte left in the data register. -/
def selected (blocks : Blocks) (stale : UInt8) : Bus Card UInt8 := ⟨⟨blocks, []⟩, some stale, []⟩

/-! ## What a card sees of a script -/

section Script

variable {noise : Noise} {blocks : Blocks} {stale : UInt8} {send : Nat → UInt8}

theorem got_sends (n : Nat) :
    ((selected blocks stale).sends (cardPeer noise) send n).peer.got =
      (List.range n).map send := by
  induction n with
  | zero => rfl
  | succ n ih =>
    show ((selected blocks stale).sends (cardPeer noise) send n).peer.got ++ [send n] = _
    rw [ih, List.range_succ, List.map_append]
    rfl

/-- What an exchange does to the blocks. -/
theorem blocks_step {n m : Nat} (hm : m = n + 1) :
    ((selected blocks stale).sends (cardPeer noise) send m).peer.blocks =
      ((selected blocks stale).sends (cardPeer noise) send n).peer.store := by
  rw [hm]
  rfl

theorem getD_map_range {n k : Nat} (hk : k < n) :
    ((List.range n).map send).getD k 0 = send k := by
  simp [List.getD_eq_getElem?_getD, hk]

/-- Nothing is stored before the end byte of a write. -/
theorem blocks_sends {n : Nat} (hn : n ≤ 137) :
    ((selected blocks stale).sends (cardPeer noise) send n).peer.blocks = blocks := by
  induction n with
  | zero => rfl
  | succ n ih =>
    rw [blocks_step rfl, Card.store, dif_neg, ih (by omega)]
    rw [got_sends, List.length_map, List.length_range]
    omega

/-- A read stores nothing at all. -/
theorem blocks_sends_read (hcmd : send 1 = mcCmdRead) (n : Nat) :
    ((selected blocks stale).sends (cardPeer noise) send n).peer.blocks = blocks := by
  induction n with
  | zero => rfl
  | succ n ih =>
    rw [blocks_step rfl, Card.store]
    split
    · rename_i hlen
      rw [got_sends, List.length_map, List.length_range] at hlen
      rw [if_neg, ih]
      rw [got_sends, getD_map_range (by omega : 1 < n), hcmd]
      exact fun h => absurd h.2.1 (by decide)
    · exact ih

/-- The card in the middle of a script. -/
theorem peer_sends {n : Nat} (hblocks :
    ((selected blocks stale).sends (cardPeer noise) send n).peer.blocks = blocks) :
    ((selected blocks stale).sends (cardPeer noise) send n).peer =
      ⟨blocks, (List.range n).map send⟩ := by
  ext1
  · exact hblocks
  · exact got_sends n

/-- The fifth and sixth byte of a script are the block number. -/
theorem address_map_range {block : UInt16} (h4 : send 4 = msb block) (h5 : send 5 = lsb block)
    {n : Nat} (hn : 6 ≤ n) : Card.address ⟨blocks, (List.range n).map send⟩ = block := by
  have hmsb : (msb block).toNat = block.toNat / 256 := by
    have hlt := block.toNat_lt
    rw [msb, UInt16.toNat_toUInt8, UInt16.toNat_shiftRight]
    simp only [UInt16.toNat_ofNat, Nat.reducePow, Nat.reduceMod, Nat.shiftRight_eq_div_pow]
    omega
  have hlsb : (lsb block).toNat = block.toNat % 256 := by
    rw [lsb, UInt16.toNat_toUInt8]
  rw [Card.address, getD_map_range (by omega : 4 < n), getD_map_range (by omega : 5 < n), h4, h5,
    hmsb, hlsb, Nat.div_add_mod]
  exact UInt16.ofNat_toNat

/-- The answer to a byte of a script that has not stored anything. -/
theorem reply_sends {n : Nat} (hblocks :
    ((selected blocks stale).sends (cardPeer noise) send n).peer.blocks = blocks) :
    (selected blocks stale).reply (cardPeer noise) send n =
      Card.reply noise ⟨blocks, (List.range n).map send⟩ := by
  rw [← peer_sends hblocks]
  rfl

/-- Past the command byte a card answers by the command. -/
theorem reply_command (h0 : send 0 = 0x81) {n : Nat} (hn : 2 ≤ n) :
    Card.reply noise ⟨blocks, (List.range n).map send⟩ =
      if send 1 = mcCmdRead then Card.readReply noise ⟨blocks, (List.range n).map send⟩
      else if send 1 = mcCmdWrite then Card.writeReply noise ⟨blocks, (List.range n).map send⟩
      else if send 1 = mcCmdId then Card.idReply noise ⟨blocks, (List.range n).map send⟩
      else none := by
  rw [Card.reply, getD_map_range (by omega : 0 < n), getD_map_range (by omega : 1 < n), h0]
  simp [show n ≠ 0 by omega, show n ≠ 1 by omega]

end Script

/-! ## Reading -/

section Read

variable (noise : Noise) (blocks : Blocks) (stale : UInt8) (block : UInt16)

/-- Past the command byte the card answers as to a read. -/
theorem reply_read {n : Nat} (hn : 2 ≤ n) :
    (selected blocks stale).reply (cardPeer noise) (readScript 0 block).send n =
      Card.readReply noise ⟨blocks, (List.range n).map (readScript 0 block).send⟩ := by
  rw [reply_sends (blocks_sends_read rfl n), reply_command rfl hn]
  exact if_pos rfl

/-- **The card answers a read**, with the contents of the block. -/
theorem card_readReplies :
    ReadReplies ((selected blocks stale).reply (cardPeer noise) (readScript 0 block).send) block
      (blocks block).val := by
  have haddr : ∀ n, 6 ≤ n → Card.address
      ⟨blocks, (List.range n).map (readScript 0 block).send⟩ = block :=
    fun n hn => address_map_range rfl rfl hn
  have hlen : (blocks block).val.length = 128 := (blocks block).property
  have hdata : ∀ i < 128, (selected blocks stale).reply (cardPeer noise)
      (readScript 0 block).send (10 + i) = some ((blocks block).val.getD i 0) := by
    intro i hi
    rw [reply_read noise blocks stale block (by omega)]
    simp only [Card.readReply, List.length_map, List.length_range, haddr (10 + i) (by omega)]
    rw [if_neg (by omega), if_neg (by omega), if_neg (by omega), if_neg (by omega),
      if_neg (by omega), if_neg (by omega), if_neg (by omega), if_pos (by omega),
      Nat.add_sub_cancel_left]
  refine ⟨rfl, ⟨?_, ?_⟩, ⟨?_, ?_⟩, ⟨?_, ?_⟩, ?_, ?_, ?_, ?_⟩
  · rw [reply_read noise blocks stale block (by omega)]
    simp only [Card.readReply, List.length_map, List.length_range]
    rfl
  · rw [reply_read noise blocks stale block (by omega)]
    simp only [Card.readReply, List.length_map, List.length_range]
    rfl
  · rw [reply_read noise blocks stale block (by omega)]
    simp only [Card.readReply, List.length_map, List.length_range]
    rfl
  · rw [reply_read noise blocks stale block (by omega)]
    simp only [Card.readReply, List.length_map, List.length_range]
    rfl
  · rw [reply_read noise blocks stale block (by omega)]
    simp only [Card.readReply, List.length_map, List.length_range,
      getD_map_range (by omega : 4 < 8)]
    rfl
  · rw [reply_read noise blocks stale block (by omega)]
    simp only [Card.readReply, List.length_map, List.length_range,
      getD_map_range (by omega : 5 < 9)]
    rfl
  · intro i hi
    rw [hdata i hi]
    rfl
  · refine List.ext_getElem (by simp [hlen, buBlkSize]) fun i h₁ h₂ => ?_
    rw [List.getElem_map, List.getElem_range, hdata i (by omega), Option.getD_some]
    simp [List.getD_eq_getElem?_getD, h₁]
  · rw [reply_read noise blocks stale block (by omega)]
    simp only [Card.readReply, List.length_map, List.length_range, haddr 138 (by omega)]
    rfl
  · rw [reply_read noise blocks stale block (by omega)]
    simp only [Card.readReply, List.length_map, List.length_range]
    rfl

/-- The card answers every byte of a read. -/
theorem isSome_reply_read {n : Nat} (hn : n < 140) :
    ((selected blocks stale).reply (cardPeer noise) (readScript 0 block).send n).isSome = true := by
  rcases Nat.lt_or_ge n 2 with hlt | hge
  · rw [reply_sends (blocks_sends_read rfl n), Card.reply]
    rcases (show n = 0 ∨ n = 1 by omega) with rfl | rfl <;> rfl
  · rw [reply_read noise blocks stale block hge, Card.readReply]
    rw [Option.isSome_iff_ne_none]
    intro hnone
    simp only [List.length_map, List.length_range, ite_eq_iff, reduceCtorEq, and_false, false_or,
      and_true] at hnone
    omega

end Read

/-! ## Writing -/

section Write

variable (noise : Noise) (blocks : Blocks) (stale : UInt8) (block : UInt16) (data : Block)

/-- Past the command byte the card answers as to a write. -/
theorem reply_write {n : Nat} (hn : 2 ≤ n) (hn' : n ≤ 137) :
    (selected blocks stale).reply (cardPeer noise) (writeScript 0 block data).send n =
      Card.writeReply noise ⟨blocks, (List.range n).map (writeScript 0 block data).send⟩ := by
  rw [reply_sends (blocks_sends hn'), reply_command rfl hn]
  have hnot : ¬ (writeScript 0 block data).send 1 = mcCmdRead := by
    show ¬ modeWrite = mcCmdRead
    decide
  rw [if_neg hnot]
  exact if_pos rfl

/-- The card has received the data of a write. -/
theorem incoming_write {n : Nat} (hn : 134 ≤ n) :
    Card.incoming ⟨blocks, (List.range n).map (writeScript 0 block data).send⟩ = data.val := by
  have hlen : data.val.length = 128 := data.property
  refine List.ext_getElem (by simp [Card.incoming, hlen, buBlkSize]; omega) fun i h₁ h₂ => ?_
  simp only [Card.incoming, List.getElem_take, List.getElem_drop, List.getElem_map,
    List.getElem_range]
  simp [writeScript, show 6 + i ≠ 1 by omega, show 6 + i ≠ 4 by omega,
    show 6 + i ≠ 5 by omega, show 6 + i < 134 by omega, List.getD_eq_getElem?_getD, h₂]

theorem intact_write {n : Nat} (hn : 135 ≤ n) :
    Card.intact ⟨blocks, (List.range n).map (writeScript 0 block data).send⟩ = true := by
  rw [Card.intact, incoming_write blocks block data (by omega), address_map_range rfl rfl
    (by omega), beq_iff_eq, getD_map_range (by omega : 134 < n)]
  simp [writeScript]

/-- **The card answers a write**, with the end byte of an intact one. -/
theorem card_writeReplies :
    WriteReplies
      ((selected blocks stale).reply (cardPeer noise) (writeScript 0 block data).send) := by
  have hend : Card.intact ⟨blocks, (List.range 137).map (writeScript 0 block data).send⟩ = true :=
    intact_write blocks block data (by omega)
  refine ⟨rfl, ⟨?_, ?_⟩, ⟨?_, ?_⟩, ?_⟩ <;>
    rw [reply_write noise blocks stale block data (by omega) (by omega)] <;>
    simp only [Card.writeReply, List.length_map, List.length_range]
  · rfl
  · rfl
  · rfl
  · rfl
  · rw [hend]
    rfl

/-- The card answers every byte of a write. -/
theorem isSome_reply_write {n : Nat} (hn : n < 138) :
    ((selected blocks stale).reply (cardPeer noise)
      (writeScript 0 block data).send n).isSome = true := by
  rcases Nat.lt_or_ge n 2 with hlt | hge
  · rw [reply_sends (blocks_sends (by omega)), Card.reply]
    rcases (show n = 0 ∨ n = 1 by omega) with rfl | rfl <;> rfl
  · rw [reply_write noise blocks stale block data hge (by omega), Card.writeReply]
    rw [Option.isSome_iff_ne_none]
    intro hnone
    simp only [List.length_map, List.length_range, ite_eq_iff, reduceCtorEq, and_false, false_or,
      and_true] at hnone
    omega

/-- The end byte stores the block, and the byte after it changes nothing. -/
theorem blocks_write {n : Nat} (hn : n = 138 ∨ n = 139) :
    ((selected blocks stale).sends (cardPeer noise) (writeScript 0 block data).send n).peer.blocks =
      Function.update blocks block data := by
  have hend : ((selected blocks stale).sends (cardPeer noise) (writeScript 0 block data).send
      138).peer.blocks = Function.update blocks block data := by
    rw [blocks_step (n := 137) (m := 138) rfl, peer_sends (blocks_sends (le_refl 137)),
      Card.store, dif_pos (by simp), if_pos]
    · rw [address_map_range rfl rfl (by omega)]
      congr 1
      exact Subtype.ext (incoming_write blocks block data (by omega))
    · rw [getD_map_range (by omega : 0 < 137), getD_map_range (by omega : 1 < 137)]
      exact ⟨rfl, rfl, intact_write blocks block data (by omega)⟩
  rcases hn with rfl | rfl
  · exact hend
  · rw [blocks_step (n := 138) (m := 139) rfl, Card.store, dif_neg (by rw [got_sends]; simp),
      hend]

end Write

/-! ## The two masters -/

/-- What a transfer may find around it: the open bytes of the card, a byte left in the
data register, the driver's buffers from the transfer before, and more interrupts than
the transfer needs. -/
structure Surroundings where
  noise : Noise
  stale : UInt8
  scratch : Block
  left : Bu
  extra : Nat

/-- Who drives the transfer. -/
inductive Master
  | kernel
  | kloader

/-- Read a block of the card in a port. -/
def Master.read (m : Master) (e : Surroundings) (port : Slot) (block : UInt16) (blocks : Blocks) :
    Option (List UInt8 × Blocks) :=
  match m with
  | .kernel =>
    (buStart (cardPeer e.noise) (readLength - 1 + e.extra)
      { e.left with request := ⟨buFloor port, block, port, e.scratch.val, modeRead⟩ }
      (selected blocks e.stale)).map fun r => (r.1.request.buffer, r.2.peer.blocks)
  | .kloader =>
    let r := (memcardReadBlock (cardPeer e.noise) (mcVisibleSlots port) block).run
      (selected blocks e.stale)
    r.1.map fun buf => (buf, r.2.peer.blocks)

/-- Write a block of the card in a port. -/
def Master.write (m : Master) (e : Surroundings) (port : Slot) (block : UInt16) (data : Block)
    (blocks : Blocks) : Option Blocks :=
  match m with
  | .kernel =>
    (buStart (cardPeer e.noise) (writeLength - 1 + e.extra)
      { e.left with request := ⟨buFloor port, block, port, data.val, modeWrite⟩ }
      (selected blocks e.stale)).map fun r => r.2.peer.blocks
  | .kloader =>
    let r := (memcardWriteBlock (cardPeer e.noise) (mcVisibleSlots port) block data.val).run
      (selected blocks e.stale)
    r.1.map fun _ => r.2.peer.blocks

/-- The answers of a card that leaves no byte unanswered. -/
def cardAnswers (noise : Noise) (blocks : Blocks) (stale : UInt8) (script : Script UInt8)
    (i : Nat) : UInt8 :=
  ((selected blocks stale).reply (cardPeer noise) script.send i).getD 0

theorem shows_card {noise : Noise} {blocks : Blocks} {stale : UInt8} {script : Script UInt8}
    {len : Nat} (h : ∀ n, n + 1 < len →
      ((selected blocks stale).reply (cardPeer noise) script.send n).isSome = true) :
    Shows (cardPeer noise) (selected blocks stale) script len
      (registerBytes stale (cardAnswers noise blocks stale script)) := by
  intro n hn
  cases n with
  | zero => rfl
  | succ n => exact (Option.some_get (h n hn)).symm.trans (congrArg some (Option.get_eq_getD _))

/-- The same replies, with none missing. -/
theorem ReadReplies.getD {reply : Nat → Option UInt8} {block : UInt16} {buf : List UInt8}
    (h : ReadReplies reply block buf) :
    ReadReplies (fun i => some ((reply i).getD 0)) block buf := by
  obtain ⟨-, ⟨h2, h3⟩, ⟨h6, h7⟩, ⟨h8, h9⟩, -, hbuf, hcheck, hgood⟩ := h
  exact ⟨rfl, ⟨by rw [h2]; rfl, by rw [h3]; rfl⟩, ⟨by rw [h6]; rfl, by rw [h7]; rfl⟩,
    ⟨by rw [h8]; rfl, by rw [h9]; rfl⟩, fun _ _ => rfl, hbuf, by rw [hcheck]; rfl,
    by rw [hgood]; rfl⟩

theorem WriteReplies.getD {reply : Nat → Option UInt8} (h : WriteReplies reply) :
    WriteReplies fun i => some ((reply i).getD 0) := by
  obtain ⟨-, ⟨h2, h3⟩, ⟨h135, h136⟩, hgood⟩ := h
  exact ⟨rfl, ⟨by rw [h2]; rfl, by rw [h3]; rfl⟩, ⟨by rw [h135]; rfl, by rw [h136]; rfl⟩,
    by rw [hgood]; rfl⟩

/-- **Either master reads the block**, and changes nothing. -/
theorem read_spec (m : Master) (e : Surroundings) (port : Slot) (block : UInt16)
    (blocks : Blocks) : m.read e port block blocks = some ((blocks block).val, blocks) := by
  have hreplies := card_readReplies e.noise blocks e.stale block
  have hstays := @blocks_sends_read e.noise blocks e.stale (readScript 0 block).send rfl
  cases m with
  | kernel =>
    have hacc := (acceptsFrom_read_iff 0 block e.stale
      (cardAnswers e.noise blocks e.stale (readScript 0 block))).mpr
        (hreplies.buf_eq ▸ hreplies.getD)
    have hstart := @readAt_start port block
      { e.left with request := ⟨buFloor port, block, port, e.scratch.val, modeRead⟩ }
      ⟨rfl, rfl, rfl, rfl⟩ e.scratch.property
    obtain ⟨bu', w', hrun, hdone, hseen⟩ := (readAt_tracks port block).start_completes hstart
      (shows_card fun n hn => isSome_reply_read e.noise blocks e.stale block
        (Nat.lt_of_succ_lt_succ hn)) rfl (by decide) hacc e.extra
    have hbuf : bu'.request.buffer = (blocks block).val := by
      rw [hdone.data, hseen, readData_registerBytes _ _ (by decide), hreplies.buf_eq]
      rfl
    rw [Master.read, hrun, Option.map_some, hbuf]
    exact congrArg (fun after => some ((blocks block).val, after)) (hstays readLength)
  | kloader =>
    have hrun := (memcardReadBlock_iff (cardPeer e.noise) (mcVisibleSlots port) block
      (selected blocks e.stale) (blocks block).val _).mpr
        ⟨by rw [mcFloor_mcVisibleSlots]; exact hreplies, rfl⟩
    rw [mcFloor_mcVisibleSlots] at hrun
    simp only [Master.read, hrun, Option.map_some]
    exact congrArg (fun after => some ((blocks block).val, after)) (hstays 140)

/-- **Either master writes the block**, and no other one changes. -/
theorem write_spec (m : Master) (e : Surroundings) (port : Slot) (block : UInt16) (data : Block)
    (blocks : Blocks) :
    m.write e port block data blocks = some (Function.update blocks block data) := by
  have hreplies := card_writeReplies e.noise blocks e.stale block data
  cases m with
  | kernel =>
    have hacc := acceptsFrom_write 0 block data.val e.stale hreplies.getD
    have hstart := @writeAt_start port block data.val
      { e.left with request := ⟨buFloor port, block, port, data.val, modeWrite⟩ }
      ⟨rfl, rfl, rfl, rfl⟩ data.property rfl
    obtain ⟨bu', w', hrun, -, -⟩ := (writeAt_tracks port block data.val).start_completes hstart
      (shows_card fun n hn => isSome_reply_write e.noise blocks e.stale block data
        (Nat.lt_of_succ_lt_succ hn)) (by simp [writeScript, writeLength]) (by decide) hacc e.extra
    rw [Master.write, hrun, Option.map_some]
    exact congrArg some (blocks_write e.noise blocks e.stale block data (Or.inr rfl))
  | kloader =>
    have hrun := (memcardWriteBlock_iff (cardPeer e.noise) (mcVisibleSlots port) block
      data.property (selected blocks e.stale) _ ()).mpr
        ⟨by rw [mcFloor_mcVisibleSlots]; exact hreplies, rfl⟩
    rw [mcFloor_mcVisibleSlots] at hrun
    simp only [Master.write, hrun, Option.map_some]
    exact congrArg some (blocks_write e.noise blocks e.stale block data (Or.inl rfl))

/-! ## What is done to a card -/

/-- A transfer of either master. -/
inductive CardOp
  | read (m : Master) (e : Surroundings) (port : Slot) (block : UInt16)
  | write (m : Master) (e : Surroundings) (port : Slot) (block : UInt16) (data : Block)

/-- The blocks after a transfer; `none` if it fails. -/
def CardOp.run (blocks : Blocks) : CardOp → Option Blocks
  | .read m e port block => (m.read e port block blocks).map Prod.snd
  | .write m e port block data => m.write e port block data blocks

/-- Transfers one after the other, as long as they succeed. -/
def runCardOps (blocks : Blocks) (ops : List CardOp) : Option Blocks :=
  ops.foldlM CardOp.run blocks

/-- The transfer does not write this block. -/
def CardOp.Spares (block : UInt16) : CardOp → Prop
  | .read .. => True
  | .write _ _ _ b _ => b ≠ block

theorem CardOp.run_spares {op : CardOp} {block : UInt16} (h : op.Spares block) (blocks : Blocks) :
    ∃ after, op.run blocks = some after ∧ after block = blocks block := by
  cases op with
  | read m e port b =>
    refine ⟨blocks, ?_, rfl⟩
    rw [CardOp.run, read_spec, Option.map_some]
  | write m e port b data =>
    exact ⟨_, write_spec m e port b data blocks, Function.update_of_ne (Ne.symm h) _ _⟩

/-- Transfers that spare a block succeed and leave it alone. -/
theorem runCardOps_spares {ops : List CardOp} {block : UInt16} (h : ∀ op ∈ ops, op.Spares block)
    (blocks : Blocks) :
    ∃ after, runCardOps blocks ops = some after ∧ after block = blocks block := by
  induction ops generalizing blocks with
  | nil => exact ⟨blocks, rfl, rfl⟩
  | cons op ops ih =>
    obtain ⟨mid, hop, hmid⟩ := op.run_spares (h op List.mem_cons_self) blocks
    obtain ⟨after, hops, hafter⟩ := ih (fun o ho => h o (List.mem_cons_of_mem op ho)) mid
    refine ⟨after, ?_, hafter.trans hmid⟩
    rw [runCardOps, List.foldlM_cons, hop]
    exact hops

/-- **What is written is read.**  A write of a block by either master reports success and
changes exactly that block to exactly the buffer; after any other transfers that do not
write the block, a read of it by either master returns the buffer. -/
theorem written_is_read (writer reader : Master) (e e' : Surroundings) (port port' : Slot)
    (block : UInt16) (data : Block) (blocks : Blocks) :
    ∃ after, writer.write e port block data blocks = some after ∧
      after block = data ∧ (∀ b, b ≠ block → after b = blocks b) ∧
      ∀ ops : List CardOp, (∀ op ∈ ops, op.Spares block) →
        ∃ later, runCardOps after ops = some later ∧
          reader.read e' port' block later = some (data.val, later) := by
  refine ⟨_, write_spec writer e port block data blocks, Function.update_self _ _ _,
    fun b hb => Function.update_of_ne hb _ _, fun ops hops => ?_⟩
  obtain ⟨later, hrun, hlater⟩ := runCardOps_spares hops (Function.update blocks block data)
  refine ⟨later, hrun, ?_⟩
  rw [read_spec, hlater, Function.update_self]

/-- A block of one byte repeated. -/
def filled (byte : UInt8) : Block := ⟨List.replicate buBlkSize byte, List.length_replicate⟩

/-- A driver just started, and a card with an idle line. -/
def idleSurroundings : Surroundings :=
  ⟨⟨0x08, fun _ => 0xFF⟩, 0xFF, filled 0, ⟨⟨0, 0, 0, [], 0⟩, 0, 0, 0, false, 0, 0⟩, 0⟩

theorem written_is_read_filled :
    ∃ after, Master.kernel.write idleSurroundings 0 8 (filled 0xA5) (fun _ => filled 0) =
        some after ∧
      Master.kloader.read idleSurroundings 1 8 after = some ((filled 0xA5).val, after) := by
  obtain ⟨after, hwrite, -, -, hread⟩ := written_is_read .kernel .kloader idleSurroundings
    idleSurroundings 0 1 8 (filled 0xA5) (fun _ => filled 0)
  obtain ⟨later, hrun, hlater⟩ := hread [] (by simp)
  obtain rfl : after = later := Option.some.inj hrun
  exact ⟨after, hwrite, hlater⟩

end MemoryCard
end Blackroo
