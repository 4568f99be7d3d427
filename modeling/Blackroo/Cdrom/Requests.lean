import Blackroo.Cdrom.Iso9660
import Blackroo.Lib.ByteMemory

/-!
# Block requests

`do_psxcd_request` works off the queue of the driver.  A request of the block layer is a
chain of buffers; `end_request` ends the first buffer of the first request and moves the
request on to the next one, so every turn of the loop ends one buffer.  The block layer
keeps the fields of a request in step with its first buffer: `current_nr_sectors` is the
size of that buffer in 512-byte sectors, `buffer` its data, and `sector` where it belongs
on the device.  A `Request` is therefore its command, the sector of its first buffer, and
its buffers, of which there is at least one.

`psxcd_hw_read` is a parameter, numbered by calls, since it depends on the state of the
drive: it returns whether it succeeded, and the memory afterwards.  `Delivers` is what is
assumed of it where the contents of the buffers are concerned.

Every call of `end_request` is recorded with what led to it: the reads that were made for
the buffer, and the memory before and after them.
-/

namespace Blackroo
namespace Cdrom
namespace Requests

open ByteMemory Iso9660

/-! ## The queue -/

inductive Cmd where
  | read
  | write
  deriving DecidableEq, Repr

/-- A buffer head: which buffer it is, `b_size` and `b_data`. -/
structure BufferHead where
  id : Nat
  bSize : UInt32
  bData : UInt32
  deriving DecidableEq, Repr

/-- The size in 512-byte sectors: `current_nr_sectors` while the buffer is the first one. -/
def BufferHead.nrSectors (b : BufferHead) : UInt32 := b.bSize >>> 9

structure Request where
  cmd : Cmd
  sector : UInt32
  bh : BufferHead
  rest : List BufferHead
  deriving DecidableEq, Repr

/-- A call of `psxcd_hw_read`, and whether it succeeded. -/
structure Read where
  lba : UInt32
  ok : Bool
  deriving DecidableEq, Repr

/-- A call of `end_request`: the buffer it ends, the command and the sector of the request at
that time, the argument, the reads made for the buffer, and the memory around them. -/
structure Ended where
  cmd : Cmd
  sector : UInt32
  bh : BufferHead
  uptodate : Bool
  reads : List Read
  before : Mem
  after : Mem

structure State where
  queue : List Request
  mem : Mem
  /-- the calls of `psxcd_hw_read` so far -/
  calls : Nat
  ended : List Ended

/-- The rest of a request when its first buffer is done, if there is one. -/
def Request.next (r : Request) : List Request :=
  match r.rest with
  | [] => []
  | b :: rest => [{ r with sector := r.sector + r.bh.nrSectors, bh := b, rest := rest }]

/-! ## The driver -/

section Driver

variable (hwRead : Nat → UInt32 → UInt32 → Mem → Bool × Mem) (psxcdBaseLba : UInt32)

/-- How the inner loop ends. -/
structure Outcome where
  ok : Bool
  reads : List Read
  calls : Nat
  mem : Mem

/-- The inner loop, with `n` sectors to go. -/
def readSectors : Nat → UInt32 → UInt32 → Nat → Mem → Outcome
  | 0, _, _, calls, m => ⟨true, [], calls, m⟩
  | n + 1, lba, buf, calls, m =>
    if (hwRead calls lba buf m).1 then
      let r := readSectors n (lba + 1) (buf + 2048) (calls + 1) (hwRead calls lba buf m).2
      { r with reads := ⟨lba, true⟩ :: r.reads }
    else ⟨false, [⟨lba, false⟩], calls + 1, (hwRead calls lba buf m).2⟩

/-- What is done for a buffer before it is ended. -/
def serve (r : Request) (calls : Nat) (m : Mem) : Outcome :=
  if r.cmd ≠ .read then ⟨false, [], calls, m⟩
  else if r.sector &&& 3 ≠ 0 ∨ r.bh.nrSectors &&& 3 ≠ 0 then ⟨false, [], calls, m⟩
  else
    readSectors hwRead (r.bh.nrSectors >>> 2).toNat (psxcdBaseLba + (r.sector >>> 2)) r.bh.bData
      calls m

/-- `do_psxcd_request`, with a fuel for its loop. -/
def doPsxcdRequest : Nat → State → Option State
  | 0, _ => none
  | fuel + 1, s =>
    match s.queue with
    | [] => some s
    | r :: queue =>
      let o := serve hwRead psxcdBaseLba r s.calls s.mem
      doPsxcdRequest fuel
        { queue := r.next ++ queue, mem := o.mem, calls := o.calls
          ended := s.ended ++ [⟨r.cmd, r.sector, r.bh, o.ok, o.reads, s.mem, o.mem⟩] }

end Driver

/-! ## What is to happen -/

/-- The buffers of a request, each with the sector it belongs to. -/
def buffersFrom (cmd : Cmd) : UInt32 → List BufferHead → List (Cmd × UInt32 × BufferHead)
  | _, [] => []
  | sector, b :: rest => (cmd, sector, b) :: buffersFrom cmd (sector + b.nrSectors) rest

def Request.buffers (r : Request) : List (Cmd × UInt32 × BufferHead) :=
  buffersFrom r.cmd r.sector (r.bh :: r.rest)

/-- A successful read puts the sector at its place in memory, and nothing anywhere else. -/
def Delivers (hwRead : Nat → UInt32 → UInt32 → Mem → Bool × Mem) (disc : UInt32 → Sector) : Prop :=
  ∀ calls lba buf m, (hwRead calls lba buf m).1 = true →
    (hwRead calls lba buf m).2 = apply m (block buf (bytesAt (disc lba).byte 0 2048))

/-- A read of whole sectors of the disc. -/
def Aligned (e : Ended) : Prop :=
  e.cmd = .read ∧ 4 ∣ e.sector.toNat ∧ 4 ∣ e.bh.nrSectors.toNat

/-- Every 2048-byte slot of the buffer holds its sector, and nothing else has changed. -/
def Filled (disc : UInt32 → Sector) (psxcdBaseLba : UInt32) (e : Ended) : Prop :=
  (∀ i < e.bh.nrSectors.toNat / 4, ∀ j < 2048,
      e.after (e.bh.bData + .ofNat (2048 * i + j)) =
        (disc (psxcdBaseLba + .ofNat (e.sector.toNat / 4) + .ofNat i)).byte j) ∧
    ∀ a, 512 * e.bh.nrSectors.toNat ≤ (a - e.bh.bData).toNat → e.after a = e.before a

/-- A buffer is ended as it should be: a read of whole sectors by the outcome of its reads, and
anything else with a failure and without touching the drive.  Only what the buffer holds depends on
the drive's delivering the right sectors. -/
def Right (hwRead : Nat → UInt32 → UInt32 → Mem → Bool × Mem) (disc : UInt32 → Sector)
    (psxcdBaseLba : UInt32) (e : Ended) : Prop :=
  (Aligned e → (e.uptodate = true ↔ ∀ r ∈ e.reads, r.ok = true) ∧
      (Delivers hwRead disc → e.uptodate = true → Filled disc psxcdBaseLba e)) ∧
    (¬ Aligned e → e.uptodate = false ∧ e.reads = [] ∧ e.after = e.before)

/-! ## The inner loop -/

section Proofs

variable {hwRead : Nat → UInt32 → UInt32 → Mem → Bool × Mem} {disc : UInt32 → Sector}

theorem readSectors_ok_iff (n : Nat) (lba buf : UInt32) (calls : Nat) (m : Mem) :
    (readSectors hwRead n lba buf calls m).ok = true ↔
      ∀ r ∈ (readSectors hwRead n lba buf calls m).reads, r.ok = true := by
  induction n generalizing lba buf calls m with
  | zero => simp [readSectors]
  | succ n ih =>
    rw [readSectors]
    split
    · simpa using ih _ _ _ _
    · simp

theorem getD_bytesAt (mem : Nat → UInt8) (off n i : Nat) (d : UInt8) :
    (bytesAt mem off n).getD i d = if i < n then mem (off + i) else d := by
  induction n generalizing off i with
  | zero => rfl
  | succ n ih =>
    rw [bytesAt]
    cases i with
    | zero => rfl
    | succ i =>
      rw [List.getD_cons_succ, ih, Nat.add_right_comm off 1 i, Nat.add_assoc off i 1]
      simp only [Nat.add_lt_add_iff_right]

/-- A delivered sector, byte by byte. -/
theorem delivered_apply (s : Sector) (buf : UInt32) (m : Mem) (a : UInt32) :
    apply m (block buf (bytesAt s.byte 0 2048)) a =
      if (a - buf).toNat < 2048 then s.byte (a - buf).toNat else m a := by
  rw [apply_block m buf (by rw [length_bytesAt]; decide), getD_bytesAt, Nat.zero_add]

theorem toNat_sub_add (a buf : UInt32) :
    (a - (buf + 2048)).toNat = ((a - buf).toNat + (2 ^ 32 - 2048)) % 2 ^ 32 := by
  have ha : a.toNat < 2 ^ 32 := a.toNat_lt
  have hb : buf.toNat < 2 ^ 32 := buf.toNat_lt
  rw [UInt32.toNat_sub, UInt32.toNat_sub, UInt32.toNat_add]
  show (2 ^ 32 - (buf.toNat + 2048) % 2 ^ 32 + a.toNat) % 2 ^ 32 = _
  omega

/-- **The inner loop fills its slots.**  The invariant is the memory as a whole: inside the
range read so far the disc, outside of it what was there before. -/
theorem readSectors_mem (hread : Delivers hwRead disc) {n : Nat} (hn : 2048 * n ≤ 2 ^ 32)
    (lba buf : UInt32) (calls : Nat) (m : Mem)
    (hok : (readSectors hwRead n lba buf calls m).ok = true) (a : UInt32) :
    (readSectors hwRead n lba buf calls m).mem a =
      if (a - buf).toNat < 2048 * n then
        (disc (lba + .ofNat ((a - buf).toNat / 2048))).byte ((a - buf).toNat % 2048)
      else m a := by
  induction n generalizing lba buf calls m with
  | zero => rfl
  | succ n ih =>
    rw [readSectors] at hok ⊢
    by_cases hfirst : (hwRead calls lba buf m).1 = true
    · rw [if_pos hfirst] at hok ⊢
      rw [ih (by omega) _ _ _ _ hok, hread calls lba buf m hfirst, delivered_apply, toNat_sub_add]
      have hlt := (a - buf).toNat_lt
      generalize (a - buf).toNat = d at hlt ⊢
      by_cases hd : d < 2048
      · rw [if_neg (by omega), if_pos hd, if_pos (by omega), Nat.div_eq_of_lt hd,
          Nat.mod_eq_of_lt hd]
        rw [show lba + UInt32.ofNat 0 = lba from UInt32.add_zero lba]
      · have hmod : (d + (2 ^ 32 - 2048)) % 2 ^ 32 = d - 2048 := by omega
        rw [hmod, if_neg hd]
        by_cases hin : d < 2048 * (n + 1)
        · rw [if_pos (by omega), if_pos hin]
          have hdiv : d / 2048 = (d - 2048) / 2048 + 1 := by omega
          have hrem : d % 2048 = (d - 2048) % 2048 := by omega
          rw [hdiv, hrem, UInt32.ofNat_add, UInt32.add_comm (UInt32.ofNat _), ← UInt32.add_assoc]
          rfl
        · rw [if_neg (by omega), if_neg hin]
    · rw [if_neg hfirst] at hok
      cases hok

/-! ## One turn of the loop -/

variable (psxcdBaseLba : UInt32)

theorem and_three_eq_zero_iff (x : UInt32) : x &&& 3 = 0 ↔ 4 ∣ x.toNat := by
  rw [← UInt32.toNat_inj, UInt32.toNat_and]
  show x.toNat &&& (2 ^ 2 - 1) = 0 ↔ _
  rw [Nat.and_two_pow_sub_one_eq_mod, Nat.dvd_iff_mod_eq_zero]

theorem shiftRight_two (x : UInt32) : x >>> 2 = .ofNat (x.toNat / 4) := by
  apply UInt32.toNat_inj.mp
  have hx : x.toNat < 2 ^ 32 := x.toNat_lt
  rw [UInt32.toNat_shiftRight, UInt32.toNat_ofNat_of_lt' (show _ < 2 ^ 32 by omega)]
  show x.toNat >>> 2 = _
  rw [Nat.shiftRight_eq_div_pow]

theorem nrSectors_le (b : BufferHead) : 512 * b.nrSectors.toNat < 2 ^ 32 := by
  have hb : b.bSize.toNat < 2 ^ 32 := b.bSize.toNat_lt
  have h : b.nrSectors.toNat = b.bSize.toNat / 512 := by
    rw [BufferHead.nrSectors, UInt32.toNat_shiftRight]
    show b.bSize.toNat >>> 9 = _
    rw [Nat.shiftRight_eq_div_pow]
  omega

variable (hwRead disc) in
/-- **One turn**: the buffer is ended as it should be. -/
theorem serve_right (r : Request) (calls : Nat) (m : Mem) :
    let o := serve hwRead psxcdBaseLba r calls m
    Right hwRead disc psxcdBaseLba ⟨r.cmd, r.sector, r.bh, o.ok, o.reads, m, o.mem⟩ := by
  have halign : (r.sector &&& 3 ≠ 0 ∨ r.bh.nrSectors &&& 3 ≠ 0) ↔
      ¬ (4 ∣ r.sector.toNat ∧ 4 ∣ r.bh.nrSectors.toNat) := by
    rw [not_and_or, ← and_three_eq_zero_iff, ← and_three_eq_zero_iff]
  rw [serve]
  by_cases hcmd : r.cmd = .read
  · rw [if_neg (not_not.mpr hcmd)]
    by_cases hal : r.sector &&& 3 ≠ 0 ∨ r.bh.nrSectors &&& 3 ≠ 0
    · rw [if_pos hal]
      exact ⟨fun h => absurd h.2 (halign.mp hal), fun _ => ⟨rfl, rfl, rfl⟩⟩
    · rw [if_neg hal]
      have hal' : 4 ∣ r.sector.toNat ∧ 4 ∣ r.bh.nrSectors.toNat := by
        by_contra h
        exact hal (halign.mpr h)
      have hsize := nrSectors_le r.bh
      have hcount : (r.bh.nrSectors >>> 2).toNat = r.bh.nrSectors.toNat / 4 := by
        rw [shiftRight_two, UInt32.toNat_ofNat_of_lt' (show _ < 2 ^ 32 by omega)]
      have hbytes : 2048 * (r.bh.nrSectors.toNat / 4) = 512 * r.bh.nrSectors.toNat := by
        obtain ⟨k, hk⟩ := hal'.2
        omega
      rw [hcount, shiftRight_two]
      refine ⟨fun _ => ⟨readSectors_ok_iff _ _ _ _ _,
          fun hread hok => ⟨fun i hi j hj => ?_, fun a ha => ?_⟩⟩,
        fun h => absurd ⟨hcmd, hal'⟩ h⟩
      · show Outcome.mem _ _ = _
        have hoff : (r.bh.bData + UInt32.ofNat (2048 * i + j) - r.bh.bData).toNat =
          2048 * i + j := by
          refine toNat_add_ofNat_sub _ ?_
          show 2048 * i + j < 2 ^ 32
          have : i < r.bh.nrSectors.toNat / 4 := hi
          omega
        have hi' : i < r.bh.nrSectors.toNat / 4 := hi
        rw [readSectors_mem hread (by omega) _ _ _ _ hok, hoff, if_pos (by omega),
          show (2048 * i + j) / 2048 = i by omega, show (2048 * i + j) % 2048 = j by omega]
      · show Outcome.mem _ _ = _
        rw [readSectors_mem hread (by omega) _ _ _ _ hok, if_neg]
        have ha' : 512 * r.bh.nrSectors.toNat ≤ (a - r.bh.bData).toNat := ha
        omega
  · rw [if_pos hcmd]
    exact ⟨fun h => absurd h.1 hcmd, fun _ => ⟨rfl, rfl, rfl⟩⟩

/-! ## The whole queue -/

theorem buffers_eq (r : Request) (queue : List Request) :
    (r :: queue).flatMap Request.buffers =
      (r.cmd, r.sector, r.bh) :: (r.next ++ queue).flatMap Request.buffers := by
  rw [List.flatMap_cons, List.flatMap_append, Request.buffers, buffersFrom, List.cons_append]
  congr 2
  cases hrest : r.rest with
  | nil => simp [Request.next, hrest, buffersFrom]
  | cons b rest => simp [Request.next, hrest, buffersFrom, Request.buffers]

variable (hwRead disc) in
/-- **The driver works off its queue.**  Every buffer is ended exactly once, in the order of
the queue, and every one is ended as it should be. -/
theorem doPsxcdRequest_right (s : State) (fuel : Nat)
    (hfuel : (s.queue.flatMap Request.buffers).length < fuel) :
    ∃ s' new, doPsxcdRequest hwRead psxcdBaseLba fuel s = some s' ∧ s'.queue = [] ∧
      s'.ended = s.ended ++ new ∧
      new.map (fun e => (e.cmd, e.sector, e.bh)) = s.queue.flatMap Request.buffers ∧
      ∀ e ∈ new, Right hwRead disc psxcdBaseLba e := by
  induction fuel generalizing s with
  | zero => exact absurd hfuel (Nat.not_lt_zero _)
  | succ fuel ih =>
    obtain ⟨queue, mem, calls, ended⟩ := s
    cases queue with
    | nil => exact ⟨_, [], rfl, rfl, (List.append_nil _).symm, rfl, fun e he => (nomatch he)⟩
    | cons r queue =>
      rw [buffers_eq, List.length_cons] at hfuel
      have hturn := serve_right hwRead disc psxcdBaseLba r calls mem
      obtain ⟨s', new, hrun, hempty, hended, hnew, hright⟩ := ih
        ⟨r.next ++ queue, (serve hwRead psxcdBaseLba r calls mem).mem,
          (serve hwRead psxcdBaseLba r calls mem).calls, _⟩ (Nat.lt_of_succ_lt_succ hfuel)
      refine ⟨s', _ :: new, hrun, hempty, ?_, ?_, List.forall_mem_cons.mpr ⟨hturn, hright⟩⟩
      · rw [hended, List.append_assoc]
        rfl
      · rw [List.map_cons, hnew, buffers_eq]

end Proofs

/-- A drive that reads all sectors but one. -/
def scratchedRead (disc : UInt32 → Sector) (bad : UInt32) :
    Nat → UInt32 → UInt32 → Mem → Bool × Mem :=
  fun _ lba buf m =>
    if lba = bad then (false, m) else (true, apply m (block buf (bytesAt (disc lba).byte 0 2048)))

theorem delivers_scratchedRead (disc : UInt32 → Sector) (bad : UInt32) :
    Delivers (scratchedRead disc bad) disc := by
  intro calls lba buf m hok
  rw [scratchedRead] at hok ⊢
  by_cases h : lba = bad
  · rw [if_pos h] at hok
    cases hok
  · rw [if_neg h]

/-- Two buffers of three sectors, a write, a read that does not start on a sector of the disc, and a
read that comes to the bad sector. -/
def mixedQueue : List Request :=
  [⟨.read, 8, ⟨0, 4096, 0x80100000⟩, [⟨1, 2048, 0x80140000⟩]⟩,
    ⟨.write, 0, ⟨2, 2048, 0x80150000⟩, []⟩,
    ⟨.read, 2, ⟨3, 2048, 0x80160000⟩, []⟩, ⟨.read, 20, ⟨4, 4096, 0x80170000⟩, []⟩]

/-- A disc whose sectors hold their numbers. -/
def numberedDisc (lba : UInt32) : Sector := fun _ => lba.toUInt8

theorem doPsxcdRequest_right_mixedQueue :
    Delivers (scratchedRead numberedDisc 833) numberedDisc ∧
      ∃ s' new, doPsxcdRequest (scratchedRead numberedDisc 833) 827 6
          ⟨mixedQueue, fun _ => 1, 0, []⟩ = some s' ∧
        s'.queue = [] ∧ s'.ended = [] ++ new ∧
        new.map (fun e => (e.cmd, e.sector, e.bh)) = mixedQueue.flatMap Request.buffers ∧
        new.map (fun e => e.uptodate) = [true, true, false, false, false] ∧
        ∀ e ∈ new, Right (scratchedRead numberedDisc 833) numberedDisc 827 e := by
  obtain ⟨s', new, hrun, hempty, hended, hnew, hright⟩ :=
    doPsxcdRequest_right (scratchedRead numberedDisc 833) numberedDisc 827
      ⟨mixedQueue, fun _ => 1, 0, []⟩ 6 (by decide)
  have hflags : (doPsxcdRequest (scratchedRead numberedDisc 833) 827 6
      ⟨mixedQueue, fun _ => 1, 0, []⟩).map (fun s => s.ended.map fun e => e.uptodate) =
        some [true, true, false, false, false] := by
    decide +kernel
  rw [hrun, Option.map_some, hended] at hflags
  exact ⟨delivers_scratchedRead _ _, s', new, hrun, hempty, hended, hnew, Option.some.inj hflags,
    hright⟩

end Requests
end Cdrom
end Blackroo
