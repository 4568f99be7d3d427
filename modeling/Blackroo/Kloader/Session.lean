import Blackroo.Kloader.Beacon
import Blackroo.Kloader.Dump
import Blackroo.Kloader.Upload

/-!
# A session with the serial shell

The host tool is started again and again, and each time it waits for a beacon, gives one command and
ends.  To its user the console is a memory that can be read and written.  What is between the two is
a protocol in which both sides count the bytes on their own, over a line that cuts the payload as it
likes, and a command that left a byte behind would be taken up by the next one.

`Request.serve` is the memory as the user sees it, and `session_refines` says that this is what the
user gets: in every session, in every interleaving of the two programs and with every division of
the payload, the replies and the memory are those of the requests served one after another, and
nothing is left on the line.

The console's poll does not time out here: while a host is at work the next command comes before
another beacon does.  The requests are about RAM, and nothing is written to where kloader is
(`Request.Fits`); the words of PEEK and POKE are aligned, as the processor demands.
-/

namespace Blackroo
namespace Kloader

open LittleEndian MappedMemory Process

/-! ## The commands of the host -/

/-- The most that one `ser.read(ser.in_waiting)` returns. -/
def inputBuffer : Nat := 4096

/-- `wait_for_beacon` as a program, with the number of times it finds something before it times out.
No beacon follows the one it was waiting for, so there are no stale bytes to flush. -/
def awaitBeacon : (turns : Nat) → (buf : List UInt8) → Host Bool
  | 0, _ => return false
  | turns + 1, buf =>
    .recv .data inputBuffer fun chunk =>
      match findBytes beaconBytes (buf ++ chunk) with
      | some _ => .done true
      | none => awaitBeacon turns (trimBuffer (buf ++ chunk))

/-- `cmd_ping` behind the beacon. -/
def cmdPingHost : Host Bool := do
  let resp ← sendCommand cmdPing
  return resp = some shellPong

/-- `cmd_peek` behind the beacon, with the value it prints. -/
def cmdPeekHost (addr : UInt32) : Host (Option UInt32) := do
  let resp ← sendCommand cmdPeekTag
  if resp ≠ some shellOk then return none
  else
    sendU32 addr
    recvU32

/-- `cmd_poke` behind the beacon. -/
def cmdPokeHost (addr val : UInt32) : Host Bool := do
  let resp ← sendCommand cmdPokeTag
  if resp ≠ some shellOk then return false
  else
    sendU32 addr
    sendU32 val
    let resp ← recvU32
    return resp = some shellDone

/-- The end of `cmd_bin`, after the loop. -/
def binFinish : Except UploadError (List Nat) → Host Bool
  | .error _ => return false
  | .ok _ => do
      let resp ← recvU32
      return resp = some shellDone

/-- `cmd_bin` behind the beacon.  Its loop is the one of `cmd_upload`. -/
def cmdBinHost (data : List UInt8) (addr : UInt32) : Host Bool := do
  let size := UInt32.ofNat data.length
  let resp ← sendCommand cmdUbin
  if resp ≠ some shellOk then return false
  else
    sendU32 addr
    sendU32 size
    sendU32 (checksum data)
    let resp ← recvU32
    if resp ≠ some shellOk then return false
    else sendPayload data size.toNat size.toNat 0 [] >>= binFinish

/-! ## Requests -/

/-- A call of the tool; `upload` is one with `--no-boot`. -/
inductive Request where
  | ping
  | peek (addr : UInt32)
  | poke (addr val : UInt32)
  | bin (data : List UInt8) (addr : UInt32)
  | upload (file : List UInt8)
  | dump (addr size : UInt32)

/-- What the tool reports. -/
inductive Reply where
  | failed
  | ok
  | value (val : UInt32)
  | data (data : List UInt8)
  deriving DecidableEq, Repr

def Reply.ofBool (success : Bool) : Reply := if success then .ok else .failed

/-- The command of a request. -/
def Request.command : Request → Host Reply
  | .ping => do return .ofBool (← cmdPingHost)
  | .peek addr => do
      match ← cmdPeekHost addr with
      | none => return .failed
      | some val => return .value val
  | .poke addr val => do return .ofBool (← cmdPokeHost addr val)
  | .bin data addr => do return .ofBool (← cmdBinHost data addr)
  | .upload file => do
      match ← cmdUpload (some file) with
      | .error _ => return .failed
      | .ok _ => return .ok
  | .dump addr size => do
      match (← cmdDumpHost addr size).1 with
      | .checksumMatch data => return .data data
      | _ => return .failed

/-- One start of the tool. -/
def Request.run (turns : Nat) (r : Request) : Host Reply := do
  if ← awaitBeacon turns [] then r.command else return .failed

/-- The tool is started for one request after another. -/
def session (turns : Nat) : List Request → Host (List Reply)
  | [] => return []
  | r :: requests => do
      let reply ← r.run turns
      let replies ← session turns requests
      return reply :: replies

section Serve

variable (m : MemoryMap)

/-- The memory after bytes were put at an address. -/
def MemoryMap.put (addr : UInt32) (data : List UInt8) (ram : Cells UInt32) : Cells UInt32 :=
  (copy m.target addr data ram).getD ram

/-- The memory as the user sees it. -/
def Request.serve (ram : Cells UInt32) : Request → Cells UInt32 × Reply
  | .ping => (ram, .ok)
  | .peek addr => (ram, .value (get32 (ByteMemory.load (m.mem ram) addr 4) 0))
  | .poke addr val => (m.put addr (bytes32 val) ram, .ok)
  | .bin data addr => (m.put addr data ram, .ok)
  | .upload file => (m.put (PsExe.ofFile file).tAddr (PsExe.ofFile file).payload ram, .ok)
  | .dump addr size => (ram, .data (ByteMemory.load (m.mem ram) addr size.toNat))

/-- The requests served one after another. -/
def serveAll (ram : Cells UInt32) : List Request → Cells UInt32 × List Reply
  | [] => (ram, [])
  | r :: requests =>
    let (ram', reply) := r.serve m ram
    let (ram'', replies) := serveAll ram' requests
    (ram'', reply :: replies)

/-- The requests that mean something to both sides: a length fits into a word, a file is one that
the tool accepts, a word is aligned, and the addresses are those of RAM, for writing without the
part that kloader is in. -/
def Request.Fits : Request → Prop
  | .ping => True
  | .peek addr => addr.toNat % 4 = 0 ∧ Writable m.cell addr 4
  | .poke addr _ => addr.toNat % 4 = 0 ∧ Writable m.target addr 4
  | .bin data addr => data.length < 2 ^ 32 ∧ Writable m.target addr data.length
  | .upload file =>
    IsPsExe file ∧ Writable m.target (PsExe.ofFile file).tAddr (PsExe.ofFile file).tSize.toNat
  | .dump addr size => Writable m.cell addr size.toNat

end Serve

/-- A copy that has a result puts the bytes there. -/
theorem MemoryMap.put_eq {m : MemoryMap} {addr : UInt32} {data : List UInt8}
    {ram ram' : Cells UInt32} (h : copy m.target addr data ram = some ram') :
    ram' = m.put addr data ram := by
  rw [MemoryMap.put, h]
  rfl

theorem exists_copy {m : MemoryMap} {addr : UInt32} (data : List UInt8)
    (h : Writable m.target addr data.length) (ram : Cells UInt32) :
    ∃ ram', copy m.target addr data ram = some ram' :=
  Option.isSome_iff_exists.mp ((copy_isSome_iff _ _ _ _).mpr h)

/-! ## One command after another -/

section Commands

variable {α γ : Type} {F : Pair Read Unit UInt8 α γ → Prop} {ld : Loader} {s : Shell}

/-- The beacon arrives in any pieces. -/
theorem ends_awaitBeacon {f : Bool → Host α} {next : List UInt8 → Line γ} {turns : Nat}
    {buf rest : List UInt8} (hbeacon : buf ++ rest = beaconBytes) (hrest : rest ≠ [])
    (hturns : rest.length ≤ turns)
    (h : Ends SplitsData (fun _ => False) F ⟨f true, .recv () 1 next, [], []⟩) :
    Ends SplitsData (fun _ => False) F
      ⟨awaitBeacon turns buf >>= f, .recv () 1 next, [], rest⟩ := by
  induction turns generalizing buf rest with
  | zero => exact absurd (List.length_eq_zero_iff.mp (Nat.le_zero.mp hturns)) hrest
  | succ turns ih =>
    have hlen : buf.length + rest.length = 4 := by
      rw [← List.length_append, hbeacon, length_beaconBytes]
    refine .pieces_left Nat.one_pos ?_ ?_
    · obtain ⟨b, rest, rfl⟩ := List.exists_cons_of_ne_nil hrest
      exact ⟨[b], List.prefix_append [b] rest,
        .inr ⟨rfl, List.cons_ne_nil _ _, show 1 ≤ inputBuffer by decide⟩⟩
    · rintro bs ⟨⟨rest', rfl⟩, hbs⟩
      rw [List.length_append] at hlen hturns
      rw [← List.append_assoc] at hbeacon
      show Ends _ _ F ⟨(match findBytes beaconBytes (buf ++ bs) with
        | some _ => .done true
        | none => awaitBeacon turns (trimBuffer (buf ++ bs))) >>= f, _, [], _⟩
      rw [List.drop_left]
      by_cases hdone : rest' = []
      · rw [hdone, List.append_nil] at hbeacon
        rw [hbeacon, show findBytes beaconBytes beaconBytes = some 0 by decide, hdone]
        exact h
      · have hpos := List.length_pos_iff.mpr hdone
        have hbs : 0 < bs.length := by
          rcases hbs with hbs | ⟨-, hbs, -⟩
          · have : inputBuffer = 4096 := rfl
            omega
          · exact List.length_pos_iff.mpr hbs
        have hnone : findBytes beaconBytes (buf ++ bs) = none := by
          rw [findBytes_eq_none_iff]
          intro hin
          have := hin.length_le
          rw [length_beaconBytes, List.length_append] at this
          omega
        have htrim : trimBuffer (buf ++ bs) = buf ++ bs := by
          rw [trimBuffer, if_neg]
          rw [List.length_append]
          omega
        rw [hnone, htrim]
        exact ih hbeacon hdone (by omega)

/-- A turn of the console, and a start of the tool: first the beacon. -/
theorem ends_turn {r : Request} {turns : Nat} (hturns : 4 ≤ turns) {f : Reply → Host α}
    {g : Turn → Line γ}
    (h : Ends SplitsData (fun _ => False) F ⟨r.command >>= f, shellCommand ld s >>= g, [], []⟩) :
    Ends SplitsData (fun _ => False) F ⟨r.run turns >>= f, shellTurn ld s >>= g, [], []⟩ := by
  rw [shellTurn, Request.run, Proc.bind_assoc, Proc.bind_assoc]
  refine .sendAll_right ?_
  have hbeacon : [] ++ beaconBytes = beaconBytes := rfl
  exact ends_awaitBeacon hbeacon (ByteMemory.bytes32_ne_nil _) hturns h

theorem splitsData_word : ¬ SplitsData .word := Read.noConfusion

theorem shellDispatch_ping (ld : Loader) (s : Shell) : shellDispatch ld s cmdPing =
    serialSendU32 shellPong >>= fun _ => .done (.again { s with lastCmdText := "PING" }) := by
  rw [shellDispatch, if_pos rfl]
  rfl

theorem shellDispatch_ubin (ld : Loader) (s : Shell) :
    shellDispatch ld s cmdUbin = cmdUploadBin s := by
  rw [shellDispatch]
  iterate 2 rw [if_neg (by decide)]
  rw [if_pos rfl]

theorem shellDispatch_peek (ld : Loader) (s : Shell) :
    shellDispatch ld s cmdPeekTag = cmdPeek s >>= fun s => .done (.again s) := by
  rw [shellDispatch]
  iterate 6 rw [if_neg (by decide)]
  rw [if_pos rfl]
  rfl

theorem shellDispatch_poke (ld : Loader) (s : Shell) :
    shellDispatch ld s cmdPokeTag = cmdPoke s := by
  rw [shellDispatch]
  iterate 7 rw [if_neg (by decide)]
  rw [if_pos rfl]

/-- **A command gets what it asks for**, and leaves nothing on the line. -/
theorem ends_request {r : Request} (hr : r.Fits s.map) {f : Reply → Host α} {g : Turn → Line γ}
    (h : ∀ s' : Shell, s'.map = s.map → s'.ram = (r.serve s.map s.ram).1 →
      Ends SplitsData (fun _ => False) F ⟨f (r.serve s.map s.ram).2, g (.again s'), [], []⟩) :
    Ends SplitsData (fun _ => False) F ⟨r.command >>= f, shellCommand ld s >>= g, [], []⟩ := by
  have hword := splitsData_word
  cases r with
  | ping =>
    simp only [Request.command, cmdPingHost, Proc.bind_assoc]
    refine ends_command ?_
    rw [shellDispatch_ping, Proc.bind_assoc]
    exact ends_answer hword (h _ rfl rfl)
  | peek addr =>
    simp only [Request.command, cmdPeekHost, Proc.bind_assoc]
    refine ends_command ?_
    rw [shellDispatch_peek, cmdPeek]
    simp only [Proc.bind_assoc]
    refine ends_answer hword ?_
    rw [if_neg (not_not.mpr rfl)]
    simp only [Proc.bind_assoc]
    refine ends_tell ?_
    simp only [Proc.bind_assoc]
    exact ends_answer hword (h _ rfl rfl)
  | poke addr val =>
    obtain ⟨ram', hcopy⟩ := exists_copy (bytes32 val) hr.2 s.ram
    simp only [Request.command, cmdPokeHost, Proc.bind_assoc]
    refine ends_command ?_
    rw [shellDispatch_poke, cmdPoke]
    simp only [Proc.bind_assoc]
    refine ends_answer hword ?_
    rw [if_neg (not_not.mpr rfl)]
    simp only [Proc.bind_assoc]
    iterate 2
      refine ends_tell ?_
      simp only [Proc.bind_assoc]
    simp only [hcopy, Proc.bind_assoc]
    exact ends_answer hword (h _ rfl (MemoryMap.put_eq hcopy))
  | bin data addr =>
    have hsize : data.length = (UInt32.ofNat data.length).toNat :=
      (UInt32.toNat_ofNat_of_lt' hr.1).symm
    obtain ⟨ram', hcopy⟩ := exists_copy data hr.2 s.ram
    simp only [Request.command, cmdBinHost, Proc.bind_assoc]
    refine ends_command ?_
    rw [shellDispatch_ubin, cmdUploadBin]
    simp only [Proc.bind_assoc]
    refine ends_answer hword ?_
    rw [if_neg (not_not.mpr rfl)]
    simp only [Proc.bind_assoc]
    iterate 3
      refine ends_tell ?_
      simp only [Proc.bind_assoc]
    refine ends_answer hword ?_
    rw [if_neg (not_not.mpr rfl), Proc.bind_assoc]
    refine ends_receiveData hword hsize.le ?_ ?_ (fun hlt => absurd hsize hlt.ne)
      fun hnone => absurd (hnone.symm.trans hcopy) (by simp)
    · intro _ _ r hr hdata
      simp only [binFinish, Proc.bind_assoc]
      exact ends_recvU32 hword [] (h _ rfl (MemoryMap.put_eq (hdata ▸ hr.copied)))
    · exact fun _ hsum => absurd (byteSum_eq_checksum data) hsum
  | upload file =>
    obtain ⟨ram', hcopy⟩ := exists_copy (PsExe.ofFile file).payload
      ((PsExe.ofFile file).length_payload ▸ hr.2) s.ram
    simp only [Request.command, cmdUpload_of_isPsExe hr.1, uploadExe, Proc.bind_assoc]
    refine ends_command ?_
    rw [shellDispatch_uexe, cmdUploadExe]
    simp only [Proc.bind_assoc]
    refine ends_answer hword ?_
    rw [if_neg (not_not.mpr rfl)]
    simp only [Proc.bind_assoc]
    iterate 4
      refine ends_tell ?_
      simp only [Proc.bind_assoc]
    refine ends_answer hword ?_
    rw [if_neg (not_not.mpr rfl), Proc.bind_assoc]
    refine ends_receiveData hword (PsExe.ofFile file).length_payload.le ?_ ?_
      (fun hlt => absurd (PsExe.ofFile file).length_payload hlt.ne)
      fun hnone => absurd (hnone.symm.trans hcopy) (by simp)
    · intro _ _ r hr hdata
      simp only [uploadFinish, Proc.bind_assoc]
      exact ends_recvU32 hword [] (h _ rfl (MemoryMap.put_eq (hdata ▸ hr.copied)))
    · exact fun _ hsum => absurd (byteSum_eq_checksum _) hsum
  | dump addr size =>
    simp only [Request.command, cmdDumpHost, Proc.bind_assoc]
    refine ends_command ?_
    rw [shellDispatch_dump, cmdDump]
    simp only [Proc.bind_assoc]
    refine ends_answer hword ?_
    rw [if_neg (not_not.mpr rfl)]
    simp only [Proc.bind_assoc]
    iterate 2
      refine ends_tell ?_
      simp only [Proc.bind_assoc]
    rw [sendData]
    simp only [Proc.bind_assoc]
    have hstart : 0 = min size.toNat (0 * shellChunk) := by rw [Nat.zero_mul, Nat.min_zero]
    have hdata : SplitsData .data := rfl
    refine ends_dumpLoop hdata ?_ hstart (Nat.zero_le _) (Nat.sub_le _ _) (Nat.sub_le _ _)
    simp only [Proc.bind_assoc]
    refine ends_answer hword ?_
    rw [if_pos (by rw [byteSum_eq_checksum])]
    exact h _ rfl rfl

/-- **A session.** -/
theorem ends_session {requests : List Request} (hfits : ∀ r ∈ requests, r.Fits s.map) {turns : Nat}
    (hturns : 4 ≤ turns) {f : List Reply → Host α} {g : Turn → Line γ}
    (h : ∀ s' : Shell, s'.map = s.map → s'.ram = (serveAll s.map s.ram requests).1 →
      Ends SplitsData (fun _ => False) F
        ⟨f (serveAll s.map s.ram requests).2, g (.again s'), [], []⟩) :
    Ends SplitsData (fun _ => False) F
      ⟨session turns requests >>= f, shellTurns ld requests.length s >>= g, [], []⟩ := by
  induction requests generalizing s f with
  | nil => exact h s rfl rfl
  | cons r requests ih =>
    simp only [session, List.length_cons, shellTurns, Proc.bind_assoc]
    refine ends_turn hturns (ends_request (hfits r List.mem_cons_self) fun s' hmap hram => ?_)
    refine ih (fun r' hr' => hmap ▸ hfits r' (List.mem_cons_of_mem r hr')) fun s'' hmap' hram' => ?_
    rw [hmap, hram] at hram' ⊢
    exact h s'' (hmap'.trans hmap) hram'

end Commands

/-- A word is poked, some bytes are put behind it through another segment, and the memory around
them is dumped. -/
def pokeAndDump : List Request :=
  [.poke 0x80090000 0x12345678, .bin [1, 2] 0xA0090004, .dump 0x8008FFFF 8, .peek 0x80290000]

-- What the user of that session sees.
example : (serveAll discMap (fun _ => 0) pokeAndDump).2 =
    [.ok, .ok, .data [0, 0x78, 0x56, 0x34, 0x12, 1, 2, 0], .value 0x12345678] := by
  decide

end Kloader
end Blackroo
