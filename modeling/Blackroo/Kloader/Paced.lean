import Blackroo.Kloader.Cmdline
import Blackroo.Kloader.Upload

/-!
# The paced upload

`paced-upload.py` is a second host for the shell, written to send slowly: each chunk goes
out in small bursts with a pause after each.  Whatever the size of the bursts, the line
carries the same bytes (`sendBursts_eq`), so the loop of the script is the loop of the
other host (`pacedLoop_eq`), and what was proved about that one applies.

The script differs from the other host in two places.  It does not pad the payload of a
file that is shorter than its header says, so the console waits for bytes that never come.
And after BOOT it goes over to printing what it receives, while the console waits for the
length of a command line.  `pacedRight_iff` says what is left.

Both failures are ends of runs in which nobody makes a mistake in the protocol, so they cannot be
found by looking for a wrong byte.  `ends_of_short` and `ends_of_boot` follow every interleaving to
the point at which both sides wait, or the console has given up waiting, and say where they are.
-/

namespace Blackroo
namespace Kloader

open LittleEndian MappedMemory Process

/-! ## The script -/

/-- The loop `for i in range(0, n, burst)` over a chunk, with some turns to go. -/
def sendBursts (burst : Nat) (chunk : List UInt8) : (turns i : Nat) → Host Unit
  | 0, _ => return ()
  | turns + 1, i => do
      sendAll ((chunk.drop i).take burst)
      sendBursts burst chunk turns (i + burst)

/-- The loop over the chunks.  The result is not returned by the source: the values of
`sent` after each MORE. -/
def pacedLoop (burst : Nat) (payload : List UInt8) (tSize : Nat) :
    (turns sent : Nat) → List Nat → Host (Except UploadError (List Nat))
  | 0, _, boundaries => return .ok boundaries
  | turns + 1, sent, boundaries =>
    if sent < tSize then do
      let n := min chunkSize (tSize - sent)
      let chunk := (payload.drop sent).take n
      sendBursts burst chunk ((n + burst - 1) / burst) 0
      let r ← recvU32
      if r ≠ some shellMore then return .error (.chunkFailed sent r)
      else pacedLoop burst payload tSize turns (sent + n) (boundaries ++ [sent + n])
    else return .ok boundaries

/-- The end of `main` prints what the console sends, for 90 seconds; how many reads that
takes is open. -/
def printConsole : Nat → Host Unit
  | 0 => return ()
  | reads + 1 => .recv .data 4096 fun _ => printConsole reads

/-- `main` after the loop. -/
def pacedFinish (noBoot : Bool) (reads : Nat) :
    Except UploadError (List Nat) → Host (Except UploadError (List Nat))
  | .error e => return .error e
  | .ok boundaries => do
      let r ← recvU32
      if r ≠ some shellDone then return .error (.unexpected r)
      else if noBoot then return .ok boundaries
      else
        sendU32 cmdBootTag
        printConsole reads
        return .ok boundaries

/-- `payload = data[2048:2048 + t_size]`. -/
def pacedPayload (data : List UInt8) : List UInt8 :=
  (data.drop 2048).take (get32 data 0x1C).toNat

/-- `main` once the beacon was seen, on a file that is long enough for the fields of the
header. -/
def pacedMain (burst : Nat) (noBoot : Bool) (reads : Nat) (data : List UInt8) :
    Host (Except UploadError (List Nat)) :=
  if data.take 8 ≠ psexeMagic then return .error .badMagic
  else do
    let tSize := get32 data 0x1C
    let r ← sendCommand cmdUexe
    if r ≠ some shellOk then return .error (.rejected r)
    else
      sendU32 (get32 data 0x10)
      sendU32 (get32 data 0x18)
      sendU32 tSize
      sendU32 (checksum (pacedPayload data))
      let r ← recvU32
      if r ≠ some shellOk then return .error (.headerRejected r)
      else pacedLoop burst (pacedPayload data) tSize.toNat tSize.toNat 0 [] >>=
        pacedFinish noBoot reads

/-! ## The bursts -/

theorem sendBursts_take (burst : Nat) (chunk : List UInt8) (turns i : Nat) :
    sendBursts burst chunk turns i = sendAll ((chunk.drop i).take (turns * burst)) := by
  induction turns generalizing i with
  | zero =>
    rw [Nat.zero_mul, List.take_zero]
    rfl
  | succ turns ih =>
    rw [sendBursts, ih, Nat.succ_mul, Nat.add_comm (turns * burst), List.take_add, List.drop_drop,
      sendAll_append]

/-- **The bursts are the chunk.** -/
theorem sendBursts_eq {burst n : Nat} (hburst : 0 < burst) {chunk : List UInt8}
    (hchunk : chunk.length ≤ n) :
    sendBursts burst chunk ((n + burst - 1) / burst) 0 = sendAll chunk := by
  have hcover : n ≤ (n + burst - 1) / burst * burst := by
    have hdiv := Nat.div_add_mod (n + burst - 1) burst
    have hmod := Nat.mod_lt (n + burst - 1) hburst
    rw [Nat.mul_comm] at hdiv
    omega
  rw [sendBursts_take, List.drop_zero, List.take_of_length_le (hchunk.trans hcover)]

/-- The loop of the script is the loop of the other host. -/
theorem pacedLoop_eq {burst : Nat} (hburst : 0 < burst) (payload : List UInt8)
    (tSize turns sent : Nat)
    (boundaries : List Nat) :
    pacedLoop burst payload tSize turns sent boundaries =
      sendPayload payload tSize turns sent boundaries := by
  induction turns generalizing sent boundaries with
  | zero => rfl
  | succ turns ih =>
    have hchunk : ((payload.drop sent).take (min chunkSize (tSize - sent))).length ≤
        min chunkSize (tSize - sent) := List.length_take_le _ _
    rw [pacedLoop, sendPayload, min_comm (tSize - sent)]
    simp only [sendBursts_eq hburst hchunk, ih]

/-! ## The payload -/

theorem length_pacedPayload (file : List UInt8) :
    (pacedPayload file).length = min (get32 file 0x1C).toNat (file.length - 2048) := by
  rw [pacedPayload, List.length_take, List.length_drop]

/-- The bytes of the payload of a file that is long enough. -/
theorem pacedPayload_eq {file : List UInt8}
    (h : (pacedPayload file).length = (get32 file 0x1C).toNat) :
    pacedPayload file = (List.range (get32 file 0x1C).toNat).map (payloadByte file) := by
  have hpad : (PsExe.ofFile file).payload = pacedPayload file := by
    show padTo (get32 file 0x1C).toNat (pacedPayload file) = _
    rw [padTo, h, Nat.sub_self, List.replicate_zero, List.append_nil]
  rw [← hpad]
  exact payload_ofFile file

/-! ## The exchange -/

section Exchange

variable {short : Read → Prop} {short' : Unit → Prop}
  {F : Pair Read Unit UInt8 (Except UploadError (List Nat)) Turn → Prop} {burst : Nat}
  {noBoot : Bool} {reads : Nat} {file : List UInt8} {ld : Loader} {turns : Nat} {s : Shell}

/-- **The upload of the script**: a whole payload arrives if the console is not lost, and a short
one leaves both sides waiting. -/
theorem ends_pacedMain (hword : ¬ short .word) (hburst : 0 < burst)
    (hfile : file.take 8 = psexeMagic)
    (hwhole : (pacedPayload file).length = (get32 file 0x1C).toNat →
      ∀ s' : Shell, s'.hasUpload = true → s'.map = s.map →
        copy s.map.target (get32 file 0x18) (pacedPayload file) s.ram = some s'.ram →
        Ends short short' F
          ⟨pacedFinish noBoot reads (.ok s'.boundaries), shellTurns ld turns s', [],
            bytes32 shellDone⟩)
    (hshort : (pacedPayload file).length < (get32 file 0x1C).toNat →
      ∀ (next : List UInt8 → Host (Except UploadError (List Nat))) (next' : List UInt8 → Line Turn)
        (s' : Shell), (Proc.recv () 1 next').idle = .again s' →
          F ⟨.recv .word 4 next, .recv () 1 next', [], []⟩)
    (hlost : copy s.map.target (get32 file 0x18) (pacedPayload file) s.ram = none →
      ∀ (next : List UInt8 → Host (Except UploadError (List Nat))) (s' : Shell) (rest : List UInt8),
        F ⟨.recv .word 4 next, .done (.left .lost s'), rest, []⟩) :
    Ends short short' F
      ⟨pacedMain burst noBoot reads file, shellCommand ld s >>= Turn.resume (shellTurns ld turns),
        [], []⟩ := by
  have hle : (pacedPayload file).length ≤ (get32 file 0x1C).toNat := List.length_take_le _ _
  rw [pacedMain, if_neg (not_not.mpr hfile)]
  refine ends_header hword ?_
  rw [pacedLoop_eq hburst]
  refine ends_receiveData hword hle ?_ ?_ ?_ ?_
  · intro heq _ r hr hdata
    exact hwhole heq { s.withHeader (get32 file 0x10) (get32 file 0x18) (get32 file 0x1C) with
      ram := r.ram
      boundaries := r.boundaries
      hasUpload := true
      statusText := "Listening"
      lastCmdText := "UEXE OK" } rfl rfl (hdata ▸ hr.copied)
  · exact fun _ hsum => absurd (byteSum_eq_checksum _) hsum
  · intro hlt next next' r hidle
    have hfail : ∀ s₀, (uploadExeFail s₀ >>= fun t =>
      Turn.resume (shellTurns ld turns) t.listen).idle =
        .again { s₀ with statusText := "Listening", lastCmdText := "UEXE FAIL" } :=
      fun s₀ => idle_shellTurns ld turns _
    exact hshort hlt next next' _ (hidle.trans (hfail _))
  · exact fun hnone next r rest =>
      .stop (stopped_waiting_left (by decide)) (hlost hnone next _ rest)

/-- The script prints what comes, in any pieces, while the console waits. -/
theorem ends_printConsole (hdata : short .data) {a : Except UploadError (List Nat)}
    {next' : List UInt8 → Line Turn} (hF : ∀ l tl, F ⟨l, .recv () 1 next', [], tl⟩)
    (reads : Nat) (tl : List UInt8) :
    Ends short short' F
      ⟨printConsole reads >>= fun _ => .done a, .recv () 1 next', [], tl⟩ := by
  induction reads generalizing tl with
  | zero => exact .stop (stopped_waiting Nat.one_pos) (hF _ _)
  | succ reads ih =>
    cases tl with
    | nil => exact .stop (stopped_both_waiting (by decide) Nat.one_pos) (hF _ _)
    | cons b tl =>
      refine .pieces_left Nat.one_pos ?_ fun bs _ => ih _
      exact ⟨[b], List.prefix_append [b] tl, .inr ⟨hdata, List.cons_ne_nil _ _, by simp⟩⟩

end Exchange

/-! ## What the script achieves -/

/-- The end that is wanted: without a boot the script is done, has counted the same chunks
as the console, and the console is back in its loop with the payload in memory; with a boot
the kernel is launched. -/
def PacedGoal (noBoot : Bool) (file : List UInt8)
    (p : Pair Read Unit UInt8 (Except UploadError (List Nat)) Turn) : Prop :=
  if noBoot then
    ∃ s', p.right.idle = .again s' ∧ p.left = .done (.ok s'.boundaries) ∧ Loaded file s'
  else
    ∃ entry ramSizeKb cmdline s',
      p.right.idle = .left (.launched entry ramSizeKb cmdline) s' ∧ Loaded file s'

/-- Every run of the script and the shell, which waits for a command and goes on for some
turns of its loop after it, comes to that end. -/
def PacedRight (burst : Nat) (noBoot : Bool) (reads : Nat) (file : List UInt8) (ld : Loader)
    (turns : Nat) (s : Shell) : Prop :=
  Ends SplitsData (fun _ => False) (PacedGoal noBoot file)
    ⟨pacedMain burst noBoot reads file,
      shellCommand ld s >>= Turn.resume (shellTurns ld (turns + 1)), [], []⟩

section Right

variable {burst : Nat} {file : List UInt8} (hburst : 0 < burst) (hfile : file.take 8 = psexeMagic)
  (reads : Nat) (ld : Loader) (turns : Nat) (s : Shell)
include hburst hfile

/-- Without a boot, a whole payload that has a place is uploaded. -/
theorem pacedRight_of_noBoot (hwhole : (get32 file 0x1C).toNat ≤ file.length - 2048)
    (hplace : HasPlace file s) : PacedRight burst true reads file ld turns s := by
  have hlen : (pacedPayload file).length = (get32 file 0x1C).toNat := by
    rw [length_pacedPayload]
    omega
  refine ends_pacedMain Read.noConfusion hburst hfile ?_ (fun hlt => absurd hlen hlt.ne) ?_
  · intro heq s' _ hmap hcopy
    refine ends_recvU32 Read.noConfusion [] ?_
    rw [if_neg (not_not.mpr rfl), if_pos rfl]
    rw [shellTurns, shellTurn, Proc.bind_assoc]
    refine .sendAll_right ?_
    refine .stop (stopped_waiting Nat.one_pos)
      ⟨s', ?_, rfl, hplace.loaded (pacedPayload_eq heq) hmap hcopy⟩
    exact idle_shellTurns ld (turns + 1) s'
  · intro hnone
    rw [← Option.not_isSome_iff_eq_none, copy_isSome_iff, hlen] at hnone
    exact absurd hplace.writable hnone

/-- How a run may end that does not boot: the console is back in its loop, or lost. -/
def Unbooted (s : Shell) (p : Pair Read Unit UInt8 (Except UploadError (List Nat)) Turn) : Prop :=
  (∃ s', p.right.idle = .again s' ∧ s'.map = s.map) ∨ ∃ s', p.right.idle = .left .lost s'

/-- A short payload leaves the script waiting for an answer, and the console launches
nothing. -/
theorem ends_of_short (noBoot : Bool) (hshort : file.length - 2048 < (get32 file 0x1C).toNat) :
    Ends SplitsData (fun _ => False)
      (fun p => (∀ a, p.left ≠ .done a) ∧ ∀ e s', p.right.idle = .left e s' → e = .lost)
      ⟨pacedMain burst noBoot reads file,
        shellCommand ld s >>= Turn.resume (shellTurns ld (turns + 1)), [], []⟩ := by
  refine ends_pacedMain Read.noConfusion hburst hfile ?_ ?_ ?_
  · intro heq
    rw [length_pacedPayload] at heq
    omega
  · intro _ next next' s' hidle
    exact ⟨fun a h => (by cases h), fun e s'' h => by cases hidle.symm.trans h⟩
  · intro _ next s' rest
    exact ⟨fun a h => (by cases h), fun e s'' h => by cases h; rfl⟩

/-- With a boot, the console is left waiting for the length of the command line, and goes
back to its loop. -/
theorem ends_of_boot (noBoot : Bool) (hwhole : (get32 file 0x1C).toNat ≤ file.length - 2048) :
    Ends SplitsData (fun _ => False) (Unbooted s)
      ⟨pacedMain burst noBoot reads file,
        shellCommand ld s >>= Turn.resume (shellTurns ld (turns + 1)), [], []⟩ := by
  refine ends_pacedMain Read.noConfusion hburst hfile ?_ ?_ fun _ next s' rest => .inr ⟨s', rfl⟩
  · intro _ s' hupload hmap _
    refine ends_recvU32 Read.noConfusion [] ?_
    rw [if_neg (not_not.mpr rfl), shellTurns, shellTurn, Proc.bind_assoc]
    cases noBoot with
    | true =>
      refine .sendAll_right (.stop (stopped_waiting Nat.one_pos) (.inl ⟨s', ?_, hmap⟩))
      exact idle_shellTurns ld (turns + 1) s'
    | false =>
      rw [if_neg Bool.false_ne_true]
      refine .sendAll_left (.sendAll_right ?_)
      rw [List.nil_append, ← List.append_nil (bytes32 cmdBootTag)]
      refine ends_shellCommand ?_
      rw [shellDispatch_boot,
        cmdBoot_of_upload ld (s := { s' with statusText := "Processing..." }) hupload]
      simp only [Proc.bind_assoc]
      refine .sendAll_right ?_
      have hdata : SplitsData .data := rfl
      refine ends_printConsole hdata
        (fun _ _ => .inl ⟨{ s' with statusText := "Listening" }, ?_, hmap⟩) reads _
      exact idle_shellTurns ld turns _
  · intro hlt
    rw [length_pacedPayload] at hlt
    omega

end Right

/-- **What the script achieves**: the upload of a file that is as long as its header says and has a
place in memory, and no boot. -/
theorem pacedRight_iff {burst : Nat} (hburst : 0 < burst) {file : List UInt8}
    (hfile : 0x20 ≤ file.length ∧ file.take 8 = psexeMagic) (noBoot : Bool) (reads : Nat)
    (ld : Loader) (turns : Nat) (s : Shell) :
    PacedRight burst noBoot reads file ld turns s ↔
      noBoot = true ∧ (get32 file 0x1C).toNat ≤ file.length - 2048 ∧ HasPlace file s := by
  constructor
  · intro h
    have hwhole : (get32 file 0x1C).toNat ≤ file.length - 2048 := by
      by_contra hshort
      obtain ⟨p, hgoal, hleft, hright⟩ :=
        h.both (ends_of_short hburst hfile.2 reads ld turns s noBoot (Nat.lt_of_not_le hshort))
      unfold PacedGoal at hgoal
      split at hgoal
      · obtain ⟨s'', -, hdone, -⟩ := hgoal
        exact hleft _ hdone
      · obtain ⟨entry, ramSizeKb, cmdline, s'', hlaunched, -⟩ := hgoal
        cases hright _ _ hlaunched
    obtain ⟨p, hgoal, hend⟩ := h.both (ends_of_boot hburst hfile.2 reads ld turns s noBoot hwhole)
    cases noBoot with
    | true =>
      obtain ⟨s', hidle, -, hloaded⟩ := hgoal
      rcases hend with ⟨s'', hidle', hmap⟩ | ⟨s'', hidle'⟩
      · obtain rfl := Turn.again.inj (hidle.symm.trans hidle')
        rw [Loaded, hmap] at hloaded
        exact ⟨rfl, hwhole, hloaded.writable, hloaded.coherent⟩
      · cases hidle.symm.trans hidle'
    | false =>
      obtain ⟨entry, ramSizeKb, cmdline, s', hlaunched, -⟩ := hgoal
      rcases hend with ⟨s'', hidle, -⟩ | ⟨s'', hidle⟩
      · cases hlaunched.symm.trans hidle
      · cases hlaunched.symm.trans hidle
  · rintro ⟨rfl, hwhole, hplace⟩
    exact pacedRight_of_noBoot hburst hfile.2 reads ld turns s hwhole hplace

/-- A file with a payload of one byte. -/
def wholeFile : List UInt8 :=
  psexeMagic ++ List.replicate 8 0 ++ bytes32 0x80090000 ++ List.replicate 4 0 ++
    bytes32 0x80090000 ++ bytes32 1 ++ List.replicate 2016 0 ++ [7]

theorem pacedRight_iff_wholeFile : PacedRight 8 true 0 wholeFile ⟨2048, []⟩ 0 freshShell :=
  (pacedRight_iff (by decide) (by decide +kernel) true 0 ⟨2048, []⟩ 0 _).mpr
    ⟨rfl, by decide +kernel, by decide +kernel, by decide +kernel⟩

/-- **BOOT does not boot**, however long the script reads and the shell goes on. -/
theorem not_pacedRight_wholeFile :
    ¬ PacedRight 8 false 1000 wholeFile ⟨2048, []⟩ 3 freshShell := by
  intro h
  obtain ⟨p, ⟨entry, ramSizeKb, cmdline, s', hlaunched, -⟩, ⟨s'', hidle, -⟩ | ⟨s'', hidle⟩⟩ :=
    h.both (ends_of_boot (by decide) (by decide +kernel) 1000 ⟨2048, []⟩ 3 _ false
      (by decide +kernel))
  · cases hlaunched.symm.trans hidle
  · cases hlaunched.symm.trans hidle

end Kloader
end Blackroo
