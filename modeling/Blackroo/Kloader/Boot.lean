import Mathlib.Data.List.ReduceOption
import Blackroo.Kloader.Shell
import Blackroo.Lib.Runs

/-!
# What BOOT jumps to

`cmd_upload_exe` stores the entry point as soon as it has the header, and sets `has_upload` when the
payload is in.  It never clears `has_upload`.  So the entry point BOOT jumps to is always the one of
the last UEXE whose header came, but once an upload has succeeded a later one that fails leaves BOOT
enabled, with the entry point of the failed one.

`boot_right_iff` says exactly when that does not happen, for every session.  The condition is about
what came over the line, and the shell has no part in it: `command` reads a UEXE or a BOOT off the
bytes of a turn, with the header and the payload or the command line, and `Spoiled` asks whether the
last of the uploads is one that failed, with a complete one before it.  A shell that forgot its
upload when the next one begins would be right after those uploads too.

A session is a list of turns of the command loop, each with what its reads returned: a byte, or
nothing within the time.
-/

namespace Blackroo
namespace Kloader

open LittleEndian Process Runs

/-! ## What came over the line -/

/-- What the reads returned: a byte each, or a timeout. -/
def heard (reads : List (List UInt8)) : List (Option UInt8) := reads.map List.head?

theorem heard_append (reads reads' : List (List UInt8)) :
    heard (reads ++ reads') = heard reads ++ heard reads' := List.map_append

/-- The first word, if its four bytes came, and what follows. -/
def withWord {γ : Type} (f : UInt32 → List (Option UInt8) → Option γ) :
    List (Option UInt8) → Option γ
  | some b0 :: some b1 :: some b2 :: some b3 :: h => f (word32 b0 b1 b2 b3) h
  | _ => none

/-- A UEXE whose header came, with the payload as far as it came. -/
structure Upload where
  entry : UInt32
  load : UInt32
  size : UInt32
  checksum : UInt32
  payload : List UInt8
  deriving DecidableEq

/-- The payload came completely, and its checksum is the one of the header. -/
def Upload.Complete (u : Upload) : Prop :=
  u.payload.length = u.size.toNat ∧ byteSum u.payload = u.checksum

instance (u : Upload) : Decidable u.Complete :=
  inferInstanceAs (Decidable (_ ∧ _))

/-- The header and the payload of a UEXE, behind its tag. -/
def uploadOf : List (Option UInt8) → Option Upload :=
  withWord fun entry => withWord fun load => withWord fun size => withWord fun checksum h =>
    some ⟨entry, load, size, checksum, h.reduceOption⟩

/-- The next bytes, if all of them came. -/
def bytesOf (n : Nat) (h : List (Option UInt8)) : Option (List UInt8) :=
  if (h.take n).reduceOption.length = n then some (h.take n).reduceOption else none

/-- The command line of a BOOT, behind its tag.  With a length of 0, or one that is too long, none
is sent and the settings are used. -/
def cmdlineOf : List (Option UInt8) → Option (List UInt8) :=
  withWord fun len h =>
    if 0 < len.toNat ∧ len.toNat < 256 then bytesOf len.toNat h else some []

/-- The commands that matter here, with what belongs to them. -/
inductive Command where
  | uexe (u : Upload)
  | boot (cmdline : List UInt8)

/-- The UEXE or BOOT of a turn. -/
def command : List (Option UInt8) → Option Command :=
  withWord fun tag h =>
    if tag = cmdUexe then (uploadOf h).map .uexe
    else if tag = cmdBootTag then (cmdlineOf h).map .boot
    else none

def Command.upload : Command → Option Upload
  | .uexe u => some u
  | .boot _ => none

/-- The uploads in some turns. -/
def uploadsIn (turns : List (List (List UInt8))) : List Upload :=
  turns.filterMap fun reads => (command (heard reads)).bind Command.upload

theorem uploadsIn_cons (reads : List (List UInt8)) (turns : List (List (List UInt8))) :
    uploadsIn (reads :: turns) =
      ((command (heard reads)).bind Command.upload).toList ++ uploadsIn turns := by
  unfold uploadsIn
  rw [List.filterMap_cons]
  cases (command (heard reads)).bind Command.upload <;> rfl

/-- A BOOT came, with its command line. -/
def Boots (reads : List (List UInt8)) : Prop :=
  ∃ cmdline, command (heard reads) = some (.boot cmdline)

/-- Some upload is complete, but the last one is not. -/
def Spoiled (uploads : List Upload) : Prop :=
  (∃ u ∈ uploads, u.Complete) ∧ ∃ u ∈ uploads.getLast?, ¬ u.Complete

/-! ## Reading -/

section Words

variable {α γ : Type} {f : Option UInt32 → Line α} {g : UInt32 → List (Option UInt8) → Option γ}
  {Q : Option γ → α → Prop}

/-- A program that reads a word does what is right for the word that came, or for none. -/
theorem ensures_word (hnone : (f none).Ensures fun _ => Q none)
    (hsome : ∀ v, (f (some v)).Ensures fun reads => Q (g v (heard reads))) :
    (serialRecvU32 >>= f).Ensures fun reads => Q (withWord g (heard reads)) := by
  rintro (_ | ⟨b0, _⟩)
  · exact hnone
  rintro (_ | ⟨b1, _⟩)
  · exact hnone
  rintro (_ | ⟨b2, _⟩)
  · exact hnone
  rintro (_ | ⟨b3, _⟩)
  · exact hnone
  · exact hsome _

/-- The same for a tag, whose first byte has been read. -/
theorem ensures_tag {b0 : UInt8} (hnone : (f none).Ensures fun _ => Q none)
    (hsome : ∀ v, (f (some v)).Ensures fun reads => Q (g v (heard reads))) :
    (readTag b0 >>= f).Ensures fun reads => Q (withWord g (some b0 :: heard reads)) := by
  rintro (_ | ⟨b1, _⟩) (_ | ⟨b2, _⟩) (_ | ⟨b3, _⟩)
  iterate 7 exact hnone
  exact hsome _

end Words

theorem bytesOf_cons (n : Nat) (b : UInt8) (h : List (Option UInt8)) :
    bytesOf (n + 1) (some b :: h) = (bytesOf n h).map (b :: ·) := by
  unfold bytesOf
  rw [List.take_succ_cons, List.reduceOption_cons_of_some, List.length_cons]
  by_cases hlen : (h.take n).reduceOption.length = n
  · rw [if_pos hlen, if_pos (congrArg (· + 1) hlen), Option.map_some]
  · rw [if_neg hlen, if_neg fun heq => hlen (Nat.succ.inj heq), Option.map_none]

theorem recvCmdline_ensures (n : Nat) :
    (recvCmdline n).Ensures fun reads r => bytesOf n (heard reads) = r := by
  induction n with
  | zero => rfl
  | succ n ih =>
    rintro (_ | ⟨b, _⟩)
    · show bytesOf (n + 1) [none] = none
      simp [bytesOf]
    refine ih.bind fun reads r hr => ?_
    have hcons : bytesOf (n + 1) (some b :: heard (reads ++ [])) = r.map (b :: ·) := by
      rw [List.append_nil, bytesOf_cons, hr]
    cases r with
    | none => exact hcons
    | some bs => exact hcons

/-- What a part of `receive_data` makes of its reads: the bytes are added to the receipt, and it is
complete exactly if `n` of them came. -/
structure Receives (n : Nat) (r : Receipt) (reads : List (List UInt8)) (p : Transfer × Receipt) :
    Prop where
  checksum : p.2.checksum = byteSum p.2.data
  data : p.1 ≠ .lost → p.2.data = r.data ++ (heard reads).reduceOption
  complete : p.1 = .complete → p.2.data.length = r.data.length + n
  failed : p.1 = .failed → p.2.data.length < r.data.length + n

section Receive

variable (t : MappedMemory.Target UInt32) (dst : UInt32)

/-- Nothing was to come. -/
theorem receives_zero {r : Receipt} (hr : r.checksum = byteSum r.data) :
    Receives 0 r [] (.complete, r) :=
  ⟨hr, fun _ => (List.append_nil _).symm, fun _ => rfl, nofun⟩

theorem receiveChunk_ensures (n : Nat) (r : Receipt) (hr : r.checksum = byteSum r.data) :
    (receiveChunk t dst n r).Ensures (Receives n r) := by
  induction n generalizing r with
  | zero => exact receives_zero hr
  | succ n ih =>
    rintro (_ | ⟨b, bs⟩)
    · exact ⟨hr, fun _ => (List.append_nil _).symm, Transfer.noConfusion,
        fun _ => Nat.lt_add_of_pos_right (Nat.succ_pos n)⟩
    simp only [List.head?_cons, Proc.bind]
    cases MappedMemory.store t (dst + UInt32.ofNat r.data.length) b r.ram with
    | none =>
      exact ⟨hr, fun h => absurd rfl h, Transfer.noConfusion, Transfer.noConfusion⟩
    | some ram =>
      have hpush : (r.push ram b).checksum = byteSum (r.push ram b).data := by
        show r.checksum + b.toUInt32 = byteSum (r.data ++ [b])
        rw [byteSum_concat, hr]
      have hlen : (r.push ram b).data.length + n = r.data.length + (n + 1) := by
        show (r.data ++ [b]).length + n = _
        rw [List.length_append, Nat.add_assoc, Nat.add_comm n 1]
        rfl
      refine (ih _ hpush).mono fun reads p hp =>
        ⟨hp.checksum, fun h => ?_, fun h => ?_, fun h => ?_⟩
      · rw [hp.data h]
        show (r.data ++ [b]) ++ _ = r.data ++ (some b :: heard reads).reduceOption
        rw [List.reduceOption_cons_of_some, List.append_assoc]
        rfl
      · rw [hp.complete h, hlen]
      · exact hlen ▸ hp.failed h

theorem receiveLoop_ensures (turns left : Nat) (r : Receipt) (hleft : left ≤ turns)
    (hr : r.checksum = byteSum r.data) :
    (receiveLoop t dst turns left r).Ensures (Receives left r) := by
  induction turns generalizing left r with
  | zero =>
    obtain rfl : left = 0 := Nat.le_zero.mp hleft
    exact receives_zero hr
  | succ turns ih =>
    unfold receiveLoop
    refine .cond (fun hzero => ?_) fun hpos => ?_
    · rw [hzero]
      exact receives_zero hr
    have hchunk : min left shellChunk ≤ left := Nat.min_le_left _ _
    have hchunk' : 0 < min left shellChunk := Nat.lt_min.mpr ⟨Nat.pos_of_ne_zero hpos, by decide⟩
    refine (receiveChunk_ensures t dst _ r hr).bind ?_
    rintro reads ⟨outcome, r'⟩ hp
    refine .cond (fun hne => ?_) fun heq => ?_
    · refine ⟨hp.checksum, fun h => ?_, fun h => absurd h hne, fun h => ?_⟩
      · rw [List.append_nil]
        exact hp.data h
      · exact (hp.failed h).trans_le (Nat.add_le_add_left hchunk _)
    obtain rfl : outcome = .complete := not_not.mp heq
    refine .sendAll ?_
    have hdata := hp.data nofun
    have hlen : r'.data.length + (left - min left shellChunk) = r.data.length + left := by
      have := hp.complete rfl
      simp only at this
      omega
    refine (ih (left - min left shellChunk)
      { r' with boundaries := r'.boundaries ++ [r'.data.length] } (by omega) hp.checksum).mono
        fun reads' p hp' => ⟨hp'.checksum, fun h => ?_, fun h => ?_, fun h => ?_⟩
    · rw [hp'.data h, heard_append, List.reduceOption_append, ← List.append_assoc]
      exact congrArg (· ++ _) hdata
    · exact (hp'.complete h).trans hlen
    · exact (hp'.failed h).trans_eq hlen

/-- **`receive_data`**: success exactly if all bytes came and their sum is the expected one. -/
theorem receiveData_ensures (ram : MappedMemory.Cells UInt32) (size expected : UInt32) :
    (receiveData t dst ram size expected).Ensures fun reads p => p.1 ≠ .lost →
      (p.1 = .complete ↔ (heard reads).reduceOption.length = size.toNat ∧
        byteSum (heard reads).reduceOption = expected) := by
  refine (receiveLoop_ensures t dst size.toNat size.toNat ⟨ram, 0, [], []⟩ le_rfl rfl).bind ?_
  rintro reads ⟨outcome, r⟩ hp
  have hdata := hp.data
  have hcomplete := hp.complete
  have hfailed := hp.failed
  have hsum := hp.checksum
  simp only [List.nil_append, List.length_nil, Nat.zero_add] at hdata hcomplete hfailed hsum
  cases outcome with
  | lost => exact fun h => absurd rfl h
  | failed =>
    refine .sendAll fun _ => iff_of_false nofun fun h => ?_
    rw [List.append_nil, ← hdata nofun] at h
    exact (hfailed rfl).ne h.1
  | complete =>
    refine .cond (fun hne => .sendAll fun _ => ?_) fun heq => .sendAll fun _ => ?_
    · refine iff_of_false nofun fun h => hne ?_
      rw [List.append_nil, ← hdata nofun] at h
      exact hsum.trans h.2
    · rw [List.append_nil, ← hdata nofun, ← hsum]
      exact iff_of_true rfl ⟨hcomplete rfl, not_not.mp heq⟩

end Receive

/-! ## Turns of the shell -/

/-- What a turn with an upload, or without, does to what BOOT looks at. -/
def Moves (s : Shell) : Option Upload → Shell → Prop
  | none, s' => s'.hasUpload = s.hasUpload ∧ s'.lastEntry = s.lastEntry
  | some u, s' => s'.lastEntry = u.entry ∧ (s'.hasUpload = true ↔ s.hasUpload = true ∨ u.Complete)

/-- The status text has no part in it. -/
theorem Moves.listen {s t : Shell} {u : Option Upload} {text text' : String}
    (h : Moves { s with statusText := text } u t) : Moves s u { t with statusText := text' } := by
  cases u with
  | none => exact h
  | some u => exact h

/-- The turn launches nothing, and moves the statics as the upload says. -/
def Uploads (s : Shell) (u : Option Upload) : Turn → Prop
  | .again s' => Moves s u s'
  | .left e _ => ∀ entry ram cmdline, e ≠ .launched entry ram cmdline

theorem cmdUploadExe_ensures (s : Shell) :
    (cmdUploadExe s).Ensures fun reads => Uploads s (uploadOf (heard reads)) := by
  have hfail : (uploadExeFail s).Ensures fun _ => Uploads s none := .sendAll ⟨rfl, rfl⟩
  refine .sendAll (ensures_word hfail fun entry => ensures_word hfail fun load =>
    ensures_word hfail fun size => ensures_word hfail fun checksum => .sendAll ?_)
  refine (receiveData_ensures s.map.target load s.ram size checksum).bind ?_
  rintro reads ⟨outcome, r⟩ hp
  cases outcome with
  | complete =>
    show Moves s (some ⟨entry, load, size, checksum, (heard (reads ++ [])).reduceOption⟩) _
    rw [List.append_nil]
    exact ⟨rfl, iff_of_true rfl (.inr ((hp nofun).mp rfl))⟩
  | failed =>
    refine .sendAll ?_
    show Moves s (some ⟨entry, load, size, checksum, (heard (reads ++ [])).reduceOption⟩) _
    rw [List.append_nil]
    exact ⟨rfl, (or_iff_left fun h => Transfer.noConfusion ((hp nofun).mpr h)).symm⟩
  | lost => exact nofun

/-! The other commands have no part in it. -/

theorem cmdUploadBin_ensures (s : Shell) : (cmdUploadBin s).Ensures fun _ => Uploads s none := by
  have hfail : (uploadBinFail s).Ensures fun _ => Uploads s none := .sendAll ⟨rfl, rfl⟩
  refine .seq fun _ _ => .seq fun _ addr => ?_
  cases addr with
  | none => exact hfail
  | some addr =>
  refine .seq fun _ size => ?_
  cases size with
  | none => exact hfail
  | some size =>
  refine .seq fun _ checksum => ?_
  cases checksum with
  | none => exact hfail
  | some checksum =>
  refine .seq fun _ _ => .seq fun _ p => ?_
  obtain ⟨outcome, r⟩ := p
  cases outcome with
  | complete => exact ⟨rfl, rfl⟩
  | failed => exact .sendAll ⟨rfl, rfl⟩
  | lost => exact nofun

theorem cmdExec_ensures (s : Shell) : (cmdExec s).Ensures fun _ => Uploads s none := by
  refine .seq fun _ _ => .seq fun _ addr => ?_
  cases addr with
  | none => exact ⟨rfl, rfl⟩
  | some addr => exact nofun

theorem cmdDump_ensures (s : Shell) : (cmdDump s).Ensures fun _ => Moves s none := by
  refine .seq fun _ _ => .seq fun _ addr => ?_
  cases addr with
  | none => exact ⟨rfl, rfl⟩
  | some addr =>
  refine .seq fun _ size => ?_
  cases size with
  | none => exact ⟨rfl, rfl⟩
  | some size => exact .seq fun _ _ => ⟨rfl, rfl⟩

theorem cmdPeek_ensures (s : Shell) : (cmdPeek s).Ensures fun _ => Moves s none := by
  refine .seq fun _ _ => .seq fun _ addr => ?_
  cases addr with
  | none => exact ⟨rfl, rfl⟩
  | some addr => exact .seq fun _ _ => ⟨rfl, rfl⟩

theorem cmdPoke_ensures (s : Shell) : (cmdPoke s).Ensures fun _ => Uploads s none := by
  refine .seq fun _ _ => .seq fun _ addr => ?_
  cases addr with
  | none => exact ⟨rfl, rfl⟩
  | some addr =>
  refine .seq fun _ val => ?_
  cases val with
  | none => exact ⟨rfl, rfl⟩
  | some val =>
    dsimp only
    split
    · exact nofun
    · exact .seq fun _ _ => ⟨rfl, rfl⟩

/-- A command that only changes texts, the rate or memory. -/
theorem ensures_again {s : Shell} {p : Line Shell} (h : p.Ensures fun _ => Moves s none) :
    (p >>= fun s' => (pure (.again s') : Line Turn)).Ensures fun _ => Uploads s none :=
  h.bind fun _ _ h => h

/-- What a turn does with the UEXE or BOOT that came: a BOOT launches the last entry point, if there
was an upload, and nothing else does. -/
structure TurnMoves (s : Shell) (c : Option Command) (t : Turn) : Prop where
  again : ∀ s', t = .again s' → Moves s (c.bind Command.upload) s'
  launch : ∀ entry ram cmdline s', t = .left (.launched entry ram cmdline) s' →
    entry = s.lastEntry ∧ s.hasUpload = true ∧ ∃ cmdline, c = some (.boot cmdline)
  boot : ∀ cmdline, c = some (.boot cmdline) → s.hasUpload = true →
    ∃ ram cmdline s', t = .left (.launched s.lastEntry ram cmdline) s'

theorem Uploads.turnMoves {s : Shell} {u : Option Upload} {t : Turn} (h : Uploads s u t) :
    TurnMoves s (u.map .uexe) t := by
  refine ⟨?_, ?_, ?_⟩
  · rintro s' rfl
    cases u with
    | none => exact h
    | some u => exact h
  · rintro entry ram cmdline s' rfl
    exact absurd rfl (h entry ram cmdline)
  · intro cmdline hc
    cases u <;> cases hc

theorem cmdBoot_ensures (l : Loader) (s : Shell) :
    (cmdBoot l s).Ensures fun reads => TurnMoves s ((cmdlineOf (heard reads)).map .boot) := by
  have hkeep (text : String) : TurnMoves s none (.again { s with lastCmdText := text }) :=
    Uploads.turnMoves (u := none) ⟨rfl, rfl⟩
  unfold cmdBoot
  refine .cond (fun hno => .sendAll ?_) fun hyes => .sendAll ?_
  · have hno : s.hasUpload = false := by simpa using hno
    refine ⟨?_, nofun, fun _ _ h => absurd h (by simp [hno])⟩
    rintro s' ⟨⟩
    cases cmdlineOf (heard []) <;> exact ⟨rfl, rfl⟩
  have hyes : s.hasUpload = true := by simpa using hyes
  have hlaunch (ram : UInt32) (cmdline cmdline' : List UInt8) :
      TurnMoves s (some (.boot cmdline')) (.left (.launched s.lastEntry ram cmdline) s) := by
    refine ⟨nofun, ?_, fun _ _ _ => ⟨ram, cmdline, s, rfl⟩⟩
    rintro _ _ _ _ ⟨⟩
    exact ⟨rfl, hyes, cmdline', rfl⟩
  refine ensures_word (Q := fun c => TurnMoves s (c.map .boot)) ?_ fun len => ?_
  · exact hkeep s.lastCmdText
  refine .cond (fun hlen => ?_) fun hlen => ?_
  · refine (recvCmdline_ensures len.toNat).bind fun reads r hr => ?_
    have hline : (if 0 < len.toNat ∧ len.toNat < 256 then bytesOf len.toNat (heard (reads ++ []))
        else some []) = r := by
      rw [if_pos hlen, List.append_nil, hr]
    cases r with
    | none =>
      show TurnMoves s (Option.map .boot (ite _ _ _)) _
      rw [hline]
      exact hkeep s.lastCmdText
    | some cmdline =>
      show TurnMoves s (Option.map .boot (ite _ _ _)) _
      rw [hline]
      exact hlaunch _ _ _
  · show TurnMoves s (Option.map .boot (ite _ _ _)) _
    rw [if_neg hlen]
    exact hlaunch _ _ _

/-- `shell_dispatch`, with what comes behind the tag. -/
theorem shellDispatch_ensures (l : Loader) (s : Shell) (cmd : UInt32) :
    (shellDispatch l s cmd).Ensures fun reads => TurnMoves s
      (if cmd = cmdUexe then (uploadOf (heard reads)).map .uexe
        else if cmd = cmdBootTag then (cmdlineOf (heard reads)).map .boot else none) := by
  by_cases hboot : cmd = cmdBootTag
  · subst hboot
    exact cmdBoot_ensures l s
  by_cases hupload : cmd = cmdUexe
  · subst hupload
    exact (cmdUploadExe_ensures s).mono fun _ _ h => h.turnMoves
  simp only [if_neg hboot, if_neg hupload]
  suffices h : (shellDispatch l s cmd).Ensures fun _ => Uploads s none from
    h.mono fun _ _ h => h.turnMoves
  refine .cond (fun _ => .seq fun _ _ => ⟨rfl, rfl⟩) fun _ => ?_
  refine .cond (fun h => absurd h hupload) fun _ => ?_
  refine .cond (fun _ => cmdUploadBin_ensures s) fun _ => ?_
  refine .cond (fun _ => cmdExec_ensures s) fun _ => ?_
  refine .cond (fun h => absurd h hboot) fun _ => ?_
  refine .cond (fun _ => ensures_again (cmdDump_ensures s)) fun _ => ?_
  refine .cond (fun _ => ensures_again (cmdPeek_ensures s)) fun _ => ?_
  refine .cond (fun _ => cmdPoke_ensures s) fun _ => ?_
  refine .cond (fun _ => ensures_again (.seq fun _ _ => ⟨rfl, rfl⟩)) fun _ => ?_
  refine .cond (fun _ => ensures_again (.seq fun _ _ => ⟨rfl, rfl⟩)) fun _ => ?_
  refine .cond (fun _ => nofun) fun _ => ?_
  exact .seq fun _ _ => ⟨rfl, rfl⟩

/-- **A turn of the loop**, whatever the line delivers. -/
theorem shellTurn_ensures (l : Loader) (s : Shell) :
    (shellTurn l s).Ensures fun reads => TurnMoves s (command (heard reads)) := by
  have hkeep (t : Shell) (hflag : t.hasUpload = s.hasUpload) (hentry : t.lastEntry = s.lastEntry) :
      TurnMoves s none (.again t) := Uploads.turnMoves (u := none) ⟨hflag, hentry⟩
  refine .sendAll ?_
  rintro (_ | ⟨b0, _⟩)
  · exact hkeep s rfl rfl
  refine ensures_tag (Q := TurnMoves s) ?_ fun cmd => ?_
  · exact hkeep _ rfl rfl
  refine (shellDispatch_ensures l { s with statusText := "Processing..." } cmd).bind
    fun reads t ht => ?_
  show TurnMoves s (ite _ _ _) t.listen
  rw [List.append_nil]
  refine ⟨fun s' hs' => ?_, fun entry ram cmdline s' hs' => ?_, fun cmdline hc hyes => ?_⟩
  · cases t with
    | again t =>
      obtain rfl := Turn.again.inj hs'
      exact (ht.again t rfl).listen
    | left e t => cases hs'
  · cases t with
    | again t => cases hs'
    | left e t => exact ht.launch entry ram cmdline s' hs'
  · obtain ⟨ram, cmdline, s', rfl⟩ := ht.boot cmdline hc hyes
    exact ⟨ram, cmdline, s', rfl⟩

/-! ## Sessions -/

/-- A turn of a session, with all that its reads returned; `none` is a turn behind which the shell
does not listen again. -/
def turnStep (l : Loader) (s : Shell) (reads : List (List UInt8)) : Option Shell :=
  match (shellTurn l s).feed reads with
  | some (.again s', []) => some s'
  | _ => none

/-- What the statics say about the uploads: BOOT is enabled exactly if some upload was complete, and
the entry point is the one of the last header. -/
structure Consistent (s : Shell) (uploads : List Upload) : Prop where
  enabled : s.hasUpload = true ↔ ∃ u ∈ uploads, u.Complete
  entry : ∀ u ∈ uploads.getLast?, s.lastEntry = u.entry

theorem consistent_start (map : MemoryMap) (ram : MappedMemory.Cells UInt32) (baud : UInt32) :
    Consistent (Shell.start map ram baud) [] :=
  ⟨iff_of_false Bool.false_ne_true fun ⟨_, hu, _⟩ => List.not_mem_nil hu, nofun⟩

theorem Consistent.moves {s s' : Shell} {uploads : List Upload} {u : Option Upload}
    (hs : Consistent s uploads) (h : Moves s u s') : Consistent s' (uploads ++ u.toList) := by
  cases u with
  | none =>
    obtain ⟨hflag, hentry⟩ := h
    refine ⟨?_, ?_⟩
    · rw [hflag, Option.toList_none, List.append_nil]
      exact hs.enabled
    · rw [hentry, Option.toList_none, List.append_nil]
      exact hs.entry
  | some u =>
    obtain ⟨hentry, hflag⟩ := h
    refine ⟨?_, ?_⟩
    · rw [hflag, hs.enabled]
      simp [or_and_right, exists_or]
    · intro v hv
      rw [Option.toList_some, List.getLast?_concat] at hv
      obtain rfl : u = v := Option.some.inj hv
      exact hentry

/-- One turn more. -/
theorem Consistent.turn {l : Loader} {s s' : Shell} {uploads : List Upload}
    {reads : List (List UInt8)} (hs : Consistent s uploads) (h : turnStep l s reads = some s') :
    Consistent s' (uploads ++ ((command (heard reads)).bind Command.upload).toList) := by
  unfold turnStep at h
  split at h
  · next t heq =>
      obtain ⟨reads', hreads, ht⟩ := (shellTurn_ensures l s).of_feed heq
      rw [List.append_nil] at hreads
      subst hreads
      obtain rfl := Option.some.inj h
      exact hs.moves (ht.again _ rfl)
  · cases h

/-- **In every session** the statics say what came. -/
theorem consistent_run {l : Loader} {s s' : Shell} {uploads : List Upload}
    {turns : List (List (List UInt8))} (hs : Consistent s uploads)
    (h : run (turnStep l) s turns = some s') : Consistent s' (uploads ++ uploadsIn turns) := by
  induction turns generalizing s uploads with
  | nil =>
    obtain rfl := Option.some.inj h
    rw [show uploadsIn [] = [] from rfl, List.append_nil]
    exact hs
  | cons reads turns ih =>
    obtain ⟨t, ht, hrest⟩ := Option.bind_eq_some_iff.mp h
    have := ih (hs.turn ht) hrest
    rw [List.append_assoc] at this
    rwa [uploadsIn_cons]

/-- BOOT was right: if the turn launches something, the entry point belongs to the last UEXE whose
header came, and that upload is complete. -/
def BootRight (uploads : List Upload) (t : Turn) : Prop :=
  ∀ entry ram cmdline s, t = .left (.launched entry ram cmdline) s →
    ∃ u ∈ uploads.getLast?, u.entry = entry ∧ u.Complete

/-- **When BOOT is right.**  In every session, whatever the line delivers, the last turn launches
nothing but the last upload, which is complete, unless a BOOT came after the uploads were spoiled.
-/
theorem boot_right_iff (l : Loader) (map : MemoryMap) (ram : MappedMemory.Cells UInt32)
    (baud : UInt32) {before : List (List (List UInt8))} {last : List (List UInt8)} {s : Shell}
    {t : Turn} (hbefore : run (turnStep l) (.start map ram baud) before = some s)
    (hlast : (shellTurn l s).feed last = some (t, [])) :
    BootRight (uploadsIn before) t ↔ ¬ (Boots last ∧ Spoiled (uploadsIn before)) := by
  have hs : Consistent s (uploadsIn before) :=
    consistent_run (consistent_start map ram baud) hbefore
  obtain ⟨reads, hreads, ht⟩ := (shellTurn_ensures l s).of_feed hlast
  rw [List.append_nil] at hreads
  subst hreads
  refine ⟨?_, ?_⟩
  · rintro hright ⟨⟨cmdline, hboot⟩, hsome, v, hv, hfailed⟩
    obtain ⟨kb, line, s', rfl⟩ := ht.boot cmdline hboot (hs.enabled.mpr hsome)
    obtain ⟨u, hu, -, hcomplete⟩ := hright _ _ _ _ rfl
    obtain rfl : u = v := Option.some.inj (hu.symm.trans hv)
    exact hfailed hcomplete
  · rintro hgood entry kb line s' rfl
    obtain ⟨rfl, hyes, hboots⟩ := ht.launch _ _ _ _ rfl
    obtain ⟨v, hv, hcomplete⟩ := hs.enabled.mp hyes
    have hu := List.getLast?_eq_some_getLast (List.ne_nil_of_mem hv)
    generalize (uploadsIn before).getLast (List.ne_nil_of_mem hv) = u at hu
    refine ⟨u, hu, (hs.entry u hu).symm, ?_⟩
    by_contra hfailed
    exact hgood ⟨hboots, ⟨v, hv, hcomplete⟩, u, hu, hfailed⟩

/-- The bytes of some words, none of which is lost. -/
def bytesIn (words : List UInt32) : List (List UInt8) :=
  (words.map bytes32).flatten.map fun b => [b]

/-- What is launched in the last turn of a session, if anything is. -/
def launchOf (l : Loader) (s : Shell) (before : List (List (List UInt8)))
    (last : List (List UInt8)) :
    Option UInt32 :=
  (run (turnStep l) s before).bind fun s => ((shellTurn l s).feed last).bind fun
    | (.left (.launched entry _ _) _, []) => some entry
    | _ => none

theorem exists_of_launchOf {l : Loader} {s : Shell} {before : List (List (List UInt8))}
    {last : List (List UInt8)} {entry : UInt32} (h : launchOf l s before last = some entry) :
    ∃ s' ram cmdline t, run (turnStep l) s before = some s' ∧
      (shellTurn l s').feed last = some (.left (.launched entry ram cmdline) t, []) := by
  obtain ⟨s', hs', h⟩ := Option.bind_eq_some_iff.mp h
  obtain ⟨p, hp, h⟩ := Option.bind_eq_some_iff.mp h
  split at h
  · obtain rfl := Option.some.inj h
    exact ⟨s', _, _, _, hs', hp⟩
  · cases h

/-- A BOOT that takes the command line from the settings. -/
def settingsBoot : List (List UInt8) := bytesIn [cmdBootTag, 0]

/-- A byte for 0x80090000 whose checksum is wrong, and the same with the right one. -/
def retriedSession : List (List (List UInt8)) :=
  [bytesIn [cmdUexe, 0x80090000, 0x80090000, 1, 5] ++ [[6]],
    bytesIn [cmdUexe, 0x80090000, 0x80090000, 1, 5] ++ [[5]]]

theorem boot_right_iff_retriedSession :
    ∃ s t ram cmdline, run (turnStep ⟨2048, []⟩) freshShell retriedSession = some s ∧
      (shellTurn ⟨2048, []⟩ s).feed settingsBoot =
        some (.left (.launched 0x80090000 ram cmdline) t, []) ∧
      (BootRight (uploadsIn retriedSession) (.left (.launched 0x80090000 ram cmdline) t) ↔
        ¬ (Boots settingsBoot ∧ Spoiled (uploadsIn retriedSession))) := by
  have hlaunch : launchOf ⟨2048, []⟩ freshShell retriedSession settingsBoot = some 0x80090000 := by
    decide +kernel
  obtain ⟨s, ram, cmdline, t, hbefore, hlast⟩ := exists_of_launchOf hlaunch
  exact ⟨s, t, ram, cmdline, hbefore, hlast, boot_right_iff _ _ _ _ hbefore hlast⟩

/-- One byte is uploaded to 0x80090000, with its checksum; then two to 0x800A0000, of which the
second does not come in time. -/
def spoiledSession : List (List (List UInt8)) :=
  [bytesIn [cmdUexe, 0x80090000, 0x80090000, 1, 5] ++ [[5]],
    bytesIn [cmdUexe, 0x800A0000, 0x800A0000, 2, 11] ++ [[5], []]]

/-- **BOOT jumps into the failed upload.** -/
theorem not_boot_right_spoiledSession :
    ∃ s t ram cmdline, run (turnStep ⟨2048, []⟩) freshShell spoiledSession = some s ∧
      (shellTurn ⟨2048, []⟩ s).feed settingsBoot =
        some (.left (.launched 0x800A0000 ram cmdline) t, []) ∧
      ¬ BootRight (uploadsIn spoiledSession) (.left (.launched 0x800A0000 ram cmdline) t) := by
  have hlaunch : launchOf ⟨2048, []⟩ freshShell spoiledSession settingsBoot = some 0x800A0000 := by
    decide +kernel
  obtain ⟨s, ram, cmdline, t, hbefore, hlast⟩ := exists_of_launchOf hlaunch
  refine ⟨s, t, ram, cmdline, hbefore, hlast, fun hright => ?_⟩
  obtain ⟨u, hu, -, hcomplete⟩ := hright _ _ _ _ rfl
  have hfailed : (uploadsIn spoiledSession).getLast? =
    some ⟨0x800A0000, 0x800A0000, 2, 11, [5]⟩ := by
    decide
  obtain rfl := Option.some.inj (hfailed.symm.trans hu)
  exact absurd hcomplete (by decide)

end Kloader
end Blackroo
