import Mathlib.Logic.Function.Basic
import Blackroo.Lib.CString
import Blackroo.Lib.LittleEndian
import Blackroo.Kloader.Cmdline

/-!
# The settings on the memory card

`settings.c` keeps 128 bytes of settings in block 1 of a memory card.  `settings_load` takes the
block as it is, once its magic number and its version are right; `settings_menu` shows the settings
and changes them; `settings_build_cmdline` makes a kernel command line of them.

The settings are modelled as the bytes of the packed `blackroo_settings_t`, with what the memory
holds behind it.  The command line is 64 bytes from byte 20 on, and the index of the display mode is
the byte behind it.

Most of what depends on a byte of the card is guarded: the `switch`es have their `default`, the RAM
size is tested and the index of the display mode is wrapped.  Two things are not:

* four names are looked up by bytes of the card, in tables of four, four, three and three entries;
* a stored command line is copied up to its terminator, which nothing puts behind 64 characters.

`settings_harmless_iff` says that these two are all there is: the loaded settings are harmless
exactly if the block is refused, or its four bytes are in range and the command line ends.  The keys
of the menu do not matter, since they only ever bring a byte into range.

The fixed texts of the screen and the auto-boot line are left out.
-/

namespace Blackroo
namespace Kloader

open CString
open CommandLine (ascii)

/-! ## The record -/

/-- The bytes of a `blackroo_settings_t`, and the memory behind it. -/
abbrev Settings : Type := Chars

namespace Settings

def magic (s : Settings) : UInt32 := LittleEndian.word32 (s 0) (s 1) (s 2) (s 3)

def version (s : Settings) : UInt32 := LittleEndian.word32 (s 4) (s 5) (s 6) (s 7)

def bootSource (s : Settings) : UInt8 := s 8

def rootDevice (s : Settings) : UInt8 := s 9

def initProgram (s : Settings) : UInt8 := s 10

def consoleMode (s : Settings) : UInt8 := s 11

def ramSize (s : Settings) : UInt8 := s 12

/-- Where `cmdline` starts. -/
def cmdlineAt : Nat := 20

/-- The size of `cmdline`. -/
def cmdlineSize : Nat := 64

def videoIndex (s : Settings) : UInt8 := s 84

end Settings

/-- `SETTINGS_MAGIC`. -/
def settingsMagic : UInt32 := 0x424C4B53

/-- `SETTINGS_VERSION`. -/
def settingsVersion : UInt32 := 1

/-- `settings_default`. -/
def settingsDefault (s : Settings) : Settings := fun i =>
  if i < 128 then
    (LittleEndian.bytes32 settingsMagic ++ LittleEndian.bytes32 settingsVersion ++
      [0, 2, 0, 0, 0, 0, 0, 0, 0, 5]).getD i 0
  else s i

/-- `settings_load`, with the block that `memcard_read_block` has read, if it has. -/
def settingsLoad (s : Settings) : Option Chars → Settings
  | none => settingsDefault s
  | some block =>
    if Settings.magic block ≠ settingsMagic ∨ Settings.version block ≠ settingsVersion then
      settingsDefault s
    else fun i => if i < 128 then block i else s i

/-! ## The command line -/

/-- What `snprintf` leaves in a buffer. -/
def snprintf (buf text : List UInt8) : List UInt8 :=
  let shown := text.take (buf.length - 1)
  shown ++ 0 :: buf.drop (shown.length + 1)

/-- The fields of `video_mode_t` that the command line shows. -/
structure VideoMode where
  width : Nat
  height : Nat
  pal : Bool
  deriving DecidableEq, Repr

/-- `video_modes`. -/
def videoModes : List VideoMode :=
  [⟨256, 240, false⟩, ⟨256, 256, true⟩, ⟨320, 240, false⟩, ⟨320, 256, true⟩, ⟨512, 240, false⟩,
    ⟨512, 256, true⟩, ⟨640, 240, false⟩, ⟨640, 256, true⟩]

/-- `VIDEO_MODE_COUNT`. -/
def videoModeCount : Int := 8

/-- `video_wrap_index`. -/
def videoWrapIndex (index : Int) : Int :=
  if index < 0 then videoWrapIndex (index + videoModeCount) else index % videoModeCount
termination_by (-index).toNat
decreasing_by
  rw [videoModeCount]
  omega

/-- `video_cmdline_arg`.  There is no result if the table is left. -/
def videoCmdlineArg (index : Int) : Option (List UInt8) :=
  videoModes[(videoWrapIndex index).toNat]?.map fun m =>
    (ascii ("psxvideo=" ++ toString m.width ++ "x" ++ toString m.height ++ "@" ++
      if m.pal then "50" else "60")).take 31

def rootArg (s : Settings) : String :=
  match s.rootDevice.toNat with
  | 0 => "root=/dev/bu0"
  | 1 => "root=/dev/bul"
  | 2 => "root=/dev/ram0"
  | 3 => "root=/dev/psxcd"
  | _ => "root=/dev/bu0"

def initArg (s : Settings) : String :=
  match s.initProgram.toNat with
  | 0 => "init=/bin/sh"
  | 1 => "init=/linuxrc"
  | 2 => "init=/sbin/init"
  | _ => "init=/bin/sh"

def consoleArg (s : Settings) : String :=
  match s.consoleMode.toNat with
  | 0 => "console=ttyS0,115200 console=tty0"
  | 1 => "console=tty0"
  | 2 => "console=ttyS0,115200"
  | _ => "console=ttyS0,115200 console=tty0"

/-- `settings_build_cmdline`: what it leaves in a buffer of at least one byte. -/
def settingsBuildCmdline (s : Settings) (buf : List UInt8) : Option (List UInt8) :=
  if s Settings.cmdlineAt ≠ 0 then
    some (strncpy (text s (buf.length - 1) Settings.cmdlineAt) (buf.length - 1) ++ [0])
  else
    let line := ascii (rootArg s ++ " " ++ initArg s ++ " " ++ consoleArg s)
    if s.videoIndex ≠ 0 then
      (videoCmdlineArg (s.videoIndex.toNat - 1)).map fun arg =>
        snprintf buf (line ++ ascii " " ++ arg)
    else some (snprintf buf line)

/-! ## The menu -/

/-- `boot_src_names`. -/
def bootSrcNames : List String :=
  ["Serial (115200)", "Serial (518400)", "Memory Card", "CD-ROM"]

/-- `root_dev_names`. -/
def rootDevNames : List String :=
  ["/dev/bu0 (single)", "/dev/bul (RAID)", "/dev/ram0 (ramdisk)", "/dev/psxcd (this disc)"]

/-- `init_names`. -/
def initNames : List String := ["/bin/sh", "/linuxrc", "/sbin/init"]

/-- `console_names`. -/
def consoleNames : List String := ["GPU + Serial", "GPU only", "Serial only"]

/-- `ram_names`. -/
def ramNames : List String := ["Auto", "2 MB", "4 MB", "8 MB"]

/-- What is looked up for a screen of the menu. -/
structure Screen where
  bootSource : String
  rootDevice : String
  init : String
  console : String
  ram : String
  cmdline : List UInt8
  deriving DecidableEq, Repr

/-- The upper half of the loop of `settings_menu`, with `cmd` as the stack has it.  There is no
result if a table is left. -/
def drawMenu (s : Settings) (cmd : List UInt8) : Option Screen := do
  let bootSource ← bootSrcNames[s.bootSource.toNat]?
  let rootDevice ← rootDevNames[s.rootDevice.toNat]?
  let init ← initNames[s.initProgram.toNat]?
  let console ← consoleNames[s.consoleMode.toNat]?
  let ram ← ramNames[if s.ramSize > 3 then 0 else s.ramSize.toNat]?
  let cmdline ← settingsBuildCmdline s cmd
  return { bootSource, rootDevice, init, console, ram, cmdline }

/-- The keys of `read_pad_once` that the menu looks at.  `confirm` is any of start, select, cross
and circle. -/
structure Pressed where
  up : Bool
  down : Bool
  right : Bool
  left : Bool
  confirm : Bool
  deriving DecidableEq, Repr

/-- The step of a byte by `step` places around a table of `count`. -/
def turnByte (place count step : Nat) (s : Settings) : Settings :=
  Function.update s place (UInt8.ofNat (((s place).toNat + step) % count))

/-- `!auto_boot`. -/
def toggleAutoBoot (s : Settings) : Settings := Function.update s 16 (if s 16 = 0 then 1 else 0)

/-- The `switch` of the right key. -/
def turnRight : Nat → Settings → Settings
  | 0 => turnByte 8 4 1
  | 1 => turnByte 9 4 1
  | 2 => turnByte 10 3 1
  | 3 => turnByte 11 3 1
  | 4 => turnByte 12 4 1
  | 5 => toggleAutoBoot
  | _ => id

/-- The `switch` of the left key. -/
def turnLeft : Nat → Settings → Settings
  | 0 => turnByte 8 4 3
  | 1 => turnByte 9 4 (4 - 1)
  | 2 => turnByte 10 3 2
  | 3 => turnByte 11 3 2
  | 4 => turnByte 12 4 3
  | 5 => toggleAutoBoot
  | _ => id

/-- The variables of `settings_menu`. -/
structure Menu where
  settings : Settings
  selected : Nat
  changed : Bool

/-- The line that is selected after the up and the down key. -/
def Pressed.move (pressed : Pressed) (selected : Nat) : Nat :=
  let selected := if pressed.up ∧ selected > 0 then selected - 1 else selected
  if pressed.down ∧ selected < 8 - 1 then selected + 1 else selected

/-- The settings after the right and the left key. -/
def Pressed.change (pressed : Pressed) (selected : Nat) (s : Settings) : Settings :=
  let s := if pressed.right then turnRight selected s else s
  if pressed.left then turnLeft selected s else s

/-- What the menu meets in one turn: the old bytes of `cmd`, the keys, and whether a save works. -/
structure MenuTurn where
  cmd : List UInt8
  pressed : Pressed
  saved : Bool

/-- The lower half of the loop, and whether the menu returns. -/
def Menu.step (m : Menu) (turn : MenuTurn) : Menu × Bool :=
  let selected := turn.pressed.move m.selected
  let s := turn.pressed.change selected m.settings
  let changed := m.changed || turn.pressed.right || turn.pressed.left
  if turn.pressed.confirm then
    if selected = 6 then (⟨s, selected, changed && !turn.saved⟩, false)
    else (⟨s, selected, changed⟩, selected = 7)
  else (⟨s, selected, changed⟩, false)

/-- The loop of `settings_menu`: the menu as it is after some turns or when it returns, or nothing
if a table was left. -/
def settingsMenu (m : Menu) : List MenuTurn → Option Menu
  | [] => some m
  | turn :: turns =>
    (drawMenu m.settings turn.cmd).bind fun _ =>
      match m.step turn with
      | (m, true) => some m
      | (m, false) => settingsMenu m turns

/-! ## The table of display modes -/

theorem videoWrapIndex_eq (index : Int) : videoWrapIndex index = index % videoModeCount := by
  induction index using videoWrapIndex.induct with
  | case1 index hneg ih => rw [videoWrapIndex, if_pos hneg, ih, Int.add_emod_right]
  | case2 index hnonneg => rw [videoWrapIndex, if_neg hnonneg]

/-- Every index is wrapped into the table. -/
theorem videoCmdlineArg_isSome (index : Int) : (videoCmdlineArg index).isSome := by
  have hlt : (videoWrapIndex index).toNat < videoModes.length := by
    rw [videoWrapIndex_eq]
    have := Int.emod_lt_of_pos index (show 0 < videoModeCount by decide)
    have := Int.emod_nonneg index (show videoModeCount ≠ 0 by decide)
    have hlen : (videoModes.length : Int) = videoModeCount := by decide
    omega
  rw [videoCmdlineArg, List.getElem?_eq_getElem hlt]
  rfl

/-! ## The names in the tables -/

/-- The bytes that are used for a lookup as they are, with the sizes of their tables. -/
def ranges : List (Nat × Nat) := [(8, 4), (9, 4), (10, 3), (11, 3)]

/-- The bytes are within their tables. -/
def InRange (s : Settings) : Prop := ∀ r ∈ ranges, (s r.1).toNat < r.2

instance (s : Settings) : Decidable (InRange s) := inferInstanceAs (Decidable (∀ r ∈ ranges, _))

theorem inRange_iff (s : Settings) :
    InRange s ↔ s.bootSource.toNat < 4 ∧ s.rootDevice.toNat < 4 ∧ s.initProgram.toNat < 3 ∧
      s.consoleMode.toNat < 3 := by
  simp [InRange, ranges, Settings.bootSource, Settings.rootDevice, Settings.initProgram,
    Settings.consoleMode]

theorem settingsBuildCmdline_isSome (s : Settings) (buf : List UInt8) :
    (settingsBuildCmdline s buf).isSome := by
  rw [settingsBuildCmdline]
  split
  · rfl
  dsimp only
  split
  · rw [Option.isSome_map]
    exact videoCmdlineArg_isSome _
  · rfl

/-- **A screen is drawn exactly if the four bytes are in range.** -/
theorem drawMenu_isSome_iff (s : Settings) (cmd : List UInt8) :
    (drawMenu s cmd).isSome ↔ InRange s := by
  obtain ⟨cmdline, hcmdline⟩ := Option.isSome_iff_exists.mp (settingsBuildCmdline_isSome s cmd)
  have hram : ∃ ram, ramNames[if s.ramSize > 3 then 0 else s.ramSize.toNat]? = some ram := by
    refine ⟨_, List.getElem?_eq_getElem ?_⟩
    split
    · decide
    · next hle =>
      rw [gt_iff_lt, UInt8.not_lt, UInt8.le_iff_toNat_le] at hle
      exact Nat.lt_succ_of_le hle
  obtain ⟨ram, hram⟩ := hram
  rw [inRange_iff, drawMenu, hcmdline, hram]
  simp only [Option.isSome_iff_exists, Option.bind_eq_bind, Option.bind_eq_some_iff,
    Option.bind_some, List.getElem?_eq_some_iff]
  constructor
  · rintro ⟨screen, boot, ⟨hboot, -⟩, root, ⟨hroot, -⟩, init, ⟨hinit, -⟩, console, ⟨hconsole, -⟩, -⟩
    exact ⟨hboot, hroot, hinit, hconsole⟩
  · rintro ⟨hboot, hroot, hinit, hconsole⟩
    exact ⟨_, _, ⟨hboot, rfl⟩, _, ⟨hroot, rfl⟩, _, ⟨hinit, rfl⟩, _, ⟨hconsole, rfl⟩, rfl⟩

/-! ## The keys -/

theorem InRange.turnByte {s : Settings} (h : InRange s) {place count : Nat} (step : Nat)
    (hfit : ∀ r ∈ ranges, r.1 = place → r.2 = count) (hpos : 0 < count) (hcount : count ≤ 256) :
    InRange (turnByte place count step s) := by
  intro r hr
  rw [Kloader.turnByte]
  by_cases hplace : r.1 = place
  · have hmod := Nat.mod_lt ((s place).toNat + step) hpos
    rw [hplace, Function.update_self, UInt8.toNat_ofNat', hfit r hr hplace]
    omega
  · rw [Function.update_of_ne hplace]
    exact h r hr

theorem InRange.toggleAutoBoot {s : Settings} (h : InRange s) : InRange (toggleAutoBoot s) := by
  intro r hr
  have hother : r.1 ≠ 16 := by
    revert r
    decide
  rw [Kloader.toggleAutoBoot, Function.update_of_ne hother]
  exact h r hr

theorem InRange.turnRight {s : Settings} (h : InRange s) (selected : Nat) :
    InRange (turnRight selected s) := by
  match selected with
  | 0 => exact h.turnByte 1 (by decide) (by decide) (by decide)
  | 1 => exact h.turnByte 1 (by decide) (by decide) (by decide)
  | 2 => exact h.turnByte 1 (by decide) (by decide) (by decide)
  | 3 => exact h.turnByte 1 (by decide) (by decide) (by decide)
  | 4 => exact h.turnByte 1 (by decide) (by decide) (by decide)
  | 5 => exact h.toggleAutoBoot
  | _ + 6 => exact h

theorem InRange.turnLeft {s : Settings} (h : InRange s) (selected : Nat) :
    InRange (turnLeft selected s) := by
  match selected with
  | 0 => exact h.turnByte 3 (by decide) (by decide) (by decide)
  | 1 => exact h.turnByte 3 (by decide) (by decide) (by decide)
  | 2 => exact h.turnByte 2 (by decide) (by decide) (by decide)
  | 3 => exact h.turnByte 2 (by decide) (by decide) (by decide)
  | 4 => exact h.turnByte 3 (by decide) (by decide) (by decide)
  | 5 => exact h.toggleAutoBoot
  | _ + 6 => exact h

theorem InRange.change {s : Settings} (h : InRange s) (pressed : Pressed) (selected : Nat) :
    InRange (pressed.change selected s) := by
  rw [Pressed.change]
  cases pressed.right <;> cases pressed.left
  · exact h
  · exact h.turnLeft selected
  · exact h.turnRight selected
  · exact (h.turnRight selected).turnLeft selected

/-- The keys leave the command line and what is behind it. -/
theorem change_of_le (s : Settings) (pressed : Pressed) (selected : Nat) {i : Nat}
    (hi : Settings.cmdlineAt ≤ i) : pressed.change selected s i = s i := by
  rw [Settings.cmdlineAt] at hi
  have hright : ∀ s : Settings, turnRight selected s i = s i := by
    intro s
    match selected with
    | 0 | 1 | 2 | 3 | 4 | 5 => exact Function.update_of_ne (by omega) _ _
    | _ + 6 => rfl
  have hleft : ∀ s : Settings, turnLeft selected s i = s i := by
    intro s
    match selected with
    | 0 | 1 | 2 | 3 | 4 | 5 => exact Function.update_of_ne (by omega) _ _
    | _ + 6 => rfl
  rw [Pressed.change]
  cases pressed.right <;> cases pressed.left
  · rfl
  · exact hleft s
  · exact hright s
  · exact (hleft _).trans (hright s)

theorem step_settings (m : Menu) (turn : MenuTurn) :
    (m.step turn).1.settings =
      turn.pressed.change (turn.pressed.move m.selected) m.settings := by
  simp only [Menu.step]
  split
  · split <;> rfl
  · rfl

/-- **In range once, in range for good**: no sequence of keys takes the menu out of its tables. -/
theorem settingsMenu_of_inRange {m : Menu} (h : InRange m.settings) (turns : List MenuTurn) :
    ∃ m', settingsMenu m turns = some m' ∧
      ∀ i, Settings.cmdlineAt ≤ i → m'.settings i = m.settings i := by
  induction turns generalizing m with
  | nil => exact ⟨m, rfl, fun _ _ => rfl⟩
  | cons turn turns ih =>
    obtain ⟨screen, hscreen⟩ :=
      Option.isSome_iff_exists.mp ((drawMenu_isSome_iff m.settings turn.cmd).mpr h)
    have hstep := step_settings m turn
    rw [settingsMenu, hscreen, Option.bind_some]
    rcases hresult : m.step turn with ⟨next, back⟩
    rw [hresult] at hstep
    replace hstep : next.settings = _ := hstep
    have hkept : ∀ i, Settings.cmdlineAt ≤ i → next.settings i = m.settings i := by
      intro i hi
      rw [hstep]
      exact change_of_le _ _ _ hi
    cases back with
    | true => exact ⟨next, rfl, hkept⟩
    | false =>
      have hnext : InRange next.settings := by
        rw [hstep]
        exact h.change _ _
      obtain ⟨m', hm', hkept'⟩ := ih hnext
      exact ⟨m', hm', fun i hi => (hkept' i hi).trans (hkept i hi)⟩

/-! ## The buffer -/

theorem length_snprintf {buf : List UInt8} (hbuf : 0 < buf.length) (line : List UInt8) :
    (snprintf buf line).length = buf.length := by
  simp only [snprintf, List.length_append, List.length_cons, List.length_drop, List.length_take]
  omega

/-- The buffer has its size and its terminator. -/
theorem settingsBuildCmdline_terminated {s : Settings} {buf out : List UInt8}
    (hbuf : 0 < buf.length) (h : settingsBuildCmdline s buf = some out) :
    out.length = buf.length ∧ 0 ∈ out := by
  have hsnprintf : ∀ line, (snprintf buf line).length = buf.length ∧ 0 ∈ snprintf buf line :=
    fun line => ⟨length_snprintf hbuf line, by simp [snprintf]⟩
  rw [settingsBuildCmdline] at h
  split at h
  · cases h
    rw [List.length_append, length_strncpy, List.length_singleton]
    exact ⟨Nat.sub_add_cancel hbuf, by simp⟩
  dsimp only at h
  split at h
  · obtain ⟨arg, -, rfl⟩ := Option.map_eq_some_iff.mp h
    exact hsnprintf _
  · cases h
    exact hsnprintf _

/-- The string in the buffer is the stored one, as far as the buffer goes. -/
theorem settingsBuildCmdline_custom {s : Settings} (hs : s Settings.cmdlineAt ≠ 0)
    (buf : List UInt8) :
    ∃ out, settingsBuildCmdline s buf = some out ∧
      out.takeWhile (· ≠ 0) = text s (buf.length - 1) Settings.cmdlineAt := by
  refine ⟨_, if_pos hs, ?_⟩
  rw [strncpy_of_le (fun c hc => ne_zero_of_mem_text hc) (length_text_le _ _ _),
    List.append_assoc, List.takeWhile_append_of_pos]
  · rw [← List.replicate_succ', List.replicate_succ, List.takeWhile_cons_of_neg (by decide),
      List.append_nil]
  · intro c hc
    exact decide_eq_true (ne_zero_of_mem_text hc)

/-! ## When the settings are harmless -/

/-- The stored command line ends: within its field, or at the byte behind it. -/
def CmdlineEnds (s : Settings) : Prop :=
  ∃ k < Settings.cmdlineSize + 1, s (Settings.cmdlineAt + k) = 0

/-- The settings take nothing out of bounds.  Whatever the keys, the menu stays in its tables; and
in any buffer of 128 bytes or more the command line is terminated and, if one is stored, consists of
the stored characters. -/
def Harmless (s : Settings) : Prop :=
  ∀ turns : List MenuTurn, ∃ m, settingsMenu ⟨s, 0, false⟩ turns = some m ∧
    ∀ buf : List UInt8, 128 ≤ buf.length →
      ∃ out, settingsBuildCmdline m.settings buf = some out ∧ out.length = buf.length ∧ 0 ∈ out ∧
        (m.settings Settings.cmdlineAt ≠ 0 →
          out.takeWhile (· ≠ 0) = text m.settings Settings.cmdlineSize Settings.cmdlineAt)

theorem CmdlineEnds.text_eq {s : Settings} (h : CmdlineEnds s) {n : Nat}
    (hn : Settings.cmdlineSize ≤ n) :
    text s n Settings.cmdlineAt = text s Settings.cmdlineSize Settings.cmdlineAt := by
  obtain ⟨k, hk, h0⟩ := h
  exact text_eq_text_of_zero h0 (by omega) (by omega)

/-- A stored command line that does not end is longer than its field. -/
theorem cmdlineEnds_of_text_eq {s : Settings} {n : Nat} (hn : Settings.cmdlineSize < n)
    (h : text s n Settings.cmdlineAt = text s Settings.cmdlineSize Settings.cmdlineAt) :
    CmdlineEnds s := by
  by_contra hends
  have hlong : Settings.cmdlineSize + 1 ≤ (text s n Settings.cmdlineAt).length :=
    le_length_text (fun j hj h0 => hends ⟨j, hj, h0⟩) hn
  have hshort := length_text_le s Settings.cmdlineSize Settings.cmdlineAt
  rw [← h] at hshort
  omega

theorem harmless_of_inRange {s : Settings} (hrange : InRange s) (hends : CmdlineEnds s) :
    Harmless s := by
  intro turns
  obtain ⟨m, hm, hkept⟩ := settingsMenu_of_inRange (m := ⟨s, 0, false⟩) hrange turns
  refine ⟨m, hm, fun buf hbuf => ?_⟩
  have hends' : CmdlineEnds m.settings := by
    obtain ⟨k, hk, h0⟩ := hends
    exact ⟨k, hk, (hkept _ (Nat.le_add_right _ _)).trans h0⟩
  obtain ⟨out, hout⟩ :=
    Option.isSome_iff_exists.mp (settingsBuildCmdline_isSome m.settings buf)
  obtain ⟨hlength, hterminated⟩ := settingsBuildCmdline_terminated (by omega) hout
  refine ⟨out, hout, hlength, hterminated, fun hcustom => ?_⟩
  obtain ⟨out', hout', htext⟩ := settingsBuildCmdline_custom hcustom buf
  obtain rfl : out' = out := Option.some.inj (hout'.symm.trans hout)
  rw [htext]
  exact hends'.text_eq (by rw [Settings.cmdlineSize]; omega)

theorem inRange_of_harmless {s : Settings} (h : Harmless s) : InRange s := by
  obtain ⟨m, hm, -⟩ := h [⟨[], ⟨false, false, false, false, false⟩, false⟩]
  rw [settingsMenu] at hm
  obtain ⟨screen, hscreen, -⟩ := Option.bind_eq_some_iff.mp hm
  exact (drawMenu_isSome_iff s []).mp (Option.isSome_iff_exists.mpr ⟨screen, hscreen⟩)

theorem cmdlineEnds_of_harmless {s : Settings} (h : Harmless s) : CmdlineEnds s := by
  by_cases hcustom : s Settings.cmdlineAt = 0
  · exact ⟨0, by decide, hcustom⟩
  obtain ⟨m, hm, hbuild⟩ := h []
  cases hm
  obtain ⟨out, hout, -, -, htext⟩ := hbuild (List.replicate 128 0) (by rw [List.length_replicate])
  obtain ⟨out', hout', htext'⟩ := settingsBuildCmdline_custom hcustom (List.replicate 128 0)
  obtain rfl : out' = out := Option.some.inj (hout'.symm.trans hout)
  refine cmdlineEnds_of_text_eq (n := 127) (by decide) ?_
  rw [← htext hcustom, htext', List.length_replicate]

theorem harmless_iff (s : Settings) : Harmless s ↔ InRange s ∧ CmdlineEnds s :=
  ⟨fun h => ⟨inRange_of_harmless h, cmdlineEnds_of_harmless h⟩,
    fun h => harmless_of_inRange h.1 h.2⟩

/-! ## Loading -/

/-- Only the bytes of the record matter. -/
theorem inRange_and_cmdlineEnds_congr {s t : Settings} (h : ∀ i < 128, s i = t i) :
    InRange s ∧ CmdlineEnds s ↔ InRange t ∧ CmdlineEnds t := by
  have hplace : ∀ r ∈ ranges, r.1 < 128 := by decide
  refine and_congr ?_ ?_
  · refine forall₂_congr fun r hr => ?_
    rw [h r.1 (hplace r hr)]
  · refine exists_congr fun k => and_congr_right fun hk => ?_
    rw [Settings.cmdlineSize] at hk
    rw [h _ (by rw [Settings.cmdlineAt]; omega)]

theorem harmless_settingsDefault (s : Settings) : Harmless (settingsDefault s) := by
  have hsame : ∀ i < 128, settingsDefault s i = settingsDefault (fun _ => 0) i := by
    intro i hi
    rw [settingsDefault, settingsDefault, if_pos hi, if_pos hi]
  rw [harmless_iff, inRange_and_cmdlineEnds_congr hsame]
  exact ⟨by decide, 0, by decide, rfl⟩

/-- **When the settings on the card are harmless**: exactly if the block cannot be read or is not a
settings block, or its four bytes are in range and its command line ends. -/
theorem settings_harmless_iff (s : Settings) (card : Option Chars) :
    Harmless (settingsLoad s card) ↔
      ∀ block : Chars, card = some block → Settings.magic block = settingsMagic →
        Settings.version block = settingsVersion → InRange block ∧ CmdlineEnds block := by
  cases card with
  | none => exact ⟨fun _ block h => absurd h (by simp), fun _ => harmless_settingsDefault s⟩
  | some stored =>
    by_cases hvalid : Settings.magic stored = settingsMagic ∧
        Settings.version stored = settingsVersion
    · have hload : ∀ i < 128, settingsLoad s (some stored) i = stored i := by
        intro i hi
        rw [settingsLoad, if_neg (by simp [hvalid]), if_pos hi]
      rw [harmless_iff, inRange_and_cmdlineEnds_congr hload]
      constructor
      · rintro h block hblock - -
        cases hblock
        exact h
      · exact fun h => h stored rfl hvalid.1 hvalid.2
    · have hload : settingsLoad s (some stored) = settingsDefault s := by
        rw [settingsLoad, if_pos (by rwa [← not_and_or])]
      rw [hload]
      refine ⟨fun _ block hblock hmagic hversion => ?_, fun _ => harmless_settingsDefault s⟩
      cases hblock
      exact absurd ⟨hmagic, hversion⟩ hvalid

/-- A block of settings with these bytes from byte 8 on. -/
def settingsBlock (bytes : List UInt8) : Chars := fun i =>
  (LittleEndian.bytes32 settingsMagic ++ LittleEndian.bytes32 settingsVersion ++ bytes).getD i 0

/-- A fifth boot source takes the first screen of the menu out of its table.  A command line of 64
characters with a display mode behind it comes out with a sixty-fifth. -/
theorem stored_settings_out_of_bounds :
    settingsMenu ⟨settingsLoad (fun _ => 0) (some (settingsBlock [4])), 0, false⟩
        [⟨[], ⟨false, false, false, false, false⟩, false⟩] = none ∧
      ∃ out, settingsBuildCmdline (settingsLoad (fun _ => 0) (some (settingsBlock
          (List.replicate 12 0 ++ List.replicate 64 0x41 ++ [4])))) (List.replicate 128 0) =
            some out ∧
        (out.takeWhile (· ≠ 0)).length = 65 := by
  refine ⟨rfl, ?_⟩
  obtain ⟨out, hout, htext⟩ := settingsBuildCmdline_custom
    (s := settingsLoad (fun _ => 0) (some (settingsBlock
      (List.replicate 12 0 ++ List.replicate 64 0x41 ++ [4])))) (by decide) (List.replicate 128 0)
  refine ⟨out, hout, ?_⟩
  rw [htext, List.length_replicate]
  decide +kernel

end Kloader
end Blackroo
