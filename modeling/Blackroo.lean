import Blackroo.Lib.LittleEndian
import Blackroo.Lib.ByteMemory
import Blackroo.Lib.Words
import Blackroo.Lib.LossyStream
import Blackroo.Lib.SerialBus
import Blackroo.Lib.Runs
import Blackroo.Lib.Process
import Blackroo.Lib.CString
import Blackroo.Lib.Interaction
import Blackroo.Lib.Loops
import Blackroo.Lib.MappedMemory
import Blackroo.Lib.StreamSearch
import Blackroo.Lib.Ring
import Blackroo.Lib.MixedRadix
import Blackroo.Exec.FixedBinary
import Blackroo.Exec.Confinement
import Blackroo.Exec.StartStack
import Blackroo.Exec.FlatReloc
import Blackroo.Cdrom.Calls
import Blackroo.Cdrom.DiscAddress
import Blackroo.Cdrom.Timing
import Blackroo.Cdrom.Iso9660
import Blackroo.Cdrom.Lookup
import Blackroo.Cdrom.IsoFind
import Blackroo.Cdrom.Requests
import Blackroo.Cdrom.Registers
import Blackroo.Cdrom.Termination
import Blackroo.Cdrom.Controller
import Blackroo.Irq.Controller
import Blackroo.Irq.Safety
import Blackroo.Irq.Calls
import Blackroo.MemoryCard.Basic
import Blackroo.MemoryCard.Sweep
import Blackroo.MemoryCard.JoinedMapping
import Blackroo.MemoryCard.PortOrder
import Blackroo.MemoryCard.Transfer
import Blackroo.MemoryCard.HandlerTable
import Blackroo.MemoryCard.Polled
import Blackroo.MemoryCard.RoundTrip
import Blackroo.MemoryCard.Preparation
import Blackroo.MemoryCard.Request
import Blackroo.MemoryCard.Service
import Blackroo.MemoryCard.Arbitration
import Blackroo.MemoryCard.Liveness
import Blackroo.MemoryCard.Watched
import Blackroo.MemoryCard.TimeoutRace
import Blackroo.MemoryCard.ProbeWait
import Blackroo.MemoryCard.Monitor
import Blackroo.MemoryCard.Preemption
import Blackroo.MemoryCard.BusPlaces
import Blackroo.MemoryCard.TableSafety
import Blackroo.Brmon.Arguments
import Blackroo.Kloader.Shell
import Blackroo.Kloader.Boot
import Blackroo.Kloader.Host
import Blackroo.Kloader.Upload
import Blackroo.Kloader.Cmdline
import Blackroo.Kloader.Paced
import Blackroo.Kloader.Dump
import Blackroo.Kloader.Beacon
import Blackroo.Kloader.CdBoot
import Blackroo.Kloader.Pioflash
import Blackroo.Kloader.NorFlash
import Blackroo.Kloader.Settings
import Blackroo.Lib.Bitmap
import Blackroo.Lib.Ext2
import Blackroo.Lib.PageMap
import Blackroo.Lib.Dyadic
import Blackroo.Brsh.Mkfs
import Blackroo.Brsh.Consistency
import Blackroo.Brsh.Refusal
import Blackroo.Brsh.Editor
import Blackroo.Brsh.EditorLines
import Blackroo.Brsh.Shell
import Blackroo.Brsh.Files
import Blackroo.Brsh.Copy
import Blackroo.Brsh.WorkingDirectory
import Blackroo.Brsh.EditorSave
import Blackroo.Prom.Memory
import Blackroo.Kloader.Hwinfo
import Blackroo.Tools.Elf2psexe
import Blackroo.Initrd.Setup
import Blackroo.Initrd.Placement
import Blackroo.Keyboard.Psxkbd
import Blackroo.Keyboard.Framing
import Blackroo.Keyboard.Discovery
import Blackroo.Console.Psxcon
import Blackroo.Console.Screen
import Blackroo.Console.Clear
import Blackroo.Console.VideoMode
import Blackroo.Kloader.Session
import Blackroo.Kloader.FlashBackup
import Blackroo.Mm.PageAlloc
import Blackroo.Mm.PageRuns
