import UnDOS.Adt.Sequences
import UnDOS.Crt.HeapSound
import UnDOS.Crt.Streams
import UnDOS.Disk.InStep
import UnDOS.Disk.Partitions
import UnDOS.Dispatch.Delivered
import UnDOS.Event.Replies
import UnDOS.Fat.DataArea
import UnDOS.Fat.Entries
import UnDOS.Fat.Lookup
import UnDOS.Font.Sessions
import UnDOS.Font.Utf8
import UnDOS.Gfx.Coherence
import UnDOS.Gfx.Generations
import UnDOS.Heap.Sound
import UnDOS.Hive.Coherence
import UnDOS.Hive.PathSeparation
import UnDOS.Hive.Switching
import UnDOS.Input.HidKeyboard
import UnDOS.Input.Survival
import UnDOS.Loader.Meaning
import UnDOS.Loader.Normalized
import UnDOS.Memory.BitmapBounds
import UnDOS.Memory.KernelHalf
import UnDOS.Memory.Teardown
import UnDOS.Process.Inherit
import UnDOS.Resource.Manager
import UnDOS.Sched.Accounting
import UnDOS.Sched.Handshake
import UnDOS.Sched.Priority
import UnDOS.Startup.FontArguments
import UnDOS.Tty.Lines
import UnDOS.Tty.Pump
import UnDOS.Tty.Waiting
import UnDOS.User.Clicks
import UnDOS.User.DeskSound
import UnDOS.User.Fitted
import UnDOS.User.MessageRing
import UnDOS.User.Visible
import UnDOS.UserLoader.Linking
import UnDOS.Vfs.Accounting
