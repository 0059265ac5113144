import KernelBoot.Laws.Process.Inherit
import KernelBoot.Laws.Process.Lifetime
import KernelBoot.Laws.Mm.ActiveRoots
import KernelBoot.Laws.Mm.Clone
import KernelBoot.Laws.Ipc.WakeUp
import KernelBoot.Laws.Ipc.Pipe
import KernelBoot.Laws.Fs.VfsPath
import KernelBoot.Laws.Process.References
import KernelBoot.Laws.Process.Locking
import KernelBoot.Laws.Sched.Scheduler
import KernelBoot.Laws.Btrfs.Lzo
import KernelBoot.Laws.Btrfs.Zstd
import KernelBoot.Laws.Btrfs.Zlib
import KernelBoot.Laws.Ext4.File
import KernelBoot.Laws.Btrfs.File
import KernelBoot.Laws.Network.ReassemblySplit
import KernelBoot.Laws.Network.TcpRetransmit
import KernelBoot.Laws.Network.TcpShift
import KernelBoot.Laws.Network.TcpStream
import KernelBoot.Laws.Network.TcpAccept
import KernelBoot.Laws.Process.UserStack
import KernelBoot.Laws.Process.ImagePages
import KernelBoot.Laws.Btrfs.Lookup
import KernelBoot.Laws.Exfat.Geometry
import KernelBoot.Laws.Shell.Sequence
