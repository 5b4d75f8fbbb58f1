import Aimv6.Mm.CopyMemImg
import Aimv6.Mm.KmallocBound
import Aimv6.Mm.PagesFit
import Aimv6.Mm.PagesOrder
import Aimv6.Mm.PrivateMemory
import Aimv6.Mm.SlabUndo
import Aimv6.Fs.FsAppendFail
import Aimv6.Fs.FsCheckpoint
import Aimv6.Fs.FsDescriptors
import Aimv6.Fs.FsExclusive
import Aimv6.Fs.FsNames
import Aimv6.Fs.FsOverrun
import Aimv6.Fs.FsRecycle
import Aimv6.Fs.FsSeek
import Aimv6.Fs.FsWriteCall
import Aimv6.Sched.Contexts
import Aimv6.Sched.ProcessTable
import Aimv6.Sched.RoundRobin
import Aimv6.Exec.ExecLoadSpec
import Aimv6.Arch.Resume
import Aimv6.Debug.DebugMatches
import Aimv6.Drivers.SignedDivision
import Aimv6.Drivers.SplitRead
import Aimv6.Drivers.Console
import Aimv6.Drivers.SdProtocol
import Aimv6.Drivers.CardIdentification
import Aimv6.Drivers.Firmware
import Aimv6.Sched.Waiting
import Aimv6.Sched.SlabHeap
import Aimv6.Libc.Memcpy
import Aimv6.Libc.SnprintfScan
import Aimv6.Boot.Bootsect
import Aimv6.Boot.MbrPlacement
import Aimv6.Tools.ReadstabScan
import Aimv6.Boot.BootChain
import Aimv6.Fs.FsOnCard
