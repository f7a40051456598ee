import Litenix.ForkSpace
import Litenix.CowIsolation
import Litenix.FileRuns
import Litenix.TcpStream
import Litenix.SchedPick
import Litenix.VfsRename
import Litenix.SignalReturn
import Litenix.Sessions
import Litenix.SocketLockRuns
import Litenix.Passwd
import Litenix.VmaView
import Litenix.SignalMask
import Litenix.FirstTouch
import Litenix.ElfValidation
import Litenix.ArgPassing
import Litenix.PageMap
import Litenix.PageRefs
import Litenix.VfsCreate
import Litenix.Krealloc
import Litenix.HeapWindow
import Litenix.DoubleFree
import Litenix.LockRelease
import Litenix.Ext2Failures
import Litenix.Ext2Mounts
import Litenix.MemFile
import Litenix.OpenNodes
import Litenix.Timeouts
import Litenix.WaitStatus
import Litenix.LostWakeups
import Litenix.RunQueue
import Litenix.Dhcp
import Litenix.FreeRegion
import Litenix.Checksum
import Litenix.Chdir
import Litenix.Format
