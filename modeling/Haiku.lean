import Haiku.Bfs.WriteAttribute
import Haiku.Cache.UnusedTheorems
import Haiku.Cache.DiscardTheorems
import Haiku.Swap.BookRuns
import Haiku.Log.ReplayTheorems
import Haiku.Log.CachedTheorems
import Haiku.Lock.WriteTheorems
import Haiku.Lock.MutexTheorems
import Haiku.TCP.WindowTheorems
import Haiku.Radix.SafetyTheorems
import Haiku.UserSpace.FreeSpaceTheorems
import Haiku.Semaphore.SafetyTheorems
import Haiku.KMessage.RoundTripTheorems
import Haiku.Xsi.WaiterTheorems
import Haiku.RecordLock.LockTheorems
import Haiku.Slab.DepotTheorems
import Haiku.ConditionVariable.RunTheorems
import Haiku.FileMapping.RunTheorems
import Haiku.Query.ParserTheorems
import Haiku.Port.SpaceTheorems
import Haiku.Port.QueueTheorems
import Haiku.Unix.FifoTheorems
import Haiku.Vfs.EntryCacheTheorems
import Haiku.Timers.RunTheorems
import Haiku.Fd.RunTheorems
import Haiku.BPlusTree.IteratorTheorems
import Haiku.Bfs.AllocateTheorems
import Haiku.Bfs.CheckInodeTheorems
import Haiku.Bfs.FindBlockRun
import Haiku.Swap.FileList
import Haiku.Swap.ResizeTheorems
import Haiku.Query.OrderTheorems
import Haiku.Log.SizeTheorems
import Haiku.TCP.RoundTrip
import Haiku.AddressSpace.BalanceTheorems
import Haiku.Ring.FifoTheorems
import Haiku.IPv4.SendTheorems
import Haiku.IORequest.Slices
import Haiku.TCP.Options
import Haiku.TCP.Ephemeral
import Haiku.NetBuffer.Checksum
import Haiku.TCP.DeliveryTheorems
import Haiku.Query.SafetyTheorems
import Haiku.Layout.SimpleLayouter
import Haiku.SplayTree.IteratorTheorems
