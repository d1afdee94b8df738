import Dce.Ubik.Election.SyncSite
import Dce.Ubik.QuorumIntersection
import Dce.Ubik.CrashRecovery
import Dce.Ubik.TransactionIds
import Dce.Ubik.Remote.Isolation
import Dce.Tkm.Masks
import Dce.Tkm.Race
import Dce.Dts.Estimate
import Dce.Dts.CompareInterval
import Dce.Rpc.UuidCreate
import Dce.Sec.Delegation
import Dce.Dacl.Pac
import Dce.Cds.Convergence
import Dce.Rpc.TowerRoundTrip
import Dce.Rpc.CthreadCalls
import Dce.Cds.BtreePoints
import Dce.Epi.LogParsed
import Dce.Cds.Uid
import Dce.Sec.AclConv
import Dce.Cds.NamesEdit
import Dce.Cds.WildcardMatch
import Dce.Dacl.MinimumPermSet
import Dce.Dacl.ChangeRealm
import Dce.Rpc.TowerLowerFloors
import Dce.Rpc.ConvBounds
import Dce.Rpc.SctReruns
import Dce.Rpc.XmitqCongestion
import Dce.Rpc.SelackAgree
import Dce.Bak.LockExclusion
import Dce.Bak.TextRoundTrip
import Dce.Rpc.UuidString
import Dce.Epi.TranBookkeeping
import Dce.Rpc.StringBindingExact
import Dce.Ubik.Relabel
import Dce.Ubik.RemoteLocks
import Dce.Ubik.FailedCommit
import Dce.Bak.StructureRuns
import Dce.Tkset.SerialMode
import Dce.Ubik.CacheTransparent
import Dce.Ubik.BulkPropagation
import Dce.Epi.BitmapSearch
import Dce.Epi.FreeSpaceCount
import Dce.Rpc.RecvqDelivery
import Dce.Tkm.RightsHeld
import Dce.Tkm.Recheck
import Dce.Dts.WordArithmetic
import Dce.Tkm.HyperScalar
import Dce.Dts.LeapSecond
import Dce.Dts.LocalTime
import Dce.Ubik.TransactionLocks
import Dce.Ubik.WriteStart
