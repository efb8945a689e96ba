import Lustre.Fid.SeqServer
import Lustre.Fld.CacheLaw
import Lustre.Fld.Index
import Lustre.Ldlm.Extent.AnyExtent
import Lustre.Ldlm.Extent.Exclusion
import Lustre.Ldlm.IntervalTree.Calls
import Lustre.Ldlm.Lru
import Lustre.Ldlm.Pool
import Lustre.Libcfs.HashIter
import Lustre.Libcfs.NidNames
import Lustre.Llog.CatalogScan
import Lustre.Llog.FailedAppend
import Lustre.Lnet.Runs
import Lustre.Lov.Qos
import Lustre.Lov.Unpack
import Lustre.Mdt.Transno
import Lustre.Obdfilter.GrantLedger
import Lustre.Osc.Grant
import Lustre.Osc.Preallocation
import Lustre.Ptlrpc.MsgPack
import Lustre.Ptlrpc.ReplayOrder
import Lustre.Ptlrpc.ReplyState
import Lustre.Ptlrpc.SeqWindow
import Lustre.Ptlrpc.ServedOnce
import Lustre.Quota.Master
import Lustre.Target.ReplayQueue
