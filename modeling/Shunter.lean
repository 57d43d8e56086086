import Shunter.Store.BTreeRun
import Shunter.Store.RecoveryAtomic
import Shunter.Commitlog.IndexAdvisory
import Shunter.Commitlog.CompactionSafe
import Shunter.Commitlog.DurableState
import Shunter.Executor.Drain
import Shunter.Protocol.Frames
import Shunter.Subscription.FanOutDelivery
import Shunter.Protocol.SessionsOwnedRun
import Shunter.Subscription.SumOrder
import Shunter.Protocol.OneOffMultiJoin
import Shunter.Client.TableSubscription
import Shunter.Client.BsatnAgree
import Shunter.Subscription.ValueEquality
