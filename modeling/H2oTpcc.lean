import H2oTpcc.SelfDelimiting
import H2oTpcc.PackedLayout
import H2oTpcc.Keyspace
import H2oTpcc.IntegerCodecs
import H2oTpcc.Rows
import H2oTpcc.OptimisticStore
import H2oTpcc.CallbackChain
import H2oTpcc.TransactionSystem
import H2oTpcc.FdbDatabase
import H2oTpcc.NewOrder
import H2oTpcc.Payment
import H2oTpcc.Tables
import H2oTpcc.NewOrderProofs
import H2oTpcc.PaymentProofs
import H2oTpcc.Serial
import H2oTpcc.RequestHistory
import H2oTpcc.RequestEffects
import H2oTpcc.Loader
import H2oTpcc.OrderIds
import H2oTpcc.OrderLines
import H2oTpcc.Ledger
import H2oTpcc.PaymentFrame
import H2oTpcc.Balance
import H2oTpcc.CommitCounts
import H2oTpcc.ExactlyOnce
import H2oTpcc.BoundedFifo
import H2oTpcc.SpscRing
import H2oTpcc.RequestMachine
import H2oTpcc.ReadTxns
import H2oTpcc.TfbHandlers
import H2oTpcc.Lifecycle
import H2oTpcc.Quiescence
import H2oTpcc.DroppedRequests
import H2oTpcc.OrderRetries
import H2oTpcc.PaymentRetries
import H2oTpcc.HistoryRows
import H2oTpcc.StockRange
import H2oTpcc.WorkerPool
import H2oTpcc.PoolShutdown
import H2oTpcc.UpdateProofs
import H2oTpcc.UpdateDraws
import H2oTpcc.CommitAnswers
import H2oTpcc.WorldTable
import H2oTpcc.FieldLayout
import H2oTpcc.NetworkOrder
import H2oTpcc.KeyOrder
import H2oTpcc.StockScan
import H2oTpcc.StockLines
import H2oTpcc.OrderDelta
import H2oTpcc.PaymentCount
import H2oTpcc.UpdateReports
import H2oTpcc.LoaderRun
import H2oTpcc.LoadComplete
import H2oTpcc.RandomRange
import H2oTpcc.OrderLineDraws
import H2oTpcc.DrawnParameters
import H2oTpcc.MemoryScan
import H2oTpcc.QueryString
import H2oTpcc.QueryNumber
import H2oTpcc.RingSize
import H2oTpcc.MultiQueries
import H2oTpcc.DelayedFifo
import H2oTpcc.ReleaseAcquire
import H2oTpcc.WeakRing
import H2oTpcc.RingOrdering
import H2oTpcc.RingHandover
import H2oTpcc.AdapterLifecycle
import H2oTpcc.LoadCrash
import H2oTpcc.AtomicCallbacks
import H2oTpcc.AtomicServer
import H2oTpcc.TableOwners
