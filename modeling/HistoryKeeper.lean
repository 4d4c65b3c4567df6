import HistoryKeeper.Keeper.Rehearsal
import HistoryKeeper.Main
import HistoryKeeper.Store.Session
import HistoryKeeper.Store.Site
import HistoryKeeper.Proofs.Codec.RoundTrip
import HistoryKeeper.Proofs.Store.Fleet
import HistoryKeeper.Proofs.Store.LikeMemory
import HistoryKeeper.Proofs.Store.LockDiscipline
import HistoryKeeper.Proofs.Keeper.ReadYourWrites
import HistoryKeeper.Proofs.Keeper.Durable
import HistoryKeeper.Proofs.Keeper.LastPut
import HistoryKeeper.Proofs.Keeper.Outcomes
import HistoryKeeper.Proofs.Keeper.Shutdown
import HistoryKeeper.Proofs.Disk.Again
import HistoryKeeper.Proofs.Keeper.Conserved
import HistoryKeeper.Proofs.Keeper.StaleReads
import HistoryKeeper.Proofs.Store.Reload
import HistoryKeeper.Proofs.Keeper.Independent
import HistoryKeeper.Proofs.Config.MergeLaws
import HistoryKeeper.Proofs.Keeper.LockPacing
import HistoryKeeper.Proofs.Store.Tended
import HistoryKeeper.Proofs.Store.UntouchedFiles
import HistoryKeeper.Proofs.Keeper.Attended
import HistoryKeeper.Proofs.Keeper.Completed
import HistoryKeeper.Proofs.Keeper.InTurn
import HistoryKeeper.Proofs.Keeper.SoleUser
import HistoryKeeper.Proofs.Disk.Stuck
import HistoryKeeper.Proofs.Store.OneCache
import HistoryKeeper.Proofs.Disk.Frame
import HistoryKeeper.Proofs.CommandLine.Execution
import HistoryKeeper.Proofs.CommandLine.MapLaw
import HistoryKeeper.Proofs.Codec.KeyText
import HistoryKeeper.Proofs.Keeper.Batch
import HistoryKeeper.Proofs.Store.FailedFlush
import HistoryKeeper.Proofs.Keeper.SingleRun
import HistoryKeeper.Proofs.Keeper.PacedRun
import HistoryKeeper.Proofs.Keeper.IdleTime
import HistoryKeeper.Proofs.Store.Representation
import HistoryKeeper.Proofs.Time.Rendered
import HistoryKeeper.Proofs.Codec.ReadBack
