import Bourse.Main
import Bourse.Program.Concurrent
import Bourse.Proofs.CacheAside
import Bourse.Proofs.Change.LagParts
import Bourse.Proofs.Change.PivotRows
import Bourse.Proofs.Desk.Chronology
import Bourse.Proofs.Desk.Failures
import Bourse.Proofs.Desk.Keys
import Bourse.Proofs.Desk.Lines
import Bourse.Proofs.Desk.Locks
import Bourse.Proofs.Desk.MarketBreadth
import Bourse.Proofs.Desk.Rankings
import Bourse.Proofs.Desk.ReportPeriods
import Bourse.Proofs.Desk.SampledSessions
import Bourse.Proofs.Desk.Series
import Bourse.Proofs.Desk.TopMovers
import Bourse.Proofs.Desk.Unadmitted
import Bourse.Proofs.Gateway.Ledger
import Bourse.Proofs.Service.Clock
import Bourse.Proofs.SingleFlight
import Bourse.Proofs.Statement.Shape
import Bourse.Proofs.Web.Labels
import Bourse.Proofs.Web.Refusals
