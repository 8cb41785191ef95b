import Bourse.Backend
import Bourse.Database.Address
import Bourse.Desk.Sessions
import Bourse.Service.Config

/-!
# Starting the service

The market's day under a clock offset, and the desk and the backend that a configuration asks for
(`Config.setUp?`). Which databases can be opened and written is taken as given there, and without
one there is no start; without a cache server that answers, entries are kept in the process.
-/

namespace Bourse.Service

/-- The offset of the market's clock in seconds. The product is a signed 32-bit word, and an offset
of a day or more stands for none. -/
def offsetSeconds (hours : Int) : Int :=
  let seconds := Period.word (hours * 3600)
  if -86400 < seconds ∧ seconds < 86400 then seconds else 0

/-- The market's day at an instant, given in seconds since the start of 1970. -/
def today (hours instant : Int) : Date :=
  (Date.ofSerial? (719162 + (instant + offsetSeconds hours) / 86400)).getD .first

namespace Config

def gateway (c : Config) : Gateway where
  strategy := if c.singleFlight then .singleFlight else .aside
  defaultTtl := some c.cacheTtl
  timeout := c.cacheTimeout

def desk (c : Config) (instant : Int) : Desk where
  gateway := c.gateway
  today := today c.utcOffsetHours instant
  sessionTtl := c.sessionTtl

/-- The desk and a backend without rows, over at least one connection; none when the database does
not open. -/
def setUp? (opens : String → Bool) (c : Config) (instant : Int) : Option (Desk × Backend) :=
  if opens c.databaseUrl && c.maxConnections ≠ 0 then
    some (c.desk instant, .fresh (.tables .empty))
  else none

end Config

/-- Set up over the database engine of the process, which opens what its addresses say. -/
def start? (c : Config) (instant : Int) : Option (Desk × Backend) :=
  c.setUp? (fun address => (Database.Address.read? address).any (·.isWritable)) instant

end Bourse.Service
