import Bourse.Text.Basic
import Bourse.Text.Case
import Bourse.Text.Integer

/-!
# Configuration

The settings of the service, from variables that hold text. A variable that is missing or blank has
its default. The first malformed one, in a fixed order, is reported with its name and its text.
-/

namespace Bourse.Service

inductive ConfigFault where
  | number (name raw : String) (cause : Text.IntegerFault)
  | flag (name text : String)
deriving DecidableEq

def ConfigFault.message : ConfigFault → String
  | .number name raw cause => "Invalid " ++ name ++ "='" ++ raw ++ "': " ++ cause.message
  | .flag name text => "Invalid " ++ name ++ "='" ++ text ++ "': expected true or false"

structure Config where
  host : String
  port : Nat
  databaseUrl : String
  maxConnections : Nat
  redisUrl : Option String
  /-- Time to live of cached answers, in seconds. -/
  cacheTtl : Nat
  /-- Time to live of resolved sessions, in seconds; none for ever. -/
  sessionTtl : Option Nat
  /-- In milliseconds. -/
  queryTimeout : Nat
  /-- In milliseconds. -/
  cacheTimeout : Nat
  singleFlight : Bool
  utcOffsetHours : Int
deriving DecidableEq

namespace Config

/-- The variables that are read. -/
def variableNames : List String :=
  ["SESSION_DATE_TTL_SECS", "SERVER_HOST", "SERVER_PORT", "DATABASE_URL",
    "DATABASE_MAX_CONNECTIONS", "REDIS_URL", "CACHE_TTL_SECS", "QUERY_TIMEOUT_MS",
    "CACHE_TIMEOUT_MS", "CACHE_SINGLE_FLIGHT", "MARKET_UTC_OFFSET_HOURS"]

section

variable (environment : String → Option String)

/-- The trimmed text of a variable that is not blank. -/
def setting (name : String) : Option String :=
  ((environment name).map Text.trim).filter (· ≠ "")

/-- A natural number of at most `bound`. -/
def natSetting (bound : Nat) (name : String) (default : Nat) : Except ConfigFault Nat :=
  match setting environment name with
  | some raw => (Text.readNat bound raw).mapError (.number name raw)
  | none => .ok default

def intSetting (bound : Nat) (name : String) (default : Int) : Except ConfigFault Int :=
  match setting environment name with
  | some raw => (Text.readInt bound raw).mapError (.number name raw)
  | none => .ok default

def flagSetting (name : String) (default : Bool) : Except ConfigFault Bool :=
  match (setting environment name).map Text.lower with
  | some text =>
    if ["1", "true", "yes", "on"].contains text then .ok true
    else if ["0", "false", "no", "off"].contains text then .ok false
    else .error (.flag name text)
  | none => .ok default

def read : Except ConfigFault Config := do
  let sessionTtl ← natSetting environment (UInt64.size - 1) "SESSION_DATE_TTL_SECS" 1800
  let port ← natSetting environment (UInt16.size - 1) "SERVER_PORT" 3000
  let maxConnections ← natSetting environment (UInt32.size - 1) "DATABASE_MAX_CONNECTIONS" 10
  let cacheTtl ← natSetting environment (UInt64.size - 1) "CACHE_TTL_SECS" 1800
  let queryTimeout ← natSetting environment (UInt64.size - 1) "QUERY_TIMEOUT_MS" 10000
  let cacheTimeout ← natSetting environment (UInt64.size - 1) "CACHE_TIMEOUT_MS" 2000
  let singleFlight ← flagSetting environment "CACHE_SINGLE_FLIGHT" false
  let utcOffsetHours ← intSetting environment 0x7FFFFFFF "MARKET_UTC_OFFSET_HOURS" 7
  return {
    host := (setting environment "SERVER_HOST").getD "0.0.0.0"
    port := port
    databaseUrl := (setting environment "DATABASE_URL").getD "sqlite://market.db?mode=rwc"
    maxConnections := maxConnections
    redisUrl := setting environment "REDIS_URL"
    cacheTtl := cacheTtl
    sessionTtl := if sessionTtl = 0 then none else some sessionTtl
    queryTimeout := queryTimeout
    cacheTimeout := cacheTimeout
    singleFlight := singleFlight
    utcOffsetHours := utcOffsetHours }

end

end Config

end Bourse.Service
