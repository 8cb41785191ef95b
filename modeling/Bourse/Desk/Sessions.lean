import Bourse.Gateway

/-!
# Resolved sessions

A desk answers questions about the market on one day, through a cache. Markets are closed on many
days, so a calendar day has to be settled to a session that its table knows: the named sessions of a
table, the latest session and the fifth latest, and the session nearest to a day.
-/

namespace Bourse

structure Desk where
  gateway : Gateway
  today : Date
  /-- Time to live in seconds of the named sessions of a table; none for ever. -/
  sessionTtl : Option Nat

def Fault.missingAnchor (anchor : String) (table : SessionTable) : Fault :=
  .unresolved (.missingAnchor anchor table.name)

namespace RecentSessions

/-- The latest of some dates, and the fifth latest. -/
def ofDates (table : SessionTable) (dates : List Date) : Except Fault RecentSessions :=
  let sessions := (dates.mergeSort fun a b => b ≤ a).eraseReps
  match sessions[0]?, sessions[4]? with
  | none, _ => .error (.missingAnchor "latest" table)
  | some _, none => .error (.missingAnchor "last_five" table)
  | some latest, some lastFive => .ok ⟨latest, lastFive⟩

def ofRows (table : SessionTable) (rows : List Row) : Except Fault RecentSessions :=
  ofDates table (rows.filterMap (·.date? "session_date"))

end RecentSessions

namespace SessionDates

/-- The anchor and the date of a row that has both. -/
def anchorOfRow? (r : Row) : Option (String × Date) := do
  let anchor ← r.text? "anchor"
  let date ← r.date? "session_date"
  return (anchor, date)

/-- The date of the last row with the given anchor. -/
def named (table : SessionTable) (rows : List Row) (anchor : String) : Except Fault Date :=
  match (rows.filterMap anchorOfRow?).findRev? (·.1 == anchor) with
  | some (_, date) => .ok date
  | none => .error (.missingAnchor anchor table)

def ofRows (table : SessionTable) (rows : List Row) : Except Fault SessionDates := do
  let recent := ((rows.filterMap anchorOfRow?).filter (·.1 == "recent")).map (·.2)
  let sessions ← RecentSessions.ofDates table recent
  let lastQuarter ← named table rows "last_quarter"
  let firstYear ← named table rows "first_year"
  let lastYear ← named table rows "last_year"
  return ⟨sessions.latest, sessions.lastFive, lastQuarter, firstYear, lastYear⟩

end SessionDates

/-- The date in the first row. -/
def nearestOfRows (table : SessionTable) (target : Date) (rows : List Row) : Except Fault Date :=
  match rows.head?.bind (·.date? "session_date") with
  | some date => .ok date
  | none => .error (.unresolved (.noSession target table.name))

namespace Desk

def sessionDates (desk : Desk) (table : SessionTable) : Analysis SessionDates :=
  desk.gateway.getOrComputeFor (Topic.sessionDates table).key.text desk.sessionTtl do
    let rows ← Analysis.ask (.sessionAnchors table (sessionTargets desk.today))
    SessionDates.ofRows table rows

def recentSessions (desk : Desk) (table : SessionTable) : Analysis RecentSessions :=
  desk.gateway.getOrComputeFor (Topic.recentSessions table).key.text desk.sessionTtl do
    let rows ← Analysis.ask (.recentSessions table)
    RecentSessions.ofRows table rows

/-- The latest session on or before a day. -/
def nearestSession (desk : Desk) (table : SessionTable) (target : Date) : Analysis Date :=
  desk.gateway.getOrCompute (Topic.nearestSession table target).key.text do
    let rows ← Analysis.ask (.nearestSession table target)
    nearestOfRows table target rows

/-- The sessions nearest to some days, the latest first and each once. -/
def sampleSessions (desk : Desk) (table : SessionTable) (targets : List Date) :
    Analysis (List Date) := do
  let sessions ← targets.mapM (desk.nearestSession table)
  return (sessions.mergeSort fun a b => b ≤ a).eraseReps

end Desk

end Bourse
