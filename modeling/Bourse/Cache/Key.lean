import Bourse.Filter
import Bourse.Metric
import Bourse.Window

/-!
# Cache keys

A key is a list of parts written with colons between them. Every question whose answer is cached has
its own key: the name of the analysis, the parts of its filter, and what else it asks about.
-/

namespace Bourse

structure CacheKey where
  parts : List String
deriving DecidableEq

namespace CacheKey

def ofName (name : String) : CacheKey := ⟨[name]⟩

def part (k : CacheKey) (s : String) : CacheKey := ⟨k.parts ++ [s]⟩

def ofFilter (name : String) (f : Filter) : CacheKey :=
  ((ofName name).part f.exchangeFragment).part f.industryFragment

def text (k : CacheKey) : String :=
  ":".intercalate k.parts

end CacheKey

/-- The questions whose answers are cached. -/
inductive Topic where
  | ranking (metric : Metric) (filter : Filter)
  | series (metric : Metric) (filter : Filter) (window : Window)
  | breadth (filter : Filter)
  | topMovers (filter : Filter) (limit : Nat)
  | sessionDates (table : SessionTable)
  | recentSessions (table : SessionTable)
  | nearestSession (table : SessionTable) (target : Date)

def Topic.key : Topic → CacheKey
  | ranking metric filter => .ofFilter metric.key filter
  | series metric filter window => (CacheKey.ofFilter metric.key filter).part window.fragment
  | breadth filter => .ofFilter "breadth" filter
  | topMovers filter limit => (CacheKey.ofFilter "top-movers" filter).part (Text.ofNat limit)
  | sessionDates table => ((CacheKey.ofName "session-date").part table.name).part table.dateColumn
  | recentSessions table =>
    ((CacheKey.ofName "recent-sessions").part table.name).part table.dateColumn
  | nearestSession table target =>
    ((CacheKey.ofName "nearest-date").part table.name).part target.iso

end Bourse
