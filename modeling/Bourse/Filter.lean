import Bourse.Exchange
import Bourse.Industry
import Bourse.Text.Basic

/-!
# Filters

The exchanges and industries that a request admits. Labels are trimmed, checked, sorted and freed of
repetitions, so that requests with the same meaning have the same filter; since no label holds a
comma or a colon, the filter's parts of a cache key can be told apart again.
-/

namespace Bourse

structure Filter where
  exchanges : List Exchange
  industries : List String
deriving DecidableEq

namespace Filter

/-- The security types that take part in every analysis. -/
def securityTypes : List String := ["STOCK", "ETF"]

/-- Quotes, escapes, and the marks that separate the parts of a cache key. -/
def isForbidden (c : Char) : Bool :=
  Text.isControl c || "'\";\\`,:".toList.contains c

def checkLabel (raw : String) : Except Fault String :=
  let label := Text.trim raw
  if label = "" then .error (.invalid .emptyLabel)
  else if maxLabelLength < label.length then .error (.invalid .longLabel)
  else if label.toList.any isForbidden then
    .error (.invalid (.labelCharacters (Text.escape label)))
  else .ok label

def isWildcard (raw : String) : Bool :=
  let label := Text.trim raw
  label = "*" || label = "ALL" || label = "all"

/-- Ascending order without repetitions. -/
def sortedLabels (labels : List String) : List String :=
  (labels.mergeSort fun a b => a ≤ b).eraseReps

/-- The industries that a list of labels asks for; no label, or a wildcard among them, asks for all
known ones. -/
def selectIndustries (labels : List String) : Except Fault (List String) :=
  if labels.isEmpty || labels.any isWildcard then .ok Industry.known
  else (labels.mapM checkLabel).map sortedLabels

def make (exchange : String) (industries : List String) : Except Fault Filter := do
  let exchanges ← Exchange.select exchange
  let industries ← selectIndustries industries
  return ⟨exchanges, industries⟩

def exchangeFragment (f : Filter) : String :=
  ",".intercalate (f.exchanges.map Exchange.name)

def industryFragment (f : Filter) : String :=
  ",".intercalate f.industries

end Filter

end Bourse
