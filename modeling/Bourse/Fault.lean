import Bourse.Date.Text
import Bourse.Period

/-!
# Faults

What can go wrong with a request, by cause. Every fault has a code for machines and a message for
people; `reported` holds the words of a collaborator that failed in its own way.
-/

namespace Bourse

/-- Why dates or samples could not be settled. -/
inductive Unresolved where
  | missingAnchor (anchor table : String)
  | noSession (target : Date) (table : String)
  | noSamples (metric : String)
  | reported (message : String)
deriving DecidableEq

/-- Why a request is malformed. -/
inductive Invalid where
  | windowType (text : String)
  | windowOrder (order : UInt32)
  | exchange (text : String)
  | emptyLabel
  | longLabel
  | labelCharacters (escaped : String)
  | metric (key : String)
  | unpublished (unit : Period)
  | windowRequired (metric : String)
  | notASeries (metric : String)
  | orderText (raw : String)
  | limitText (raw : String)
  | reported (message : String)
deriving DecidableEq

inductive Fault where
  | unresolved (cause : Unresolved)
  | query (message : String)
  | cache (message : String)
  | timeout (operation : String) (milliseconds : Nat)
  | invalid (cause : Invalid)
  | payload (message : String)
deriving DecidableEq

/-- The most characters of an industry label. -/
def maxLabelLength : Nat := 100

namespace Unresolved

def message : Unresolved → String
  | missingAnchor anchor table =>
    "no trading session found for anchor '" ++ anchor ++ "' in " ++ table
  | noSession target table =>
    "no trading session on or before " ++ target.iso ++ " in " ++ table
  | noSamples metric => "no sample dates for " ++ metric
  | reported message => message

end Unresolved

namespace Invalid

def message : Invalid → String
  | windowType text => "unknown window type '" ++ text ++ "'"
  | windowOrder order =>
    "window order must be between 1 and " ++ Text.ofNat Window.maxOrder ++ ", got "
      ++ Text.ofNat order.toNat
  | exchange text => "unknown exchange '" ++ text ++ "'"
  | emptyLabel => "industry label must not be empty"
  | longLabel => "industry label exceeds " ++ Text.ofNat maxLabelLength ++ " characters"
  | labelCharacters escaped =>
    "industry label '" ++ escaped ++ "' contains invalid characters"
  | metric key => "unknown metric '" ++ key ++ "'"
  | unpublished unit =>
    "financial reports are published per quarter or year, not per " ++ unit.name
  | windowRequired key => key ++ " requires a (type, order) window"
  | notASeries key => key ++ " is not an industry time series"
  | orderText raw => "order must be a positive integer, got '" ++ raw ++ "'"
  | limitText raw => "limit must be a non-negative integer, got '" ++ raw ++ "'"
  | reported message => message

end Invalid

namespace Fault

def code : Fault → String
  | unresolved _ => "RESOLUTION_ERROR"
  | query _ => "QUERY_ERROR"
  | cache _ => "CACHE_ERROR"
  | timeout .. => "TIMEOUT"
  | invalid _ => "VALIDATION_ERROR"
  | payload _ => "CACHE_ERROR"

def message : Fault → String
  | unresolved cause => "Resolution error: " ++ cause.message
  | query message => "Query error: " ++ message
  | cache message => "Cache error: " ++ message
  | timeout operation milliseconds =>
    "Timed out after " ++ Text.ofNat milliseconds ++ "ms during " ++ operation
  | invalid cause => "Validation error: " ++ cause.message
  | payload message => "Serialization error: " ++ message

end Fault

end Bourse
