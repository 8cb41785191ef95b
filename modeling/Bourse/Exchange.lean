import Bourse.Fault
import Bourse.Text.Case

/-!
# Exchanges

The exchanges a ticker can be listed on, and the codes that requests name them by.
-/

namespace Bourse

inductive Exchange where
  | hose
  | hnx
  | upcom
deriving DecidableEq, Repr

namespace Exchange

def all : List Exchange := [hose, hnx, upcom]

def name : Exchange → String
  | hose => "HOSE"
  | hnx => "HNX"
  | upcom => "UPCOM"

/-- The exchanges that a code asks for; no code asks for all of them. -/
def select (code : String) : Except Fault (List Exchange) :=
  let text := Text.upper (Text.trim code)
  if text = "" || text = "ALL" then .ok all
  else if text = "HOSE" || text = "HSX" then .ok [hose]
  else if text = "HNX" then .ok [hnx]
  else if text = "UPCOM" then .ok [upcom]
  else .error (.invalid (.exchange text))

end Exchange

end Bourse
