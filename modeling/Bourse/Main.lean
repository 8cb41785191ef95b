import Bourse.Service.Start
import Bourse.Web.Routes

/-!
# Command line

Answers calls from standard input, one on each line, under the configuration that the environment
holds. The first argument is the instant of the calls, in seconds since the start of 1970.
-/

namespace Bourse

/-- Answers the calls up to the end of the input, the next one being number `count`. -/
partial def serveCalls (desk : Desk) (backend : Backend) (count : Nat) : IO Unit := do
  let line ← (← IO.getStdin).getLine
  if line.isEmpty then return ()
  match Web.Request.ofLine? line with
  | some call =>
    let (response, backend) :=
      (Web.answerCall desk ("call-" ++ Text.ofNat count) call).run Backend.services backend
    IO.println response.line
    serveCalls desk backend (count + 1)
  | none => serveCalls desk backend count

def readEnvironment : IO (String → Option String) := do
  let pairs ← Service.Config.variableNames.mapM fun name => return (name, ← IO.getEnv name)
  return fun name => (pairs.lookup name).join

end Bourse

open Bourse in
def main (args : List String) : IO UInt32 := do
  let instant := (args.head?.bind String.toInt?).getD 0
  match Service.Config.read (← readEnvironment) with
  | .error fault =>
    IO.eprintln fault.message
    return 1
  | .ok config =>
    match Service.start? config instant with
    | some (desk, backend) =>
      serveCalls desk backend 1
      return 0
    | none =>
      IO.eprintln ("cannot open " ++ config.databaseUrl)
      return 1
