import BoundedScript.Evaluation
import BoundedScript.Parser.Statement
import BoundedScript.Token.Scan

/-! # Running scripts

A script is scanned, parsed and evaluated in an empty environment. A session keeps its environment
from one evaluation to the next, also after an error.
-/

namespace BoundedScript

inductive Error where
  | parse (e : ParseError)
  | runtime (e : RuntimeError)
  deriving DecidableEq

def Error.message : Error → String
  | parse e => e.message
  | runtime e => e.message

namespace Program

def parse (source : String) : Except ParseError Expr := do Parser.parse (← Token.scan source)

/-- How often a loop may run unless the user says otherwise. -/
def defaultLimit : Nat := 10000

end Program

/-- A sequence of evaluations on one environment. -/
structure Session where
  limit : Nat := Program.defaultLimit
  environment : Environment := ∅

namespace Session

def perform {α : Type} (session : Session) (x : EvalM α) : Except RuntimeError α × Session :=
  let (result, environment) := x.outcome session.environment
  (result, { session with environment })

def eval (session : Session) (e : Expr) : Except RuntimeError (Option Value) × Session :=
  session.perform (e.eval session.limit)

/-- Parses and evaluates a script. One that does not parse changes nothing. -/
def run (session : Session) (source : String) : Except Error (Option Value) × Session :=
  match Program.parse source with
  | .error e => (.error (.parse e), session)
  | .ok tree =>
    let (result, session) := session.eval tree
    (result.mapError .runtime, session)

/-- Evaluates statements one after the other, up to the first that fails, and lists what each gave
and the session after it. -/
def trace (session : Session) :
    List Expr → List (Except RuntimeError (Option Value) × Session)
  | [] => []
  | e :: es =>
    match session.eval e with
    | (.ok value, next) => (.ok value, next) :: next.trace es
    | (.error err, next) => [(.error err, next)]

end Session

/-- The result of a script in which each loop may run up to `limit` times. -/
def Program.run (limit : Nat) (source : String) : Except Error (Option Value) :=
  (Session.run { limit } source).1

end BoundedScript
