import ExprOpt.Node
import ExprOpt.Grammar.Report

/-!
# Errors

Why an operation on a store fails.
-/

namespace ExprOpt

/-- The causes of failure. -/
inductive Error where
  /-- The store already holds as many nodes as it may. -/
  | outOfNodes (capacity : Nat)
  /-- The text is no expression. -/
  | malformed (report : Report)
  /-- A handle was followed that no node has been allocated for. -/
  | dangling (handle : Handle)
  /-- A walk down the children was longer than any path without a cycle. -/
  | cyclic
  deriving DecidableEq, Repr, Inhabited

namespace Error

/-- The error in words. -/
def message : Error → String
  | .outOfNodes capacity => "out of nodes: store capacity of " ++ toString capacity ++ " exceeded"
  | .malformed report => "failed to parse: " ++ report.message
  | .dangling h => "no node " ++ toString h.index
  | .cyclic => "a node is below itself"

/-- The error in words, followed by the report that caused it. -/
def causes (e : Error) : List String :=
  match e with
  | .malformed report => [e.message, report.message]
  | _ => [e.message]

end Error

end ExprOpt
