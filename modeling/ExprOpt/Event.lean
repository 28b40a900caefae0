import ExprOpt.Duplicate

/-!
# Events

The steps of a compilation that are worth a line in a log.
-/

namespace ExprOpt

/-- How detailed a log has to be to mention an event. -/
inductive Level where
  | debug
  | trace
  deriving DecidableEq, Repr, Inhabited

/-- The part of the program that an event comes from. -/
inductive Origin where
  | compilation
  | hoisting
  deriving DecidableEq, Repr, Inhabited

/-- Something that happened. -/
inductive Event where
  /-- A repeated subtree was met that is larger than those before. -/
  | candidate (hit : Hit)
  /-- There is nothing to hoist. -/
  | nothingRepeats
  /-- A repeated subtree is about to be hoisted. -/
  | hoisting (hit : Hit)
  /-- A stage of the compilation was completed. -/
  | completed (stage : String) (treeSize allocated capacity : Nat)
  deriving DecidableEq, Repr, Inhabited

namespace Event

/-- Candidates are details. -/
def level : Event → Level
  | .candidate _ => .trace
  | .nothingRepeats => .debug
  | .hoisting _ => .debug
  | .completed .. => .debug

/-- Where an event comes from. -/
def origin : Event → Origin
  | .candidate _ => .hoisting
  | .nothingRepeats => .hoisting
  | .hoisting _ => .hoisting
  | .completed .. => .compilation

/-- A subtree in words. -/
def describe (hit : Hit) : String :=
  "Id \x7b idx: " ++ toString hit.handle.index ++ " \x7d of size " ++ toString hit.size

/-- The event in words. -/
def message : Event → String
  | .candidate hit => "duplicate candidate " ++ describe hit
  | .nothingRepeats => "no common subexpression found"
  | .hoisting hit => "hoisting common subexpression " ++ describe hit
  | .completed stage treeSize allocated capacity =>
    stage ++ ": " ++ toString treeSize ++ " nodes in tree, " ++ toString allocated ++ "/"
      ++ toString capacity ++ " allocated"

/-- Whether a log of the given detail mentions the event. -/
def shownAt (detail : Level) (e : Event) : Bool :=
  match detail with
  | .debug => e.level = .debug
  | .trace => true

end Event

namespace Duplicate

/-- The events of having met hits, of which the latest comes first. -/
def candidates (hits : List Hit) : List Event := hits.reverse.map .candidate

/-- The events of a search for the largest repeated subtree. -/
def surveyEvents (s : Store) (root : Handle) : List Event :=
  match survey s root with
  | .ok _ hits => candidates hits
  | .error _ hits => candidates hits

/-- The event of having chosen among hits, of which the latest is the largest. -/
def decision : List Hit → Event
  | [] => .nothingRepeats
  | hit :: _ => .hoisting hit

/-- The events of hoisting the largest repeated subtree. -/
def hoistEvents (s : Store) (root : Handle) : List Event :=
  match survey s root with
  | .ok _ hits => candidates hits ++ [decision hits]
  | .error _ hits => candidates hits

end Duplicate

end ExprOpt
