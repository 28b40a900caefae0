import ExprOpt.Grammar.Expression
import ExprOpt.Store

/-!
# Reading expressions into a store

The text is checked before the store is touched, so malformed text is reported as such however full
the store is, and a failure while nodes are allocated only means that there are too many of them.
-/

namespace ExprOpt.Grammar

/-- The sink that only counts nodes, and never runs full. -/
def counting : Sink Nat where
  put _ count := some (⟨count⟩, count + 1)

/-- The sink that allocates nodes in a store. -/
def allocating : Sink Store where
  put n s :=
    match (Build.alloc n).run s with
    | .ok h s => some (h, s)
    | .error _ _ => none

/-- Reads a whole text from its first character. -/
def read {σ : Type} (sink : Sink σ) (text : List Char) (nodes : σ) : Option Handle × Notes σ :=
  let (result, notes) := Rule.apply (expression sink) ⟨0, text⟩ { nodes }
  (result.map Prod.fst, notes)

/-- The report on a text that is no expression. -/
def complaint? (text : List Char) : Option Report :=
  match read counting text 0 with
  | (some _, _) => none
  | (none, notes) => some (.ofFurthest text notes.furthest)

end ExprOpt.Grammar

namespace ExprOpt.Build

/-- Reads an expression and allocates its nodes. -/
def parse (source : String) : Build Handle := do
  match Grammar.complaint? source.toList with
  | some report => throw (.malformed report)
  | none =>
    let s ← get
    let (result, notes) := Grammar.read Grammar.allocating source.toList s
    set notes.nodes
    match result, notes.refused with
    | _, true => throw (.outOfNodes s.capacity)
    | some h, false => return h
    | none, false => throw (.malformed (.ofFurthest source.toList notes.furthest))

end ExprOpt.Build
