import ExprOpt.Grammar.Report
import ExprOpt.Node

/-!
# Grammar rules

A rule reads a piece of text from the front. It succeeds with a value and moves the cursor past what
it read, or it fails and leaves the cursor alone. Either way it keeps its notes: the furthest
failure, the depth of nesting and whatever nodes have been handed to the sink. Alternatives are
ordered, and a repetition takes as much as it can.
-/

namespace ExprOpt.Grammar

/-- The text still to be read, and how much has been read. -/
structure Cursor where
  offset : Nat
  rest : List Char
  deriving DecidableEq, Repr, Inhabited

/-- What receives the nodes of an expression while it is read. A sink may run full. -/
structure Sink (σ : Type) where
  put : Node → σ → Option (Handle × σ)

/-- What a rule keeps even if it fails. -/
structure Notes (σ : Type) where
  /-- The number of parentheses and unary minuses that enclose the cursor. -/
  depth : Nat := 0
  furthest : Furthest := {}
  /-- Whether the sink has refused a node. -/
  refused : Bool := false
  nodes : σ
  deriving DecidableEq, Repr, Inhabited

/-- Rules with a value of type `α`. -/
abbrev Rule (σ α : Type) := StateT Cursor (OptionT (StateM (Notes σ))) α

namespace Rule

variable {σ α β : Type}

/-- The outcome of a rule at a cursor, and the notes it leaves behind. -/
def apply (r : Rule σ α) (cursor : Cursor) (notes : Notes σ) :
    Option (α × Cursor) × Notes σ :=
  ((StateT.run r cursor).run).run notes

/-- A constant rule reads nothing and records nothing. -/
@[simp] theorem apply_pure (a : α) (cursor : Cursor) (notes : Notes σ) :
    apply (pure a) cursor notes = (some (a, cursor), notes) := rfl

/-- Failing on its own records nothing. -/
@[simp] theorem apply_failure (cursor : Cursor) (notes : Notes σ) :
    apply (failure : Rule σ α) cursor notes = (none, notes) := rfl

/-- The second of two rules starts where the first one ended, unless that failed. -/
theorem apply_bind (r : Rule σ α) (f : α → Rule σ β) (cursor : Cursor) (notes : Notes σ) :
    apply (r >>= f) cursor notes =
      match apply r cursor notes with
      | (some (a, cursor'), notes') => apply (f a) cursor' notes'
      | (none, notes') => (none, notes') := by
  unfold apply
  rw [StateT.run_bind, OptionT.run_bind]
  unfold Option.elimM
  rw [StateT.run_bind]
  rcases (StateT.run r cursor).run.run notes with ⟨_ | ⟨a, cursor'⟩, notes'⟩ <;> rfl

/-- An alternative is tried at the same cursor, with the notes of what was tried before. -/
theorem apply_orElse (r t : Rule σ α) (cursor : Cursor) (notes : Notes σ) :
    apply (r <|> t) cursor notes =
      match apply r cursor notes with
      | (some result, notes') => (some result, notes')
      | (none, notes') => apply t cursor notes' := by
  have split : StateT.run (r <|> t) cursor = (StateT.run r cursor <|> StateT.run t cursor) := rfl
  unfold apply
  rw [split, OptionT.run_orElse]
  unfold Option.elimM
  rw [StateT.run_bind]
  rcases (StateT.run r cursor).run.run notes with ⟨_ | result, notes'⟩ <;> rfl

/-- Notes that `what` was looked for at the cursor. -/
def note (what : Expected) : Rule σ Unit := do
  let cursor ← get
  modifyThe (Notes σ) fun notes =>
    { notes with furthest := notes.furthest.record cursor.offset what }

/-- Fails for the lack of `what` at the cursor. -/
def lack (what : Expected) : Rule σ α := do
  note what
  failure

/-- Moves the cursor past the longest run of characters that satisfy `p`, and returns the run. -/
def span (p : Char → Bool) : Rule σ (List Char) := do
  let cursor ← get
  let taken := cursor.rest.takeWhile p
  set { offset := cursor.offset + taken.length, rest := cursor.rest.dropWhile p : Cursor }
  return taken

/-- Reads one character that satisfies `p`. -/
def one (p : Char → Bool) (what : Expected) : Rule σ Char := do
  let cursor ← get
  match cursor.rest with
  | c :: rest =>
    if p c then
      set { offset := cursor.offset + 1, rest : Cursor }
      return c
    else
      lack what
  | [] => lack what

/-- Reads a given character. -/
def symbol (c : Char) (what : Expected) : Rule σ Unit := do
  let _ ← one (· = c) what
  return ()

/-- Succeeds at the end of the text only. -/
def done : Rule σ Unit := do
  let cursor ← get
  match cursor.rest with
  | [] => return ()
  | _ :: _ => lack .endOfInput

/-- Tries a rule that need not succeed. -/
def optional (r : Rule σ α) : Rule σ (Option α) :=
  (some <$> r) <|> pure none

/-- Repeats a rule until it fails, at most `count` times. -/
def upTo (count : Nat) (r : Rule σ α) : Rule σ (List α) :=
  match count with
  | 0 => return []
  | count + 1 =>
    (do
      let a ← r
      let as ← upTo count r
      return a :: as)
    <|> pure []

/-- Repeats a rule until it fails. A rule that reads something each time succeeds no more often than
there are characters left. -/
def many (r : Rule σ α) : Rule σ (List α) := do
  let cursor ← get
  upTo (cursor.rest.length + 1) r

/-- Hands a node to the sink; the rule fails if the sink is full. -/
def emit (sink : Sink σ) (n : Node) : Rule σ Handle := do
  let notes ← getThe (Notes σ)
  match sink.put n notes.nodes with
  | some (h, nodes) =>
    set { notes with nodes }
    return h
  | none =>
    set { notes with refused := true }
    failure

end Rule

end ExprOpt.Grammar
