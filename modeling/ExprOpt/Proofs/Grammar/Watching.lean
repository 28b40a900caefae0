import ExprOpt.Proofs.Grammar.Steadiness

/-!
# Watching the depth of nesting

The notes that a rule leaves behind tell how deep it has ended, but not how deep it has been. Here are the
rules once more, such that a mark is made before and after each level is entered and before and after it
is left. Watching a rule changes nothing about it (`Watches`), and the marks are balanced however it ends:
a level is entered if it is not too deep, and what is entered is left (`Balanced`).
-/

namespace ExprOpt.Grammar

variable {σ α β : Type}

/-- When the depth is looked at. -/
inductive Moment where
  | entering
  | entered
  | leaving
  | left
  deriving DecidableEq, Repr

/-- How deep the cursor was at a moment, and how far in the text. -/
structure Mark where
  moment : Moment
  offset : Nat
  depth : Nat
  deriving DecidableEq, Repr

/-- The states of a sink, with the marks that have been made. -/
abbrev Watched (σ : Type) := σ × List Mark

/-- The notes together with marks. -/
def Notes.watched (notes : Notes σ) (marks : List Mark) : Notes (Watched σ) :=
  ⟨notes.depth, notes.furthest, notes.refused, notes.nodes, marks⟩

/-- The notes with a mark of the depth. -/
def Notes.mark (notes : Notes (Watched σ)) (moment : Moment) (offset : Nat) : Notes (Watched σ) :=
  { notes with nodes := (notes.nodes.1, notes.nodes.2 ++ [⟨moment, offset, notes.depth⟩]) }

/-- The sink, which leaves all marks alone. -/
def Sink.watched (sink : Sink σ) : Sink (Watched σ) where
  put n s := (sink.put n s.1).map fun (h, nodes) => (h, nodes, s.2)

/-! ### Watched rules -/

namespace Watched

/-- Makes a mark of the depth. -/
def mark (moment : Moment) : Rule (Watched σ) Unit := do
  let cursor ← get
  modifyThe (Notes (Watched σ)) fun notes => notes.mark moment cursor.offset

/-- What may or may not stand one level deeper. -/
def nested (r : Rule (Watched σ) α) : Rule (Watched σ) (Option α) := do
  mark .entering
  descend
  mark .entered
  let a ← Rule.optional r
  mark .leaving
  ascend
  mark .left
  return a

/-- Something between parentheses. -/
def parenthesized (inner : Rule (Watched σ) Handle) : Rule (Watched σ) Handle :=
  parenthesizedBy nested inner

/-- A minus in front of something. -/
def negated (sink : Sink σ) (inner : Rule (Watched σ) Handle) : Rule (Watched σ) Handle :=
  negatedBy nested sink.watched inner

/-- A factor that holds fewer than `levels` others, one inside the next. -/
def factor (sink : Sink σ) (levels : Nat) : Rule (Watched σ) Handle := factorBy nested sink.watched levels

/-- A whole text. -/
def expression (sink : Sink σ) : Rule (Watched σ) Handle := expressionBy nested sink.watched

/-- The kinds of factors are tried in turn. -/
lemma factor_succ (sink : Sink σ) (levels : Nat) : factor sink (levels + 1) = (do
    blanks
    letter sink.watched <|> number sink.watched <|>
      parenthesized (sum sink.watched (factor sink levels)) <|> negated sink (factor sink levels)) := rfl

end Watched

/-- The rules that read whole operands, or more. -/
inductive Construct where
  | factor
  | product
  | sum
  | parenthesized
  | negated
  | expression
  deriving DecidableEq, Repr

namespace Construct

/-- The rule of the grammar, for factors with so many levels. -/
def rule (sink : Sink σ) (levels : Nat) : Construct → Rule σ Handle
  | .factor => Grammar.factor sink levels
  | .product => Grammar.product sink (Grammar.factor sink levels)
  | .sum => Grammar.sum sink (Grammar.factor sink levels)
  | .parenthesized => Grammar.parenthesized (Grammar.sum sink (Grammar.factor sink levels))
  | .negated => Grammar.negated sink (Grammar.factor sink levels)
  | .expression => Grammar.expression sink

/-- The rule of the grammar, watched. -/
def watched (sink : Sink σ) (levels : Nat) : Construct → Rule (Watched σ) Handle
  | .factor => Watched.factor sink levels
  | .product => Grammar.product sink.watched (Watched.factor sink levels)
  | .sum => Grammar.sum sink.watched (Watched.factor sink levels)
  | .parenthesized => Watched.parenthesized (Grammar.sum sink.watched (Watched.factor sink levels))
  | .negated => Watched.negated sink (Watched.factor sink levels)
  | .expression => Watched.expression sink

end Construct

/-! ### Balanced marks -/

/-- Marks that begin and end at a depth. A level that is too deep is not entered. Every other level is
left again, at the depth to which it was entered, and there are balanced marks in between. -/
inductive Balanced : Nat → List Mark → Prop where
  | nil {depth} :
    Balanced depth []
  | barred {depth offset rest} :
    nestingLimit ≤ depth →
    Balanced depth rest →
    Balanced depth (⟨.entering, offset, depth⟩ :: rest)
  | level {depth offset offset' inner rest} :
    depth < nestingLimit →
    Balanced (depth + 1) inner →
    Balanced depth rest →
    Balanced depth (⟨.entering, offset, depth⟩ :: ⟨.entered, offset, depth + 1⟩ ::
      (inner ++ ⟨.leaving, offset', depth + 1⟩ :: ⟨.left, offset', depth⟩ :: rest))

namespace Balanced

variable {depth : Nat} {marks marks' : List Mark}

/-- Balanced marks at one depth are balanced one after the other. -/
lemma append (first : Balanced depth marks) (second : Balanced depth marks') :
    Balanced depth (marks ++ marks') := by
  induction first with
  | nil => exact second
  | barred deep _ ih => exact .barred deep (ih second)
  | @level _ offset offset' inner rest shallow below _ _ ih =>
    have longer := @level _ offset offset' _ _ shallow below (ih second)
    simpa only [List.cons_append, List.append_assoc] using longer

/-- The limit is never exceeded, and nothing is left that has not been entered. -/
lemma within (balanced : Balanced depth marks) (le : depth ≤ nestingLimit) :
    ∀ m ∈ marks, m.depth ≤ nestingLimit ∧ (m.moment = .leaving → 0 < m.depth) := by
  induction balanced with
  | nil => exact fun m mem => absurd mem List.not_mem_nil
  | barred _ _ ih =>
    simp only [List.forall_mem_cons, reduceCtorEq, false_implies, and_true]
    exact ⟨le, ih le⟩
  | level shallow _ _ ihInner ihRest =>
    simp only [List.forall_mem_cons, List.forall_mem_append, reduceCtorEq, false_implies, and_true]
    exact ⟨le, shallow, ihInner shallow, ⟨shallow, fun _ => Nat.succ_pos _⟩, le, ihRest le⟩

end Balanced

/-! ### Watching changes nothing -/

/-- The notes one level deeper. -/
def Notes.enter (notes : Notes (Watched σ)) (offset : Nat) : Notes (Watched σ) :=
  Notes.mark { notes.mark .entering offset with depth := notes.depth + 1 } .entered offset

/-- The notes one level back. -/
def Notes.leave (notes : Notes (Watched σ)) (offset : Nat) : Notes (Watched σ) :=
  Notes.mark { notes.mark .leaving offset with depth := notes.depth - 1 } .left offset

/-- A level is entered with two marks, before and after. -/
lemma Notes.enter_watched (notes : Notes σ) (marks : List Mark) (offset : Nat) :
    (notes.watched marks).enter offset = Notes.watched { notes with depth := notes.depth + 1 }
      (marks ++ [⟨.entering, offset, notes.depth⟩, ⟨.entered, offset, notes.depth + 1⟩]) := by
  simp [enter, mark, watched]

/-- A level is left with two marks, before and after. -/
lemma Notes.leave_watched (notes : Notes σ) (marks : List Mark) (offset : Nat) :
    (notes.watched marks).leave offset = Notes.watched { notes with depth := notes.depth - 1 }
      (marks ++ [⟨.leaving, offset, notes.depth⟩, ⟨.left, offset, notes.depth - 1⟩]) := by
  simp [leave, mark, watched]

/-- A node is handed over as if nobody watched. -/
lemma Watched.apply_emit (sink : Sink σ) (n : Node) (cursor : Cursor) (notes : Notes (Watched σ)) :
    (Rule.emit sink.watched n).apply cursor notes =
      match sink.put n notes.nodes.1 with
      | some (h, nodes) => (some (h, cursor), { notes with nodes := (nodes, notes.nodes.2) })
      | none => (none, { notes with refused := true }) := by
  have put : sink.watched.put n notes.nodes =
      (sink.put n notes.nodes.1).map fun (h, nodes) => (h, nodes, notes.nodes.2) := rfl
  rw [Rule.apply_emit, put]
  cases sink.put n notes.nodes.1 <;> rfl

/-- What is found one level deeper. -/
lemma Watched.apply_nested (r : Rule (Watched σ) α) (cursor : Cursor) (notes : Notes (Watched σ)) :
    (nested r).apply cursor notes =
      if notes.depth < nestingLimit then
        match r.apply cursor (notes.enter cursor.offset) with
        | (some (a, cursor'), notes') => (some (some a, cursor'), notes'.leave cursor'.offset)
        | (none, notes') => (some (none, cursor), notes'.leave cursor.offset)
      else (Rule.lack .shallowerNesting).apply cursor (notes.mark .entering cursor.offset) := by
  have marked (moment : Moment) (cursor : Cursor) (notes : Notes (Watched σ)) :
      (mark moment).apply cursor notes = (some ((), cursor), notes.mark moment cursor.offset) := rfl
  have same : (notes.mark .entering cursor.offset).depth = notes.depth := rfl
  rw [nested, Rule.apply_bind, marked]
  dsimp only
  rw [Rule.apply_bind, apply_descend, same]
  split_ifs
  · dsimp only
    rw [Rule.apply_bind, marked]
    dsimp only
    rw [Rule.apply_bind, Rule.apply_optional]
    rw [Notes.enter]
    rcases r.apply cursor _ with ⟨_ | ⟨a, cursor'⟩, notes'⟩ <;> rfl
  · rfl

/-- The first rule is the second one, watched. It does the same, and the marks that it makes are
balanced. -/
structure Watches (r' : Rule (Watched σ) α) (r : Rule σ α) : Prop where
  steady : r.Steady
  apply : ∀ cursor notes marks, ∃ new, Balanced notes.depth new ∧
    r'.apply cursor (notes.watched marks) =
      ((r.apply cursor notes).1, (r.apply cursor notes).2.watched (marks ++ new))

/-- The rule takes no mark back. -/
def Rule.Adds (r : Rule (Watched σ) α) : Prop :=
  ∀ cursor notes, notes.nodes.2 <+: (r.apply cursor notes).2.nodes.2

namespace Watches

/-- A rule that does not look at the depth makes no marks. -/
lemma of_unmarked {r' : Rule (Watched σ) α} {r : Rule σ α} (steady : r.Steady)
    (same : ∀ cursor notes marks, r'.apply cursor (notes.watched marks) =
      ((r.apply cursor notes).1, (r.apply cursor notes).2.watched marks)) : Watches r' r := by
  refine ⟨steady, fun cursor notes marks => ⟨[], .nil, ?_⟩⟩
  rw [List.append_nil]
  exact same cursor notes marks

/-- A constant rule does not look at the depth. -/
lemma pure (a : α) : Watches (pure a) (pure a : Rule σ α) := of_unmarked (.pure a) fun _ _ _ => rfl

/-- Failing on its own is done without a look at the depth. -/
lemma failure : Watches failure (failure : Rule σ α) := of_unmarked .failure fun _ _ _ => rfl

/-- A note is made without a look at the depth. -/
lemma note (what : Expected) : Watches (Rule.note what) (Rule.note what : Rule σ Unit) :=
  of_unmarked (.note what) fun _ _ _ => rfl

/-- To lack something is noted without a look at the depth. -/
lemma lack (what : Expected) : Watches (Rule.lack what) (Rule.lack what : Rule σ α) :=
  of_unmarked (.lack what) fun _ _ _ => rfl

/-- A run of characters is read without a look at the depth. -/
lemma span (p : Char → Bool) : Watches (Rule.span p) (Rule.span p : Rule σ (List Char)) :=
  of_unmarked (.span p) fun _ _ _ => rfl

/-- Handing over a node makes no mark, whether it is taken or refused. -/
lemma emit (sink : Sink σ) (n : Node) : Watches (Rule.emit sink.watched n) (Rule.emit sink n) := by
  refine of_unmarked (.emit sink n) fun cursor notes marks => ?_
  rw [Watched.apply_emit, Rule.apply_emit]
  show (match sink.put n notes.nodes with | some (h, nodes) => _ | none => _) = _
  cases sink.put n notes.nodes <;> rfl

/-- The marks of a sequence are those of both rules. -/
lemma bind {r' : Rule (Watched σ) α} {r : Rule σ α} {f' : α → Rule (Watched σ) β} {f : α → Rule σ β}
    (first : Watches r' r) (second : ∀ a, Watches (f' a) (f a)) : Watches (r' >>= f') (r >>= f) := by
  refine ⟨first.steady.bind fun a => (second a).steady, fun cursor notes marks => ?_⟩
  obtain ⟨new, balanced, ran⟩ := first.apply cursor notes marks
  have level := (first.steady cursor notes).depth
  rw [Rule.apply_bind, Rule.apply_bind, ran]
  rcases e : r.apply cursor notes with ⟨_ | ⟨a, cursor'⟩, notes'⟩ <;> rw [e] at level
  · exact ⟨new, balanced, rfl⟩
  · obtain ⟨more, balanced', ran'⟩ := (second a).apply cursor' notes' (marks ++ new)
    rw [level] at balanced'
    rw [List.append_assoc] at ran'
    exact ⟨new ++ more, balanced.append balanced', ran'⟩

/-- The marks of an alternative that fails are kept. -/
lemma orElse {r' t' : Rule (Watched σ) α} {r t : Rule σ α} (first : Watches r' r)
    (second : Watches t' t) : Watches (r' <|> t') (r <|> t) := by
  refine ⟨first.steady.orElse second.steady, fun cursor notes marks => ?_⟩
  obtain ⟨new, balanced, ran⟩ := first.apply cursor notes marks
  have level := (first.steady cursor notes).depth
  rw [Rule.apply_orElse, Rule.apply_orElse, ran]
  rcases e : r.apply cursor notes with ⟨_ | result, notes'⟩ <;> rw [e] at level
  · obtain ⟨more, balanced', ran'⟩ := second.apply cursor notes' (marks ++ new)
    rw [level] at balanced'
    rw [List.append_assoc] at ran'
    exact ⟨new ++ more, balanced.append balanced', ran'⟩
  · exact ⟨new, balanced, rfl⟩

/-- A single character is read without a look at the depth. -/
lemma one (p : Char → Bool) (what : Expected) : Watches (Rule.one p what) (Rule.one p what : Rule σ Char) := by
  refine of_unmarked (.one p what) fun cursor notes marks => ?_
  rw [Rule.apply_one, Rule.apply_one]
  split
  · split <;> rfl
  · rfl

/-- A sign is read without a look at the depth. -/
lemma symbol (c : Char) (what : Expected) :
    Watches (Rule.symbol c what) (Rule.symbol c what : Rule σ Unit) :=
  (one _ what).bind fun _ => pure ()

/-- The end of the text is found without a look at the depth. -/
lemma done : Watches Rule.done (Rule.done : Rule σ Unit) := by
  refine of_unmarked .done fun cursor notes marks => ?_
  rw [Rule.apply_done, Rule.apply_done]
  split <;> rfl

/-- A bounded repetition is watched if its rule is. -/
lemma upTo {r' : Rule (Watched σ) α} {r : Rule σ α} (each : Watches r' r) (count : Nat) :
    Watches (Rule.upTo count r') (Rule.upTo count r) := by
  induction count with
  | zero => exact pure []
  | succ count ih => exact (each.bind fun a => ih.bind fun as => pure (a :: as)).orElse (pure [])

/-- A repetition is watched if its rule is, within the same bound. -/
lemma many {r' : Rule (Watched σ) α} {r : Rule σ α} (each : Watches r' r) :
    Watches (Rule.many r') (Rule.many r) :=
  ⟨each.steady.many, fun cursor notes marks => (each.upTo _).apply cursor notes marks⟩

/-- A level that is entered is left, at the depth to which it was entered. -/
lemma nested {r' : Rule (Watched σ) α} {r : Rule σ α} (inner : Watches r' r) :
    Watches (Watched.nested r') (Grammar.nested r) := by
  refine ⟨steady_nested inner.steady, fun cursor notes marks => ?_⟩
  rw [Watched.apply_nested, Grammar.apply_nested]
  by_cases shallow : notes.depth < nestingLimit
  · rw [if_pos (by exact shallow), if_pos shallow, Notes.enter_watched]
    obtain ⟨new, balanced, ran⟩ := inner.apply cursor { notes with depth := notes.depth + 1 }
      (marks ++ [⟨.entering, cursor.offset, notes.depth⟩, ⟨.entered, cursor.offset, notes.depth + 1⟩])
    have level := (inner.steady cursor { notes with depth := notes.depth + 1 }).depth
    have marked (offset : Nat) := @Balanced.level _ cursor.offset offset _ _ shallow balanced .nil
    rw [ran]
    rcases e : r.apply cursor { notes with depth := notes.depth + 1 } with
      ⟨_ | ⟨a, cursor'⟩, notes'⟩ <;> rw [e] at level
    · have deeper : notes'.depth = notes.depth + 1 := level
      refine ⟨_, marked cursor.offset, ?_⟩
      simp [Notes.leave_watched, deeper]
    · have deeper : notes'.depth = notes.depth + 1 := level
      refine ⟨_, marked cursor'.offset, ?_⟩
      simp [Notes.leave_watched, deeper]
  · rw [if_neg (by exact shallow), if_neg shallow]
    exact ⟨[_], .barred (Nat.le_of_not_lt shallow) .nil, rfl⟩

/-- Marks are only added at the end. -/
lemma adds {r' : Rule (Watched σ) α} {r : Rule σ α} (watches : Watches r' r) : r'.Adds := by
  intro cursor notes
  obtain ⟨depth, furthest, refused, nodes, marks⟩ := notes
  obtain ⟨new, -, ran⟩ := watches.apply cursor ⟨depth, furthest, refused, nodes⟩ marks
  exact ⟨new, (congrArg (fun out => out.2.nodes.2) ran).symm⟩

end Watches

/-- Blanks are skipped without a look at the depth. -/
lemma watches_blanks : Watches blanks (blanks : Rule σ Unit) := (Watches.span _).bind fun _ => .pure ()

/-- A variable is read without a look at the depth. -/
lemma watches_letter (sink : Sink σ) : Watches (letter sink.watched) (letter sink) :=
  (Watches.one _ _).bind fun _ => .emit sink _

/-- A constant is read without a look at the depth. -/
lemma watches_number (sink : Sink σ) : Watches (number sink.watched) (number sink) := by
  refine (Watches.span _).bind fun digits => (Watches.note _).bind fun _ => ?_
  split_ifs
  · exact .failure
  · exact .emit sink _
  · exact .lack _

/-- The end of parentheses is read without a look at the depth. -/
lemma watches_closing (inside : Option Handle) : Watches (closing inside) (closing inside : Rule σ Handle) := by
  refine watches_blanks.bind fun _ => (Watches.symbol _ _).bind fun _ => ?_
  cases inside with
  | none => exact .lack _
  | some h => exact .pure h

/-- The marks of parentheses are those of the level inside them. -/
lemma watches_parenthesized {inner' : Rule (Watched σ) Handle} {inner : Rule σ Handle}
    (h : Watches inner' inner) : Watches (Watched.parenthesized inner') (parenthesized inner) :=
  (Watches.symbol _ _).bind fun _ => h.nested.bind watches_closing

/-- A negation is handed over without a look at the depth. -/
lemma watches_negating (sink : Sink σ) (operand : Option Handle) :
    Watches (negating sink.watched operand) (negating sink operand) := by
  cases operand with
  | none => exact .lack _
  | some h => exact .emit sink _

/-- The marks of a negation are those of the level of its operand. -/
lemma watches_negated (sink : Sink σ) {inner' : Rule (Watched σ) Handle} {inner : Rule σ Handle}
    (h : Watches inner' inner) : Watches (Watched.negated sink inner') (negated sink inner) :=
  (Watches.symbol _ _).bind fun _ => h.nested.bind (watches_negating sink)

/-- Linking a series makes no marks. -/
lemma watches_link (sink : Sink σ) (first : Handle) (rest : List (Op × Handle)) :
    Watches (link sink.watched first rest) (link sink first rest) := by
  induction rest generalizing first with
  | nil => exact .pure first
  | cons item rest ih => exact (Watches.emit sink _).bind fun h => ih h

/-- The marks of an item are those of its operand. -/
lemma watches_item {op' : Rule (Watched σ) Op} {op : Rule σ Op} {operand' : Rule (Watched σ) Handle}
    {operand : Rule σ Handle} (ho : Watches op' op) (hr : Watches operand' operand) :
    Watches (item op' operand') (item op operand) :=
  watches_blanks.bind fun _ => ho.bind fun o => hr.bind fun right => .pure (o, right)

/-- The marks of a series are those of its operands, in their order. -/
lemma watches_series (sink : Sink σ) {op' : Rule (Watched σ) Op} {op : Rule σ Op}
    {operand' : Rule (Watched σ) Handle} {operand : Rule σ Handle} (ho : Watches op' op)
    (hr : Watches operand' operand) :
    Watches (series sink.watched op' operand') (series sink op operand) :=
  hr.bind fun first => (watches_item ho hr).many.bind fun rest => watches_link sink first rest

/-- An operator is read without a look at the depth. -/
lemma watches_either {c c' : Char} {what what' : Expected} {o o' : Op} :
    Watches (either c what o c' what' o') (either c what o c' what' o' : Rule σ Op) :=
  ((Watches.symbol _ _).bind fun _ => .pure _).orElse ((Watches.symbol _ _).bind fun _ => .pure _)

/-- Products are watched if factors are. -/
lemma watches_product (sink : Sink σ) {factor' : Rule (Watched σ) Handle} {factor : Rule σ Handle}
    (h : Watches factor' factor) : Watches (product sink.watched factor') (product sink factor) :=
  watches_series sink watches_either h

/-- Sums are watched if factors are. -/
lemma watches_sum (sink : Sink σ) {factor' : Rule (Watched σ) Handle} {factor : Rule σ Handle}
    (h : Watches factor' factor) : Watches (sum sink.watched factor') (sum sink factor) :=
  watches_series sink watches_either (watches_product sink h)

/-- Factors are watched, by induction on the levels. -/
lemma watches_factor (sink : Sink σ) (levels : Nat) :
    Watches (Watched.factor sink levels) (factor sink levels) := by
  induction levels with
  | zero => exact .failure
  | succ levels ih =>
    exact watches_blanks.bind fun _ => (watches_letter sink).orElse <| (watches_number sink).orElse <|
      (watches_parenthesized (watches_sum sink ih)).orElse (watches_negated sink ih)

/-- Whole expressions are watched. -/
lemma watches_expression (sink : Sink σ) : Watches (Watched.expression sink) (expression sink) :=
  (watches_sum sink (watches_factor sink _)).bind fun h =>
    watches_blanks.bind fun _ => Watches.done.bind fun _ => .pure h

/-- Every rule can be watched. -/
theorem Construct.watches (construct : Construct) (sink : Sink σ) (levels : Nat) :
    Watches (construct.watched sink levels) (construct.rule sink levels) := by
  have factors := watches_factor sink levels
  cases construct with
  | factor => exact factors
  | product => exact watches_product sink factors
  | sum => exact watches_sum sink factors
  | parenthesized => exact watches_parenthesized (watches_sum sink factors)
  | negated => exact watches_negated sink factors
  | expression => exact watches_expression sink

/-- The marks of a rule, however it ends. -/
def Construct.marks (construct : Construct) (sink : Sink σ) (levels : Nat) (cursor : Cursor)
    (notes : Notes σ) : List Mark :=
  ((construct.watched sink levels).apply cursor (notes.watched [])).2.nodes.2

/-- A watched rule ends like the rule itself, and leaves the marks beside its nodes. -/
lemma Construct.apply_watched (construct : Construct) (sink : Sink σ) (levels : Nat) (cursor : Cursor)
    (notes : Notes σ) : (construct.watched sink levels).apply cursor (notes.watched []) =
      (((construct.rule sink levels).apply cursor notes).1,
        ((construct.rule sink levels).apply cursor notes).2.watched
          (construct.marks sink levels cursor notes)) := by
  obtain ⟨new, -, ran⟩ := (construct.watches sink levels).apply cursor notes []
  rw [marks, ran]
  rfl

/-- The marks of every rule are balanced at the depth where it starts. -/
lemma Construct.balanced (construct : Construct) (sink : Sink σ) (levels : Nat) (cursor : Cursor)
    (notes : Notes σ) : Balanced notes.depth (construct.marks sink levels cursor notes) := by
  obtain ⟨new, balanced, ran⟩ := (construct.watches sink levels).apply cursor notes []
  rw [marks, ran]
  exact balanced

end ExprOpt.Grammar
