import ExprOpt.Proofs.Appending
import ExprOpt.Proofs.Grammar.Steadiness

/-!
# What holds of all rules

The grammar is put together from a handful of basic rules by sequence and alternative. A property of
rules that the basic ones have and that these two keep is `Pervasive`, and then whole expressions have it
(`Pervasive.expression`), on any text and whether they are read or not. The typical case is a relation
between the notes before a rule and those after it (`Pervasive.of_steps`).
-/

namespace ExprOpt.Grammar

variable {σ α β : Type} {sink : Sink σ}

/-- A property that the basic rules have and that sequences and alternatives inherit. All nodes that are
ever handed over are well-formed. -/
structure Pervasive (sink : Sink σ) (P : (α : Type) → Rule σ α → Prop) : Prop where
  pure : ∀ {α : Type} (a : α), P α (pure a)
  failure : ∀ {α : Type}, P α failure
  bind : ∀ {α β : Type} {r : Rule σ α} {f : α → Rule σ β}, P α r → (∀ a, P β (f a)) → P β (r >>= f)
  orElse : ∀ {α : Type} {r t : Rule σ α}, P α r → P α t → P α (r <|> t)
  look : P Cursor get
  move : ∀ cursor : Cursor, P PUnit (set cursor)
  note : ∀ what, P Unit (Rule.note what)
  descend : P Unit descend
  ascend : P Unit ascend
  emit : ∀ n : Node, n.WellFormed → P Handle (Rule.emit sink n)

namespace Pervasive

variable {P : (α : Type) → Rule σ α → Prop}

/-! ### Combinators -/

/-- To lack something is to note it and to fail. -/
lemma lack (p : Pervasive sink P) (what : Expected) : P α (Rule.lack what) :=
  p.bind (p.note what) fun _ => p.failure

/-- A run of characters is read by moving the cursor. -/
lemma span (p : Pervasive sink P) (q : Char → Bool) : P (List Char) (Rule.span q) :=
  p.bind p.look fun _ => p.bind (p.move _) fun _ => p.pure _

/-- A single character is read by moving the cursor, or is lacking. -/
lemma one (p : Pervasive sink P) (q : Char → Bool) (what : Expected) : P Char (Rule.one q what) := by
  refine p.bind p.look fun cursor => ?_
  split
  · split
    · exact p.bind (p.move _) fun _ => p.pure _
    · exact p.lack what
  · exact p.lack what

/-- A sign is a single character. -/
lemma symbol (p : Pervasive sink P) (c : Char) (what : Expected) : P Unit (Rule.symbol c what) :=
  p.bind (p.one _ what) fun _ => p.pure ()

/-- The end of the text is seen by a look at the cursor. -/
lemma done (p : Pervasive sink P) : P Unit Rule.done := by
  refine p.bind p.look fun cursor => ?_
  split
  · exact p.pure ()
  · exact p.lack _

/-- What is optional is an alternative to nothing. -/
lemma optional (p : Pervasive sink P) {r : Rule σ α} (hr : P α r) : P (Option α) (Rule.optional r) := by
  rw [Rule.optional, ← bind_pure_comp]
  exact p.orElse (p.bind hr fun a => p.pure (some a)) (p.pure none)

/-- A bounded repetition is a sequence, or nothing, as often as the bound allows. -/
lemma upTo (p : Pervasive sink P) {r : Rule σ α} (hr : P α r) (count : Nat) :
    P (List α) (Rule.upTo count r) := by
  induction count with
  | zero => exact p.pure []
  | succ count ih =>
    exact p.orElse (p.bind hr fun a => p.bind ih fun as => p.pure (a :: as)) (p.pure [])

/-- A repetition is bounded by the length of the text. -/
lemma many (p : Pervasive sink P) {r : Rule σ α} (hr : P α r) : P (List α) (Rule.many r) :=
  p.bind p.look fun _ => p.upTo hr _

/-! ### Expressions -/

/-- Blanks are a run of characters. -/
lemma blanks (p : Pervasive sink P) : P Unit blanks := p.bind (p.span _) fun _ => p.pure ()

/-- A level is entered and left around what is optional in it. -/
lemma nested (p : Pervasive sink P) {r : Rule σ α} (hr : P α r) : P (Option α) (nested r) :=
  p.bind p.descend fun _ => p.bind (p.optional hr) fun a => p.bind p.ascend fun _ => p.pure a

/-- A variable is a letter and a leaf. -/
lemma letter (p : Pervasive sink P) : P Handle (letter sink) :=
  p.bind (p.one _ _) fun c => p.emit _ (Node.wellFormed_var c)

/-- A constant is a run of digits and a leaf, unless it lacks a digit or is too large. -/
lemma number (p : Pervasive sink P) : P Handle (number sink) := by
  refine p.bind (p.span _) fun digits => p.bind (p.note _) fun _ => ?_
  split
  · exact p.failure
  · split
    · exact p.emit _ (Node.wellFormed_const _)
    · exact p.lack _

/-- Parentheses are a level between two signs. -/
lemma parenthesized (p : Pervasive sink P) {inner : Rule σ Handle} (hi : P Handle inner) :
    P Handle (parenthesized inner) := by
  refine p.bind (p.symbol _ _) fun _ => p.bind (p.nested hi) fun inside =>
    p.bind p.blanks fun _ => p.bind (p.symbol _ _) fun _ => ?_
  cases inside with
  | none => exact p.lack _
  | some h => exact p.pure h

/-- A negation is a sign, a level and a node above it. -/
lemma negated (p : Pervasive sink P) {inner : Rule σ Handle} (hi : P Handle inner) :
    P Handle (negated sink inner) := by
  refine p.bind (p.symbol _ _) fun _ => p.bind (p.nested hi) fun inside => ?_
  cases inside with
  | none => exact p.lack _
  | some h => exact p.emit _ (Node.wellFormed_negation h)

/-- To link a series is to hand over its operators one after the other. -/
lemma link (p : Pervasive sink P) (first : Handle) (rest : List (Op × Handle)) :
    P Handle (link sink first rest) := by
  induction rest generalizing first with
  | nil => exact p.pure first
  | cons next rest ih => exact p.bind (p.emit _ (Node.wellFormed_binary _ _ _)) fun h => ih h

/-- An item is an operator and an operand in sequence. -/
lemma item (p : Pervasive sink P) {op : Rule σ Op} {operand : Rule σ Handle} (ho : P Op op)
    (hr : P Handle operand) : P (Op × Handle) (item op operand) :=
  p.bind p.blanks fun _ => p.bind ho fun _ => p.bind hr fun _ => p.pure _

/-- A series is an operand and its items, linked. -/
lemma series (p : Pervasive sink P) {op : Rule σ Op} {operand : Rule σ Handle} (ho : P Op op)
    (hr : P Handle operand) : P Handle (series sink op operand) :=
  p.bind hr fun first => p.bind (p.many (p.item ho hr)) fun rest => p.link first rest

/-- An operator is one of two signs. -/
lemma either (p : Pervasive sink P) {c c' : Char} {what what' : Expected} {o o' : Op} :
    P Op (either c what o c' what' o') :=
  p.orElse (p.bind (p.symbol _ _) fun _ => p.pure _) (p.bind (p.symbol _ _) fun _ => p.pure _)

/-- Products are a series. -/
lemma product (p : Pervasive sink P) {factor : Rule σ Handle} (h : P Handle factor) :
    P Handle (product sink factor) :=
  p.series p.either h

/-- Sums are a series of products. -/
lemma sum (p : Pervasive sink P) {factor : Rule σ Handle} (h : P Handle factor) :
    P Handle (sum sink factor) :=
  p.series p.either (p.product h)

/-- Factors are alternatives over factors with a level less, by induction on the levels. -/
lemma factor (p : Pervasive sink P) (levels : Nat) : P Handle (factor sink levels) := by
  induction levels with
  | zero => exact p.failure
  | succ levels ih =>
    exact p.bind p.blanks fun _ => p.orElse p.letter <| p.orElse p.number <|
      p.orElse (p.parenthesized (p.sum ih)) (p.negated ih)

/-- What is pervasive holds of the rule for whole texts. -/
theorem expression (p : Pervasive sink P) : P Handle (expression sink) :=
  p.bind (p.sum (p.factor _)) fun h => p.bind p.blanks fun _ => p.bind p.done fun _ => p.pure h

end Pervasive

/-- A relation between notes that single steps of reading keep is kept by every rule, whether it
succeeds or fails. The steps are: to count levels and to record how far the text was read, to hand over a
node, and to have a node refused. -/
lemma Pervasive.of_steps {R : Notes σ → Notes σ → Prop} (refl : ∀ notes, R notes notes)
    (trans : ∀ a b c, R a b → R b c → R a c)
    (aside : ∀ notes depth furthest, R notes { notes with depth, furthest })
    (taken : ∀ notes n h nodes, n.WellFormed → sink.put n notes.nodes = some (h, nodes) →
      R notes { notes with nodes })
    (refused : ∀ notes n, sink.put n notes.nodes = none → R notes { notes with refused := true }) :
    Pervasive sink fun _ r => ∀ cursor notes, R notes (Rule.apply r cursor notes).2 where
  pure _ _ notes := refl notes
  failure _ notes := refl notes
  bind {_ _ r f} hr hf cursor notes := by
    have first := hr cursor notes
    rw [Rule.apply_bind]
    rcases e : Rule.apply r cursor notes with ⟨_ | ⟨a, cursor'⟩, notes'⟩ <;> rw [e] at first
    · exact first
    · exact trans _ _ _ first (hf a cursor' notes')
  orElse {_ r t} hr ht cursor notes := by
    have first := hr cursor notes
    rw [Rule.apply_orElse]
    rcases e : Rule.apply r cursor notes with ⟨_ | result, notes'⟩ <;> rw [e] at first
    · exact trans _ _ _ first (ht cursor notes')
    · exact first
  look _ notes := refl notes
  move _ _ notes := refl notes
  note what _ notes := aside notes notes.depth _
  descend cursor notes := by
    rw [apply_descend]
    split
    · exact aside notes _ notes.furthest
    · exact aside notes notes.depth _
  ascend _ notes := aside notes _ notes.furthest
  emit n w cursor notes := by
    rw [Rule.apply_emit]
    split
    · exact taken notes n _ _ w ‹_›
    · exact refused notes n ‹_›

end ExprOpt.Grammar
