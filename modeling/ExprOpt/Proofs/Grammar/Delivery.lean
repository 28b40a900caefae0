import ExprOpt.Proofs.Grammar.Phrase
import ExprOpt.Proofs.Grammar.Steadiness

/-!
# Rules that must succeed

A rule that stands before the right text fails for one reason only: the sink is full. `Delivers` is the
outcome of such a rule. Either it succeeds with a cursor at the given rest and as many nodes handed over
as announced, or the sink has refused a node and there was no room for that many. It follows the
construction of a rule, over any sink that honours a `Contract`.
-/

namespace ExprOpt.Grammar

variable {σ α β : Type} {sink : Sink σ}

/-- What can be said of the states of a sink: which trees their handles stand for, and how many nodes
they still have room for. -/
structure Sink.Contract (sink : Sink σ) where
  Holds : σ → Option Handle → Tree Kind → Prop
  Room : σ → Nat → Prop
  holds_nil (nodes : σ) : Holds nodes none .nil
  room_le {nodes : σ} {j k : Nat} : j ≤ k → Room nodes k → Room nodes j
  /-- A node above known trees is taken if there is room for it, and only then. -/
  put {n : Node} {nodes : σ} {l r : Tree Kind} : Holds nodes n.left l → Holds nodes n.right r →
    (∃ h nodes', sink.put n nodes = some (h, nodes') ∧ Holds nodes' (some h) (.node n.kind l r) ∧
      (∀ g t, Holds nodes g t → Holds nodes' g t) ∧ (∀ k, Room nodes (1 + k) ↔ Room nodes' k) ∧
      Room nodes 1) ∨
    (sink.put n nodes = none ∧ ¬ Room nodes 1)

/-- The second notes are those after `k` more nodes. -/
structure Progress (C : sink.Contract) (notes : Notes σ) (k : Nat) (notes' : Notes σ) : Prop where
  depth : notes'.depth = notes.depth
  refused : notes'.refused = notes.refused
  holds : ∀ g t, C.Holds notes.nodes g t → C.Holds notes'.nodes g t
  room : ∀ j, C.Room notes.nodes (k + j) ↔ C.Room notes'.nodes j
  fits : k = 0 ∨ C.Room notes.nodes k

/-- The outcome of a rule that hands over `k` nodes and leaves `rest`, unless the sink runs full. -/
inductive Delivers (C : sink.Contract) (notes : Notes σ) (k : Nat) (rest : List Char)
    (Q : α → σ → Prop) : Option (α × Cursor) × Notes σ → Prop where
  | done {a offset notes'} :
    Progress C notes k notes' →
    Q a notes'.nodes →
    Delivers C notes k rest Q (some (a, ⟨offset, rest⟩), notes')
  | full {result notes'} :
    notes'.refused = true →
    ¬ C.Room notes.nodes k →
    Delivers C notes k rest Q (result, notes')

/-- The rule fails before this text, and only notes how far it came. -/
def Rule.Misses (r : Rule σ α) (text : List Char) : Prop :=
  ∀ (offset : Nat) (notes : Notes σ),
    ∃ furthest, r.apply ⟨offset, text⟩ notes = (none, { notes with furthest })

/-- The text does not begin with a character of the given kind. -/
def NotAhead (p : Char → Bool) (text : List Char) : Prop := ∀ c, text.head? = some c → p c = false

variable {C : sink.Contract} {notes notes' notes'' : Notes σ} {k j : Nat} {rest rest' : List Char}
  {Q : α → σ → Prop} {R : β → σ → Prop}

namespace Progress

/-- Where no node is handed over, the notes are as they were. -/
lemma refl (C : sink.Contract) (notes : Notes σ) : Progress C notes 0 notes where
  depth := rfl
  refused := rfl
  holds _ _ := id
  room j := by rw [Nat.zero_add]
  fits := .inl rfl

/-- Progress adds up. -/
lemma trans (p : Progress C notes k notes') (q : Progress C notes' j notes'') :
    Progress C notes (k + j) notes'' where
  depth := q.depth.trans p.depth
  refused := q.refused.trans p.refused
  holds g t h := q.holds g t (p.holds g t h)
  room i := by rw [Nat.add_assoc, p.room, q.room]
  fits := by
    rcases q.fits with rfl | room
    · exact p.fits
    · exact .inr ((p.room j).2 room)

end Progress

namespace Delivers

/-- How far the rule came before does not matter. -/
lemma of_furthest {furthest} {outcome : Option (α × Cursor) × Notes σ}
    (d : Delivers C { notes with furthest } k rest Q outcome) : Delivers C notes k rest Q outcome := by
  cases d with
  | done p q => exact .done ⟨p.depth, p.refused, p.holds, p.room, p.fits⟩ q
  | full refused short => exact .full refused short

/-- A constant rule hands over no node. -/
lemma pure {a : α} {offset : Nat} (q : Q a notes.nodes) :
    Delivers C notes 0 rest Q (Rule.apply (pure a) ⟨offset, rest⟩ notes) :=
  .done (.refl C notes) q

/-- The nodes of a sequence are those of its two rules. -/
lemma bind {r : Rule σ α} {f : α → Rule σ β} {cursor : Cursor}
    (first : Delivers C notes k rest Q (r.apply cursor notes)) (steady : ∀ a, (f a).Steady)
    (second : ∀ a offset notes', Progress C notes k notes' → Q a notes'.nodes →
      Delivers C notes' j rest' R ((f a).apply ⟨offset, rest⟩ notes')) :
    Delivers C notes (k + j) rest' R ((r >>= f).apply cursor notes) := by
  rw [Rule.apply_bind]
  generalize r.apply cursor notes = outcome at first
  cases first with
  | @done a offset notes' p q =>
    have last := second a offset notes' p q
    dsimp only
    generalize (f a).apply ⟨offset, rest⟩ notes' = outcome at last
    cases last with
    | done p' q' => exact .done (p.trans p') q'
    | full refused short => exact .full refused fun room => short ((p.room j).1 room)
  | @full result notes' refused short =>
    -- The second rule may still run, on a result of no use, but the refusal stays on the notes.
    have short' : ¬ C.Room notes.nodes (k + j) := fun room =>
      short (C.room_le (Nat.le_add_right k j) room)
    match result with
    | none => exact .full refused short'
    | some (a, cursor') => exact .full ((steady a cursor' notes').refused refused) short'

/-- The first alternative is taken if it must succeed. -/
lemma orElse_left {r t : Rule σ α} {cursor : Cursor}
    (d : Delivers C notes k rest Q (r.apply cursor notes)) (steady : t.Steady) :
    Delivers C notes k rest Q ((r <|> t).apply cursor notes) := by
  rw [Rule.apply_orElse]
  generalize r.apply cursor notes = outcome at d
  cases d with
  | done p q => exact .done p q
  | @full result notes' refused short =>
    match result with
    | none => exact .full ((steady cursor notes').refused refused) short
    | some result => exact .full refused short

/-- The second alternative is taken if the first one fails. -/
lemma orElse_right {r t : Rule σ α} {text : List Char} {offset : Nat} (misses : r.Misses text)
    (d : ∀ furthest, Delivers C { notes with furthest } k rest Q
      (t.apply ⟨offset, text⟩ { notes with furthest })) :
    Delivers C notes k rest Q ((r <|> t).apply ⟨offset, text⟩ notes) := by
  obtain ⟨furthest, ran⟩ := misses offset notes
  rw [Rule.apply_orElse, ran]
  exact (d furthest).of_furthest

/-- A node above known trees is one node. -/
lemma emit {n : Node} {l r : Tree Kind} {offset : Nat} (hl : C.Holds notes.nodes n.left l)
    (hr : C.Holds notes.nodes n.right r) :
    Delivers C notes 1 rest (fun h nodes => C.Holds nodes (some h) (.node n.kind l r))
      ((Rule.emit sink n).apply ⟨offset, rest⟩ notes) := by
  rw [Rule.apply_emit]
  rcases C.put hl hr with ⟨h, nodes', taken, held, holds, room, fits⟩ | ⟨taken, short⟩
  · rw [taken]
    exact .done ⟨rfl, rfl, holds, room, .inr fits⟩ held
  · rw [taken]
    exact .full rfl short

end Delivers

namespace Rule.Misses

variable {r t : Rule σ α} {f : α → Rule σ β} {text : List Char}

/-- What follows a rule that fails is not tried. -/
lemma bind (misses : r.Misses text) : (r >>= f).Misses text := by
  intro offset notes
  obtain ⟨furthest, ran⟩ := misses offset notes
  exact ⟨furthest, by rw [apply_bind, ran]⟩

/-- Alternatives that all fail come to nothing. -/
lemma orElse (first : r.Misses text) (second : t.Misses text) : (r <|> t).Misses text := by
  intro offset notes
  obtain ⟨furthest, ran⟩ := first offset notes
  obtain ⟨furthest', ran'⟩ := second offset { notes with furthest }
  refine ⟨furthest', ?_⟩
  rw [apply_orElse, ran]
  exact ran'

/-- A character is missed where none of its kind stands. -/
lemma one {p : Char → Bool} {what : Expected} (other : NotAhead p text) :
    Misses (one p what : Rule σ Char) text := by
  intro offset notes
  rw [apply_one]
  cases text with
  | nil => exact ⟨_, rfl⟩
  | cons c text => exact ⟨_, (if_neg (Bool.eq_false_iff.1 (other c rfl))).trans rfl⟩

/-- A sign is missed where another character stands. -/
lemma symbol {c : Char} {what : Expected} (other : text.head? ≠ some c) :
    Misses (symbol c what : Rule σ Unit) text := by
  refine bind (one fun d ahead => decide_eq_false ?_)
  rintro rfl
  exact other ahead

end Rule.Misses

end ExprOpt.Grammar
