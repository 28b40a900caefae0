import ExprOpt.Grammar.Expression
import Mathlib.Tactic.Common

/-!
# What every rule does to its notes

The outcomes of the basic rules, and two facts about the notes that hold however a rule of the grammar
ends: it leaves as many levels as it enters, and it does not take back that the sink refused a node.
-/

namespace ExprOpt.Grammar

variable {σ α β : Type}

/-- The second notes are as deep as the first, and a refusal on the first is still on the second. -/
structure Notes.Leads (notes notes' : Notes σ) : Prop where
  depth : notes'.depth = notes.depth
  refused : notes.refused = true → notes'.refused = true

namespace Notes.Leads

/-- Notes lead to themselves. -/
lemma refl (notes : Notes σ) : notes.Leads notes := ⟨rfl, id⟩

/-- What follows from later notes follows from earlier ones. -/
lemma trans {a b c : Notes σ} (ab : a.Leads b) (bc : b.Leads c) : a.Leads c :=
  ⟨bc.depth.trans ab.depth, bc.refused ∘ ab.refused⟩

end Notes.Leads

namespace Rule

/-! ### Outcomes -/

/-- A look at the cursor moves nothing. -/
lemma apply_get_bind (f : Cursor → Rule σ β) (cursor : Cursor) (notes : Notes σ) :
    apply (get >>= f) cursor notes = apply (f cursor) cursor notes := rfl

/-- A look at the notes changes nothing. -/
lemma apply_getNotes_bind (f : Notes σ → Rule σ β) (cursor : Cursor) (notes : Notes σ) :
    apply (getThe (Notes σ) >>= f) cursor notes = apply (f notes) cursor notes := rfl

/-- A sequence succeeds if both of its rules do. -/
lemma apply_bind_eq_some {r : Rule σ α} {f : α → Rule σ β} {b : β} {cursor cursor' : Cursor}
    {notes notes' : Notes σ} : apply (r >>= f) cursor notes = (some (b, cursor'), notes') ↔
      ∃ a between notes'', apply r cursor notes = (some (a, between), notes'') ∧
        apply (f a) between notes'' = (some (b, cursor'), notes') := by
  rw [apply_bind]
  rcases apply r cursor notes with ⟨_ | ⟨a, between⟩, notes''⟩ <;> simp

/-- A note is added at the cursor, which stays. -/
@[simp] lemma apply_note (what : Expected) (cursor : Cursor) (notes : Notes σ) :
    apply (note what) cursor notes =
      (some ((), cursor), { notes with furthest := notes.furthest.record cursor.offset what }) := rfl

/-- All characters that fit are read, even if there are none. -/
@[simp] lemma apply_span (p : Char → Bool) (cursor : Cursor) (notes : Notes σ) :
    apply (span p) cursor notes =
      (some (cursor.rest.takeWhile p,
        ⟨cursor.offset + (cursor.rest.takeWhile p).length, cursor.rest.dropWhile p⟩), notes) := rfl

/-- One character is read if it is the next one and fits. -/
lemma apply_one (p : Char → Bool) (what : Expected) (cursor : Cursor) (notes : Notes σ) :
    apply (one p what) cursor notes =
      match cursor.rest with
      | c :: rest =>
        if p c then (some (c, ⟨cursor.offset + 1, rest⟩), notes)
        else apply (lack what) cursor notes
      | [] => apply (lack what) cursor notes := by
  obtain ⟨offset, _ | ⟨c, rest⟩⟩ := cursor
  · rfl
  · rw [one, apply_get_bind]
    by_cases fits : p c
    · simp only [if_pos fits]
      rfl
    · simp only [if_neg fits]

/-- The end of the text is found where nothing is left. -/
lemma apply_done (cursor : Cursor) (notes : Notes σ) :
    apply (done : Rule σ Unit) cursor notes =
      match cursor.rest with
      | [] => (some ((), cursor), notes)
      | _ :: _ => apply (lack .endOfInput) cursor notes := by
  obtain ⟨offset, _ | ⟨c, rest⟩⟩ := cursor <;> rfl

/-- An optional rule succeeds in any case. -/
lemma apply_optional (r : Rule σ α) (cursor : Cursor) (notes : Notes σ) :
    apply (optional r) cursor notes =
      match apply r cursor notes with
      | (some (a, cursor'), notes') => (some (some a, cursor'), notes')
      | (none, notes') => (some (none, cursor), notes') := by
  simp only [optional, apply_orElse, ← bind_pure_comp, apply_bind]
  rcases apply r cursor notes with ⟨_ | ⟨a, cursor'⟩, notes'⟩ <;> rfl

/-- A node is handed over if the sink takes it. -/
lemma apply_emit (sink : Sink σ) (n : Node) (cursor : Cursor) (notes : Notes σ) :
    apply (emit sink n) cursor notes =
      match sink.put n notes.nodes with
      | some (h, nodes) => (some (h, cursor), { notes with nodes })
      | none => (none, { notes with refused := true }) := by
  rw [emit, apply_getNotes_bind]
  cases sink.put n notes.nodes <;> rfl

end Rule

/-- A level is entered unless it is too deep. -/
lemma apply_descend (cursor : Cursor) (notes : Notes σ) :
    Rule.apply descend cursor notes =
      if notes.depth < nestingLimit then (some ((), cursor), { notes with depth := notes.depth + 1 })
      else Rule.apply (Rule.lack .shallowerNesting) cursor notes := by
  rw [descend, Rule.apply_getNotes_bind]
  by_cases shallow : notes.depth < nestingLimit
  · rw [if_pos shallow, if_pos shallow]
    rfl
  · rw [if_neg shallow, if_neg shallow]

/-- What is found one level deeper. -/
lemma apply_nested {r : Rule σ α} {cursor : Cursor} {notes : Notes σ} :
    (nested r).apply cursor notes =
      if notes.depth < nestingLimit then
        match r.apply cursor { notes with depth := notes.depth + 1 } with
        | (some (a, cursor'), notes') =>
          (some (some a, cursor'), { notes' with depth := notes'.depth - 1 })
        | (none, notes') => (some (none, cursor), { notes' with depth := notes'.depth - 1 })
      else Rule.apply (Rule.lack .shallowerNesting) cursor notes := by
  rw [nested, Rule.apply_bind, apply_descend]
  split_ifs
  · simp only [Rule.apply_bind, Rule.apply_optional]
    rcases r.apply cursor { notes with depth := notes.depth + 1 } with ⟨_ | ⟨a, cursor'⟩, notes'⟩ <;> rfl
  · rfl

/-! ### Steady rules -/

/-- A rule whose notes lead to those it leaves behind, whether it succeeds or fails. -/
def Rule.Steady (r : Rule σ α) : Prop :=
  ∀ (cursor : Cursor) (notes : Notes σ), notes.Leads (r.apply cursor notes).2

namespace Rule.Steady

/-- A constant rule leaves the notes alone. -/
lemma pure (a : α) : Steady (pure a : Rule σ α) := fun _ notes => .refl notes

/-- Failing on its own leaves the notes alone. -/
lemma failure : Steady (failure : Rule σ α) := fun _ notes => .refl notes

/-- A note concerns neither the depth nor the sink. -/
lemma note (what : Expected) : Steady (note what : Rule σ Unit) := fun _ _ => ⟨rfl, id⟩

/-- To lack something is only noted. -/
lemma lack (what : Expected) : Steady (lack what : Rule σ α) := fun _ _ => ⟨rfl, id⟩

/-- Reading a run of characters leaves the notes alone. -/
lemma span (p : Char → Bool) : Steady (span p : Rule σ (List Char)) := fun _ notes => .refl notes

/-- A sequence is steady if its rules are, whether the second one is tried or not. -/
lemma bind {r : Rule σ α} {f : α → Rule σ β} (hr : r.Steady) (hf : ∀ a, (f a).Steady) :
    (r >>= f).Steady := by
  intro cursor notes
  have first := hr cursor notes
  rw [apply_bind]
  rcases e : apply r cursor notes with ⟨_ | ⟨a, cursor'⟩, notes'⟩ <;> rw [e] at first
  · exact first
  · exact first.trans (hf a cursor' notes')

/-- Alternatives are steady one after the other. -/
lemma orElse {r t : Rule σ α} (hr : r.Steady) (ht : t.Steady) : (r <|> t).Steady := by
  intro cursor notes
  have first := hr cursor notes
  rw [apply_orElse]
  rcases e : apply r cursor notes with ⟨_ | result, notes'⟩ <;> rw [e] at first
  · exact first.trans (ht cursor notes')
  · exact first

/-- A single character is read or lacking. -/
lemma one (p : Char → Bool) (what : Expected) : Steady (one p what : Rule σ Char) := by
  intro cursor notes
  rw [apply_one]
  split
  · split
    · exact .refl notes
    · exact lack what cursor notes
  · exact lack what cursor notes

/-- A sign is a single character. -/
lemma symbol (c : Char) (what : Expected) : Steady (symbol c what : Rule σ Unit) :=
  (one _ what).bind fun _ => pure ()

/-- The end of the text is found or lacking. -/
lemma done : Steady (done : Rule σ Unit) := by
  intro cursor notes
  rw [apply_done]
  split
  · exact .refl notes
  · exact lack _ cursor notes

/-- A bounded repetition is steady if its rule is. -/
lemma upTo {r : Rule σ α} (hr : r.Steady) (count : Nat) : (upTo count r).Steady := by
  induction count with
  | zero => exact pure []
  | succ count ih => exact (hr.bind fun a => ih.bind fun as => pure (a :: as)).orElse (pure [])

/-- A repetition has a bound. -/
lemma many {r : Rule σ α} (hr : r.Steady) : (many r).Steady :=
  fun cursor notes => hr.upTo _ cursor notes

/-- A node that is handed over or refused does not change the depth. -/
lemma emit (sink : Sink σ) (n : Node) : (emit sink n).Steady := by
  intro cursor notes
  rw [apply_emit]
  split
  · exact ⟨rfl, id⟩
  · exact ⟨rfl, fun _ => rfl⟩

end Rule.Steady

open Rule (Steady)

/-- Blanks are only skipped. -/
lemma steady_blanks : Steady (blanks : Rule σ Unit) := (Steady.span _).bind fun _ => .pure ()

/-- The level that is entered is left, however the rule on it ends. -/
lemma steady_nested {r : Rule σ α} (hr : r.Steady) : (nested r).Steady := by
  intro cursor notes
  have inner := hr cursor { notes with depth := notes.depth + 1 }
  rw [apply_nested]
  split_ifs
  · rcases e : r.apply cursor { notes with depth := notes.depth + 1 } with
      ⟨_ | ⟨a, cursor'⟩, notes'⟩ <;> rw [e] at inner
    all_goals exact ⟨Nat.sub_eq_of_eq_add inner.depth, inner.refused⟩
  · exact ⟨rfl, id⟩

/-- A variable stays at its level. -/
lemma steady_letter (sink : Sink σ) : (letter sink).Steady :=
  (Steady.one _ _).bind fun _ => .emit sink _

/-- A constant stays at its level. -/
lemma steady_number (sink : Sink σ) : (number sink).Steady := by
  refine (Steady.span _).bind fun digits => (Steady.note _).bind fun _ => ?_
  split_ifs
  · exact .failure
  · exact .emit sink _
  · exact .lack _

/-- The end of parentheses stays at its level, as their level has been left before. -/
lemma steady_closing (inside : Option Handle) : (closing inside : Rule σ Handle).Steady := by
  refine steady_blanks.bind fun _ => (Steady.symbol _ _).bind fun _ => ?_
  cases inside with
  | none => exact .lack _
  | some h => exact .pure h

/-- Parentheses leave the level that they enter. -/
lemma steady_parenthesized {inner : Rule σ Handle} (h : inner.Steady) :
    (parenthesized inner).Steady :=
  (Steady.symbol _ _).bind fun _ => (steady_nested h).bind steady_closing

/-- A negation leaves the level that it enters. -/
lemma steady_negated (sink : Sink σ) {inner : Rule σ Handle} (h : inner.Steady) :
    (negated sink inner).Steady := by
  refine (Steady.symbol _ _).bind fun _ => (steady_nested h).bind fun inside => ?_
  cases inside with
  | none => exact .lack _
  | some h => exact .emit sink _

/-- Linking a series hands over nodes at one level. -/
lemma steady_link (sink : Sink σ) (first : Handle) (rest : List (Op × Handle)) :
    (link sink first rest).Steady := by
  induction rest generalizing first with
  | nil => exact .pure first
  | cons item rest ih => exact (Steady.emit sink _).bind fun h => ih h

/-- An operator and the operand on its right. -/
def item (op : Rule σ Op) (operand : Rule σ Handle) : Rule σ (Op × Handle) := do
  blanks
  let o ← op
  let right ← operand
  return (o, right)

/-- An item is a sequence. -/
lemma steady_item {op : Rule σ Op} {operand : Rule σ Handle} (ho : op.Steady) (hr : operand.Steady) :
    (item op operand).Steady :=
  steady_blanks.bind fun _ => ho.bind fun o => hr.bind fun right => .pure (o, right)

/-- A series is a sequence over its items. -/
lemma steady_series (sink : Sink σ) {op : Rule σ Op} {operand : Rule σ Handle} (ho : op.Steady)
    (hr : operand.Steady) : (series sink op operand).Steady :=
  hr.bind fun first => (steady_item ho hr).many.bind fun rest => steady_link sink first rest

/-- One of two signs. -/
def either (c : Char) (what : Expected) (o : Op) (c' : Char) (what' : Expected) (o' : Op) : Rule σ Op :=
  (do Rule.symbol c what; return o) <|> (do Rule.symbol c' what'; return o')

/-- An operator is one of two signs. -/
lemma steady_either {c c' : Char} {what what' : Expected} {o o' : Op} :
    (either c what o c' what' o' : Rule σ Op).Steady :=
  ((Steady.symbol _ _).bind fun _ => .pure _).orElse ((Steady.symbol _ _).bind fun _ => .pure _)

/-- Products are a series. -/
lemma steady_product (sink : Sink σ) {factor : Rule σ Handle} (h : factor.Steady) :
    (product sink factor).Steady :=
  steady_series sink steady_either h

/-- Sums are a series of products. -/
lemma steady_sum (sink : Sink σ) {factor : Rule σ Handle} (h : factor.Steady) :
    (sum sink factor).Steady :=
  steady_series sink steady_either (steady_product sink h)

/-- Factors are steady, by induction on the levels. -/
lemma steady_factor (sink : Sink σ) (levels : Nat) : (factor sink levels).Steady := by
  induction levels with
  | zero => exact .failure
  | succ levels ih =>
    exact steady_blanks.bind fun _ => (steady_letter sink).orElse <| (steady_number sink).orElse <|
      (steady_parenthesized (steady_sum sink ih)).orElse (steady_negated sink ih)

end ExprOpt.Grammar
