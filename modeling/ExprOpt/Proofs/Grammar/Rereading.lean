import ExprOpt.Proofs.Grammar.Refusal
import ExprOpt.Proofs.Grammar.Tandem

/-!
# Reading a text again

A text that cannot be read is read once more to find out what is wrong with it, with the nodes that are
left over from the first time. The sink may refuse a node then that it took before. But the rule that
handed the node over has given up a whole operand, and the reading stands at the beginning of that operand
or before the sign in front of it. Neither a sign of another series nor a closing parenthesis nor the end
of the text is found there (`Paired`), so that everything around the operand fails as well. The text cannot
be read the second time, and no level is entered that was not entered the first time (`fails_again`).

If no node is refused the second time, both readings record the same failures. It is enough then to keep
only the furthest place from the first reading, and to collect what was looked for there in the second
(`Furthest.Alike.eq_of_restarts`).
-/

namespace ExprOpt

/-! ### Failures recorded again -/

namespace Furthest

variable {start start' f g : Furthest}

/-- The furthest failure never moves back. -/
lemma le_offset_record (f : Furthest) (offset : Nat) (what : Expected) :
    f.offset ≤ (f.record offset what).offset := by
  rw [record]
  split_ifs with before
  · exact before.le
  · exact le_rfl
  · exact le_rfl

/-- However many failures are recorded, the furthest one never moves back. -/
lemma le_offset_after (f : Furthest) (failures : List (Nat × Expected)) :
    f.offset ≤ (f.after failures).offset := by
  induction failures generalizing f with
  | nil => exact le_rfl
  | cons failure failures ih => exact (f.le_offset_record _ _).trans (ih _)

/-- What is on record for a place that is no earlier. -/
def keptAt (f : Furthest) (place : Nat) : Furthest := ⟨place, if f.offset = place then f.expected else []⟩

/-- A failure that is no further than the place counts in the same way if only the place does. -/
lemma record_keptAt {offset place : Nat} {what : Expected} (le : (f.record offset what).offset ≤ place) :
    (f.keptAt place).record offset what = (f.record offset what).keptAt place := by
  grind [record, keptAt]

/-- Failures that come no further than the place count in the same way if only the place does. -/
lemma after_keptAt {place : Nat} {failures : List (Nat × Expected)}
    (le : (f.after failures).offset ≤ place) :
    (f.keptAt place).after failures = (f.after failures).keptAt place := by
  induction failures generalizing f with
  | nil => rfl
  | cons failure failures ih =>
    have sooner := ((f.record failure.1 failure.2).le_offset_after failures).trans le
    have step := record_keptAt sooner
    calc (f.keptAt place).after (failure :: failures)
        = ((f.keptAt place).record failure.1 failure.2).after failures := rfl
      _ = ((f.record failure.1 failure.2).keptAt place).after failures := by rw [step]
      _ = (f.after (failure :: failures)).keptAt place := ih le

/-- What is on record when the text is read again, where it was `start` the first time and `f` in the end.
It is the same as then, or only the furthest place is kept, to collect what was looked for there. -/
def Restarts (start' start f : Furthest) : Prop :=
  start' = start ∨ (start.expected = [] ∧ start' = ⟨f.offset, []⟩)

/-- The same failures come to the same from the same start. -/
lemma Alike.eq (alike : Alike start start f g) : f = g := by
  obtain ⟨failures, rfl, rfl⟩ := alike
  rfl

/-- The failures that are recorded again come to the same. -/
lemma Alike.eq_of_restarts (alike : Alike start start' f g) (restarts : start'.Restarts start f) :
    g = f := by
  rcases restarts with rfl | ⟨nothing, rfl⟩
  · exact alike.eq.symm
  · obtain ⟨failures, rfl, rfl⟩ := alike
    have kept := after_keptAt (le_refl (start.after failures).offset)
    simpa [keptAt, nothing] using kept

end Furthest

namespace Grammar

variable {σ ρ α β : Type}

section

variable {sink : Sink σ} {sink' : Sink ρ} {bond : Bond σ ρ} {a : Notes (Watched σ)}
  {b : Notes (Watched ρ)} {cursor : Cursor}

/-! ### Operands in tandem -/

/-- The next token begins with one of these characters. -/
def Before (stops : List Char) (cursor : Cursor) : Prop := ∃ x ∈ stops, cursor.next? = some x

/-- More characters may be allowed for. -/
lemma Before.mono {stops stops' : List Char} (before : Before stops cursor) (more : stops ⊆ stops') :
    Before stops' cursor := by
  obtain ⟨x, mem, next⟩ := before
  exact ⟨x, more mem, next⟩

/-- Rules that read in tandem where an operand has to come. They fail before a closing parenthesis, and
if the second reading has stopped then before one of the given characters. -/
structure Paired (sink' : Sink ρ) (bond : Bond σ ρ) (stops : List Char)
    (r : Rule (Watched σ) Handle) (r' : Rule (Watched ρ) Handle) : Prop where
  watched : ∃ plain, Watches r plain
  apply : ∀ cursor a b, InStep bond a b → Tandem sink' bond (fun _ _ => True) (cursor.next? ≠ some ')')
    (fun _ => Before stops) (r.apply cursor a) (r'.apply cursor b)

section Factors

variable {stops : List Char} {r : Rule (Watched σ) Handle} {r' : Rule (Watched ρ) Handle}
  {rest : List Char} {c d : Char} {p : Char → Bool}

/-- Where the second reading has stopped one level deeper, no closing parenthesis follows. -/
lemma Paired.nested (paired : Paired sink' bond stops r r') (unclosed : ')' ∉ stops)
    (step : InStep bond a b) : Tandem sink' bond (fun o o' => o.isSome = o'.isSome) True
      (fun o cursor => cursor.next? ≠ some ')' ∧ (o.isSome → Before stops cursor))
      ((Watched.nested r).apply cursor a) ((Watched.nested r').apply cursor b) := by
  rw [Watched.apply_nested, Watched.apply_nested, step.depth]
  split_ifs
  · have inner := paired.apply cursor _ _ (step.enter cursor.offset)
    generalize r.apply cursor (a.enter cursor.offset) = out at inner
    generalize r'.apply cursor (b.enter cursor.offset) = out' at inner
    cases inner with
    | both _ _ step => exact .both trivial rfl (step.leave _)
    | neither step => exact .both trivial rfl (step.leave _)
    | apart begun halted stop =>
      have unread (w cursor) (e : out'.1 = some (w, cursor)) : cursor.next? ≠ some ')' := by
        obtain ⟨x, mem, next⟩ := stop w cursor e
        rintro closing
        cases next.symm.trans closing
        exact unclosed mem
      rcases out with ⟨_ | ⟨v, _⟩, a'⟩ <;> rcases out' with ⟨_ | ⟨w, cursor'⟩, b'⟩ <;>
        refine .apart trivial (halted.leave _ _) ?_ <;> rintro _ _ ⟨⟩
      · exact ⟨begun, nofun⟩
      · exact ⟨unread w cursor' rfl, fun _ => stop w cursor' rfl⟩
      · exact ⟨begun, nofun⟩
      · exact ⟨unread w cursor' rfl, fun _ => stop w cursor' rfl⟩
  · exact .lack _ (step.mark _ _)

/-- Both readings find the end of parentheses or neither does. -/
lemma tandem_closing {inside inside' : Option Handle} (same : inside.isSome = inside'.isSome)
    (step : InStep bond a b) : Tandem sink' bond (fun _ _ => True) True (fun _ _ => False)
      ((closing inside).apply cursor a) ((closing inside').apply cursor b) := by
  unfold closing
  rw [apply_blanks_bind, apply_blanks_bind]
  refine .bind (fun _ => ?_) (.symbol _ _ step) (fun _ _ cursor a b _ step => ?_) fun _ _ => False.elim
  · cases inside with
    | none => exact (Watches.lack _).adds
    | some h => exact (Watches.pure h).adds
  · cases inside <;> cases inside'
    · exact .lack _ step
    · cases same
    · cases same
    · exact .both trivial trivial step

/-- Parentheses are read to the closing one or not at all. -/
lemma Paired.parenthesized (paired : Paired sink' bond stops r r') (unclosed : ')' ∉ stops)
    (step : InStep bond a b) : Tandem sink' bond (fun _ _ => True) True (fun _ _ => False)
      ((Watched.parenthesized r).apply cursor a) ((Watched.parenthesized r').apply cursor b) := by
  obtain ⟨plain, watches⟩ := paired.watched
  refine .bind (fun _ => ?_) (.symbol _ _ step) (fun _ _ cursor a b _ step => ?_) fun _ _ => False.elim
  · exact (watches.nested.bind watches_closing).adds
  · refine .bind (fun inside => (watches_closing inside).adds) (paired.nested unclosed step)
      (fun _ _ _ _ _ same step => tandem_closing same step) fun inside cursor stop => ?_
    exact .blanks (.of_refuses (refuses_symbol stop.1).bind)

/-- A factor behind a minus is read to its end or not at all. -/
lemma Paired.negated (trails : Trails sink sink' bond) (paired : Paired sink' bond [] r r')
    (step : InStep bond a b) : Tandem sink' bond (fun _ _ => True) True (fun _ _ => False)
      ((Watched.negated sink r).apply cursor a) ((Watched.negated sink' r').apply cursor b) := by
  obtain ⟨plain, watches⟩ := paired.watched
  refine .bind (fun _ => ?_) (.symbol _ _ step) (fun _ _ cursor a b _ step => ?_) fun _ _ => False.elim
  · exact (watches.nested.bind (watches_negating sink)).adds
  · refine .bind (fun operand => (watches_negating sink operand).adds)
      (paired.nested List.not_mem_nil step) ?_ ?_
    · intro operand operand' cursor a b same step
      cases operand <;> cases operand'
      · exact .lack _ step
      · cases same
      · cases same
      · exact .emit trails _ _ step
    · intro operand cursor stop
      cases operand with
      | none =>
        have lacks : Refuses (negating sink'.watched none) cursor [.operand] := apply_lack _ cursor
        exact .of_refuses lacks
      | some h =>
        obtain ⟨x, mem, -⟩ := stop.2 rfl
        exact absurd mem List.not_mem_nil

/-- A variable is read in tandem. -/
lemma tandem_letter (trails : Trails sink sink' bond) (step : InStep bond a b) :
    Tandem sink' bond (fun _ _ => True) True (fun _ _ => False)
      ((letter sink.watched).apply cursor a) ((letter sink'.watched).apply cursor b) :=
  .bind (fun _ => (Watches.emit sink _).adds) (.one _ _ step)
    (fun _ _ _ _ _ _ step => .emit trails _ _ step) fun _ _ => False.elim

/-- A constant is read in tandem, and one that is too large is refused in both readings. -/
lemma tandem_number (trails : Trails sink sink' bond) (step : InStep bond a b) :
    Tandem sink' bond (fun _ _ => True) True (fun _ _ => False)
      ((number sink.watched).apply cursor a) ((number sink'.watched).apply cursor b) := by
  have noted := step.jots (cursor.offset + (cursor.rest.takeWhile Char.isDigit).length) [.digit]
  rw [number, number, Rule.apply_bind, Rule.apply_bind, Rule.apply_span, Rule.apply_span]
  dsimp only
  rw [Rule.apply_bind, Rule.apply_bind, Rule.apply_note, Rule.apply_note]
  dsimp only
  split_ifs
  · exact .neither noted
  · exact .emit trails _ _ noted
  · exact .lack _ noted

/-! The kind of a factor is known by the character that it begins with. -/

/-- A character of the given kind is ahead or it is not. -/
lemma ahead_or (p : Char → Bool) (rest : List Char) :
    (∃ c, rest.head? = some c ∧ p c) ∨ NotAhead p rest := by
  by_cases ahead : ∃ c, rest.head? = some c ∧ p c
  · exact .inl ahead
  · exact .inr fun c e => Bool.eq_false_iff.2 fun yes => ahead ⟨c, e, yes⟩

/-- A character that is not of the kind of the one ahead is not ahead. -/
lemma head?_ne (ahead : rest.head? = some c) (yes : p c) (no : p d = false) : rest.head? ≠ some d := by
  intro e
  cases ahead.symm.trans e
  cases no.symm.trans yes

/-- No digit is ahead where a letter is. -/
lemma notAhead_isDigit (ahead : rest.head? = some c) (alpha : c.isAlpha) : NotAhead Char.isDigit rest := by
  intro d e
  cases ahead.symm.trans e
  refine Bool.eq_false_iff.2 fun digit => ?_
  cases (isAlpha_of_isDigit c digit).symm.trans alpha

/-- Neither parentheses nor a negation can begin with another character. -/
lemma refuses_enclosed {inner : Rule (Watched σ) Handle} (notOpening : cursor.rest.head? ≠ some '(')
    (notMinus : cursor.rest.head? ≠ some '-') :
    Refuses (Watched.parenthesized inner <|> Watched.negated sink r) cursor [.openParen, .minus] :=
  (refuses_parenthesizedBy notOpening).orElse (refuses_negatedBy notMinus)

/-- Only one of the alternatives is ever begun. -/
lemma Paired.operand {inner : Rule (Watched σ) Handle} {inner' : Rule (Watched ρ) Handle}
    (trails : Trails sink sink' bond) (sums : Paired sink' bond stops inner inner')
    (unclosed : ')' ∉ stops) (factors : Paired sink' bond [] r r') (step : InStep bond a b) :
    Tandem sink' bond (fun _ _ => True) (cursor.rest.head? ≠ some ')') (fun _ => Before [])
      ((letter sink.watched <|> number sink.watched <|> Watched.parenthesized inner <|>
        Watched.negated sink r).apply cursor a)
      ((letter sink'.watched <|> number sink'.watched <|> Watched.parenthesized inner' <|>
        Watched.negated sink' r').apply cursor b) := by
  obtain ⟨_, watchesSum⟩ := sums.watched
  obtain ⟨_, watchesFactor⟩ := factors.watched
  have minus := watches_negated sink watchesFactor
  have enclosed := (watches_parenthesized watchesSum).orElse minus
  have notLetter := (watches_number sink).orElse enclosed
  have begun {out out'} (other : cursor.rest.head? ≠ some ')')
      (tandem : Tandem sink' bond (fun _ _ => True) True (fun _ _ => False) out out') :
      Tandem sink' bond (fun _ _ : Handle => True) (cursor.rest.head? ≠ some ')') (fun _ => Before [])
        out out' :=
    tandem.weaken (fun _ => other) fun _ _ => False.elim
  rcases ahead_or Char.isAlpha cursor.rest with ⟨c, ahead, alpha⟩ | alpha
  · have notDigit := notAhead_isDigit ahead alpha
    have notOpening : cursor.rest.head? ≠ some '(' := head?_ne ahead alpha rfl
    have notMinus : cursor.rest.head? ≠ some '-' := head?_ne ahead alpha rfl
    exact begun (head?_ne ahead alpha rfl) <| .orElse_left notLetter.adds (tandem_letter trails step)
      ((refuses_number notDigit).orElse (refuses_enclosed notOpening notMinus))
      ((refuses_number notDigit).orElse (refuses_enclosed notOpening notMinus))
  refine .orElse_right (refuses_letter alpha) (refuses_letter alpha) (fun a b step => ?_) step
  rcases ahead_or Char.isDigit cursor.rest with ⟨c, ahead, digit⟩ | digit
  · have notOpening : cursor.rest.head? ≠ some '(' := head?_ne ahead digit rfl
    have notMinus : cursor.rest.head? ≠ some '-' := head?_ne ahead digit rfl
    exact begun (head?_ne ahead digit rfl) <| .orElse_left enclosed.adds (tandem_number trails step)
      (refuses_enclosed notOpening notMinus) (refuses_enclosed notOpening notMinus)
  refine .orElse_right (refuses_number digit) (refuses_number digit) (fun a b step => ?_) step
  by_cases opening : cursor.rest.head? = some '('
  · have notMinus : cursor.rest.head? ≠ some '-' := by simp [opening]
    exact begun (by simp [opening]) <| .orElse_left minus.adds (sums.parenthesized unclosed step)
      (refuses_negatedBy notMinus) (refuses_negatedBy notMinus)
  refine .orElse_right (refuses_parenthesizedBy opening) (refuses_parenthesizedBy opening)
    (fun a b step => ?_) step
  by_cases sign : cursor.rest.head? = some '-'
  · exact begun (by simp [sign]) (factors.negated trails step)
  · exact .of_refuses (refuses_negatedBy sign) (refuses_negatedBy sign) step

end Factors

/-! ### Series in tandem -/

section Series

variable {c c' : Char} {e e' : Expected} {o o' : Op} {stops : List Char}
  {r : Rule (Watched σ) Handle} {r' : Rule (Watched ρ) Handle}

/-- An item that has begun stands before a sign. -/
lemma Paired.item (paired : Paired sink' bond stops r r') (step : InStep bond a b) :
    Tandem sink' bond (fun _ _ => True) (Before [c, c'] cursor) (fun _ => Before stops)
      ((item (either c e o c' e' o') r).apply cursor a)
      ((item (either c e o c' e' o') r').apply cursor b) := by
  by_cases signed : Before [c, c'] cursor
  · obtain ⟨x, mem, next⟩ := signed
    obtain ⟨rest, ahead⟩ := Cursor.exists_rest next
    have skipped : cursor.skip = ⟨cursor.skip.offset, x :: rest⟩ := by rw [← ahead]
    have found : x = c ∨ x = c' := by simpa using mem
    have operand {a b cursor'} (op : Op) (step : InStep bond a b) : Tandem sink' bond (fun _ _ => True)
        (Before [c, c'] cursor) (fun _ => Before stops)
        (Rule.apply (do return (op, ← r)) cursor' a) (Rule.apply (do return (op, ← r')) cursor' b) :=
      .bind (fun _ => (Watches.pure _).adds)
        ((paired.apply _ _ _ step).weaken (fun _ => ⟨x, mem, next⟩) fun _ _ => id)
        (fun _ _ _ _ _ _ step => .both trivial trivial step) fun _ _ stop => .pure stop
    rw [Grammar.item, Grammar.item, apply_blanks_bind, apply_blanks_bind, skipped, Rule.apply_bind,
      Rule.apply_bind, apply_either_ahead found, apply_either_ahead found]
    split_ifs
    · exact operand o step
    · exact operand o' (step.jots _ [e])
  · have missing : cursor.next? ≠ some c := fun next => signed ⟨c, by simp, next⟩
    have missing' : cursor.next? ≠ some c' := fun next => signed ⟨c', by simp, next⟩
    rw [apply_item_missing missing missing', apply_item_missing missing missing']
    exact .neither (step.jots _ _)

/-- No item is read before a sign of another series. -/
lemma idles_upTo (foreign : c ∉ stops) (foreign' : c' ∉ stops) (count : Nat)
    (stop : Before stops cursor) : (Rule.upTo count (item (either c e o c' e' o') r')).Idles sink' cursor
      fun _ => Before (c :: c' :: stops) := by
  have rest : Before (c :: c' :: stops) cursor := stop.mono (by simp)
  obtain ⟨x, mem, next⟩ := stop
  have missing : cursor.next? ≠ some c := by
    intro ahead
    cases next.symm.trans ahead
    exact foreign mem
  have missing' : cursor.next? ≠ some c' := by
    intro ahead
    cases next.symm.trans ahead
    exact foreign' mem
  cases count with
  | zero => exact .pure rest
  | succ count =>
    have none : (item (either c e o c' e' o') r').Idles sink' cursor fun _ _ => False :=
      .blanks (.of_refuses (refuses_either missing missing').bind)
    exact .orElse (none.bind fun _ _ => False.elim) (.pure rest)

/-- The items are read in tandem. The second reading stops before an item that it gives up. -/
lemma Paired.upTo (paired : Paired sink' bond stops r r') (foreign : c ∉ stops) (foreign' : c' ∉ stops)
    (count : Nat) (step : InStep bond a b) :
    Tandem sink' bond (fun items items' => items.length = items'.length) True
      (fun _ => Before (c :: c' :: stops))
      ((Rule.upTo count (Grammar.item (either c e o c' e' o') r)).apply cursor a)
      ((Rule.upTo count (Grammar.item (either c e o c' e' o') r')).apply cursor b) := by
  obtain ⟨_, operand⟩ := paired.watched
  have signs : Watches (either c e o c' e' o' : Rule (Watched σ) Op) (either c e o c' e' o') :=
    watches_either
  have items := watches_item signs operand
  induction count generalizing cursor a b with
  | zero => exact .both trivial rfl step
  | succ count ih =>
    have idle (signed : Before [c, c'] cursor) :
        Rule.Idles (pure [] : Rule (Watched ρ) (List (Op × Handle))) sink' cursor
          fun _ => Before (c :: c' :: stops) :=
      .pure (signed.mono (by simp))
    refine .orElse (Watches.pure _).adds ?_ (fun _ _ step => .both trivial rfl step) (fun _ => trivial) idle
    refine .bind (fun _ => ((items.upTo count).bind fun _ => .pure _).adds)
      (paired.item step) (fun _ _ cursor a b _ step => ?_) fun _ cursor stop => ?_
    · exact .bind (fun _ => (Watches.pure _).adds) (ih step)
        (fun _ _ _ _ _ same step => .both trivial (congrArg (· + 1) same) step)
        fun _ _ stop => .pure stop
    · exact (idles_upTo foreign foreign' count stop).bind fun _ _ stop => .pure stop

/-- Series of equally many operands hand over equally many operators. -/
lemma tandem_link (trails : Trails sink sink' bond) {Stop : Handle → Cursor → Prop}
    {rest rest' : List (Op × Handle)} (same : rest.length = rest'.length) (first first' : Handle)
    (step : InStep bond a b) : Tandem sink' bond (fun _ _ => True) True Stop
      ((link sink.watched first rest).apply cursor a) ((link sink'.watched first' rest').apply cursor b) := by
  induction rest generalizing first first' rest' cursor a b with
  | nil =>
    cases rest' with
    | nil => exact .both trivial trivial step
    | cons _ _ => cases same
  | cons next rest ih =>
    cases rest' with
    | nil => cases same
    | cons next' rest' =>
      exact .bind (fun h => (watches_link sink h rest).adds) (.emit trails _ _ step)
        (fun _ _ _ _ _ _ step => ih (Nat.succ.inj same) _ _ step) fun _ _ => False.elim

/-- Where the second reading of a series has stopped, it has read no more than the first operand. -/
lemma Paired.series (paired : Paired sink' bond stops r r') (trails : Trails sink sink' bond)
    (foreign : c ∉ stops) (foreign' : c' ∉ stops) : Paired sink' bond (c :: c' :: stops)
      (series sink.watched (either c e o c' e' o') r) (series sink'.watched (either c e o c' e' o') r') := by
  obtain ⟨_, operand⟩ := paired.watched
  have signs : Watches (either c e o c' e' o' : Rule (Watched σ) Op) (either c e o c' e' o') :=
    watches_either
  have items := watches_item signs operand
  refine ⟨⟨_, watches_series sink signs operand⟩, fun cursor a b step => ?_⟩
  refine .bind (fun h => (items.many.bind fun rest => watches_link sink h rest).adds)
    (paired.apply cursor a b step) (fun h h' cursor a b _ step => ?_) fun h' cursor stop => ?_
  · exact .bind (fun rest => (watches_link sink h rest).adds) (paired.upTo foreign foreign' _ step)
      (fun _ _ _ _ _ same step => tandem_link trails same h h' step) fun rest _ stop => .link h' rest stop
  · exact .bind (r := Rule.many (Grammar.item (either c e o c' e' o') r'))
      (idles_upTo foreign foreign' _ stop) fun rest _ stop => .link h' rest stop

/-- Where the second reading of a product has stopped, an operator of the product follows. -/
lemma Paired.product (paired : Paired sink' bond [] r r') (trails : Trails sink sink' bond) :
    Paired sink' bond ['*', '/'] (product sink.watched r) (product sink'.watched r') :=
  paired.series trails List.not_mem_nil List.not_mem_nil

/-- Where the second reading of a sum has stopped, any operator may follow. -/
lemma Paired.sum (paired : Paired sink' bond [] r r') (trails : Trails sink sink' bond) :
    Paired sink' bond ['+', '-', '*', '/'] (sum sink.watched r) (sum sink'.watched r') :=
  (paired.product trails).series trails (by decide) (by decide)

end Series

/-- A factor is read to its end or not at all, by induction on the levels. -/
lemma paired_factor (trails : Trails sink sink' bond) (levels : Nat) :
    Paired sink' bond [] (Watched.factor sink levels) (Watched.factor sink' levels) := by
  induction levels with
  | zero => exact ⟨⟨_, .failure⟩, fun _ _ _ => .neither⟩
  | succ levels ih =>
    refine ⟨⟨_, watches_factor sink _⟩, fun cursor a b step => ?_⟩
    rw [Watched.factor_succ, Watched.factor_succ, apply_blanks_bind, apply_blanks_bind]
    exact (ih.sum trails).operand trails (by decide) ih step

/-- A whole text is read in tandem, and if the second reading has stopped then it has failed. -/
theorem tandem_expression (trails : Trails sink sink' bond) (step : InStep bond a b) (cursor : Cursor) :
    Tandem sink' bond (fun _ _ => True) True (fun _ _ => False)
      ((Watched.expression sink).apply cursor a) ((Watched.expression sink').apply cursor b) := by
  have sums := (paired_factor trails (nestingLimit + 1)).sum trails
  refine .bind (fun h => (watches_blanks.bind fun _ => Watches.done.bind fun _ => .pure h).adds)
    ((sums.apply cursor a b step).weaken (fun _ => trivial) fun _ _ => id) ?_ ?_
  · intro h h' cursor a b _ step
    rw [apply_blanks_bind, apply_blanks_bind, Rule.apply_bind, Rule.apply_bind, Rule.apply_done,
      Rule.apply_done]
    cases cursor.skip.rest with
    | nil => exact .both trivial trivial step
    | cons _ _ => exact .lack _ step
  · intro h' cursor ⟨x, _, next⟩
    obtain ⟨rest, ahead⟩ := Cursor.exists_rest next
    have unread : Refuses (Rule.done : Rule (Watched ρ) Unit) cursor.skip [.endOfInput] := by
      intro notes
      rw [Rule.apply_done, ahead]
      rfl
    exact .blanks (.of_refuses unread.bind)

end

/-! ### Reading again -/

/-- No sink takes more nodes than the one that only counts them. -/
lemma Sink.Stubborn.trails_counting {sink : Sink σ} (stubborn : sink.Stubborn) (start start' : Furthest) :
    Trails counting sink ⟨fun _ _ => True, start, start'⟩ := by
  refine ⟨stubborn, ?_, fun _ _ _ => trivial⟩
  intro n n' s t _ refused
  cases refused

/-- A sink that is full takes no more nodes than it did before. -/
lemma Sink.Stubborn.trails_full {sink : Sink σ} (stubborn : sink.Stubborn) (start start' : Furthest) :
    Trails sink sink ⟨fun _ nodes => sink.Full nodes, start, start'⟩ := by
  refine ⟨stubborn, fun full _ => full _, ?_⟩
  intro n n' h h' s s' t t' full _ taken
  cases (full n').symm.trans taken

/-- The second reading has failed and has tried no other levels than the first. Unless its sink has run
full, it has looked at the depth at all the same places, and has recorded the same failures. -/
structure FailsLike (sink' : Sink ρ) (start start' : Furthest)
    (out : Option (α × Cursor) × Notes (Watched σ)) (out' : Option (β × Cursor) × Notes (Watched ρ)) :
    Prop where
  failed : out'.1 = none
  entries : entries out'.2.nodes.2 <+: entries out.2.nodes.2
  alike : (out'.2.nodes.2 = out.2.nodes.2 ∧ Furthest.Alike start start' out.2.furthest out'.2.furthest) ∨
    (out'.2.refused = true ∧ sink'.Full out'.2.nodes.1)

/-- Where the first reading has failed, the second one has failed like it. -/
lemma Tandem.failsLike {sink' : Sink ρ} {bond : Bond σ ρ} {V : α → β → Prop} {begun : Prop}
    {out : Option (α × Cursor) × Notes (Watched σ)} {out' : Option (β × Cursor) × Notes (Watched ρ)}
    (tandem : Tandem sink' bond V begun (fun _ _ => False) out out') (failed : out.1 = none) :
    FailsLike sink' bond.start bond.start' out out' := by
  cases tandem with
  | both => cases failed
  | neither step => exact ⟨rfl, entries_prefix step.marks.symm, .inl ⟨step.marks.symm, step.furthest⟩⟩
  | apart _ halted stop =>
    refine ⟨?_, halted.entries, .inr ⟨halted.refused, halted.full⟩⟩
    exact Option.eq_none_iff_forall_ne_some.2 fun ⟨w, cursor⟩ e => stop w cursor e

/-- A text that cannot be read cannot be read again with the nodes that are left over from it. -/
theorem fails_again {sink : Sink σ} (stubborn : sink.Stubborn) {cursor : Cursor}
    {a b : Notes (Watched σ)} (failed : ((Watched.expression sink).apply cursor a).1 = none)
    (deep : a.depth = b.depth) (marks : a.nodes.2 = b.nodes.2)
    (left : b.nodes.1 = ((Watched.expression sink).apply cursor a).2.nodes.1) :
    FailsLike sink a.furthest b.furthest ((Watched.expression sink).apply cursor a)
      ((Watched.expression sink).apply cursor b) := by
  -- Both readings are compared with one that is never refused anything. If the first one was, the sink
  -- is full and they are compared with each other.
  let free : Notes (Watched Nat) := ⟨a.depth, a.furthest, a.refused, 0, a.nodes.2⟩
  have first := tandem_expression (a := free) (b := a)
    (stubborn.trails_counting a.furthest a.furthest) ⟨rfl, .refl _ _, rfl, trivial⟩ cursor
  have second := tandem_expression (a := free) (b := b)
    (stubborn.trails_counting a.furthest b.furthest) ⟨deep, .refl _ _, marks, trivial⟩ cursor
  generalize (Watched.expression counting).apply cursor free = out at first second
  generalize ran : (Watched.expression sink).apply cursor a = out' at first failed left
  cases first with
  | both => cases failed
  | neither step =>
    obtain ⟨failed, entries, alike⟩ := second.failsLike rfl
    rw [step.marks] at entries
    rw [step.marks, step.furthest.eq] at alike
    exact ⟨failed, entries, alike⟩
  | apart _ halted _ =>
    have again := tandem_expression (a := a) (b := b) (stubborn.trails_full a.furthest b.furthest)
      ⟨deep, .refl _ _, marks, left ▸ halted.full⟩ cursor
    rw [ran] at again
    exact again.failsLike failed

/-- A text that could not be read is read again, from the notes that are left over but for what is on
record. -/
theorem Sink.Stubborn.rereads {sink : Sink σ} (stubborn : sink.Stubborn) {cursor : Cursor}
    {notes notes' : Notes σ} (levels : Nat) (furthest : Furthest) (refused : Bool)
    (ran : (expression sink).apply cursor notes = (none, notes')) :
    ∃ notes'', (expression sink).apply cursor { notes' with furthest, refused } = (none, notes'') ∧
      notes''.depth = notes.depth ∧
      entries (Construct.expression.marks sink levels cursor { notes' with furthest, refused }) <+:
        entries (Construct.expression.marks sink levels cursor notes) ∧
      ((Construct.expression.marks sink levels cursor { notes' with furthest, refused } =
          Construct.expression.marks sink levels cursor notes ∧
          Furthest.Alike notes.furthest furthest notes'.furthest notes''.furthest) ∨
        (notes''.refused = true ∧ sink.Full notes''.nodes)) := by
  have steady := (watches_expression sink).steady
  have level := (steady cursor notes).depth
  have level' := (steady cursor { notes' with furthest, refused }).depth
  have watched := Construct.expression.apply_watched sink levels cursor notes
  have watched' := Construct.expression.apply_watched sink levels cursor { notes' with furthest, refused }
  have ran' : (Construct.expression.rule sink levels).apply cursor notes = (none, notes') := ran
  rw [ran'] at watched
  rw [ran] at level
  have fails : FailsLike sink notes.furthest furthest
      ((Construct.expression.watched sink levels).apply cursor (notes.watched []))
      ((Construct.expression.watched sink levels).apply cursor
        (Notes.watched { notes' with furthest, refused } [])) :=
    fails_again (a := notes.watched []) (b := Notes.watched { notes' with furthest, refused } []) stubborn
      (congrArg Prod.fst watched) level.symm rfl (congrArg (fun out => out.2.nodes.1) watched).symm
  rw [watched, watched'] at fails
  exact ⟨_, Prod.ext fails.failed rfl, level'.trans level, fails.entries, fails.alike⟩

/-- A sink that only counts the nodes never runs full. -/
lemma not_full_counting (count : Nat) : ¬ counting.Full count := by
  intro full
  cases full (.var 'x')

/-- A sink that only counts the nodes refuses none of them. -/
lemma stubborn_counting : counting.Stubborn := by
  intro n nodes refused
  cases refused

/-- A store that has no room for a node has no room for any other. -/
lemma stubborn_allocating : allocating.Stubborn := by
  intro n s refused n'
  rw [put_allocating] at refused ⊢
  split_ifs at refused ⊢
  rfl

/-- Every rule ends as deep as it began, however it ends and whatever the sink does. It goes no deeper than
the limit, and leaves only levels that it has entered. So a text that could not be read is read again from
the same depth. It cannot be read then either, and every level that is tried has been tried at the same
depth before. Unless the sink refuses a node, all the depths are the same, and so is the failure that is
found. A sink that only counts the nodes refuses none. -/
theorem nesting_balanced :
    (∀ (σ : Type) (sink : Sink σ) (construct : Construct) (levels : Nat) (cursor : Cursor)
      (notes notes' : Notes σ) (result : Option (Handle × Cursor)), notes.depth ≤ nestingLimit →
      (construct.rule sink levels).apply cursor notes = (result, notes') →
      notes'.depth = notes.depth ∧
      (construct.watched sink levels).apply cursor (notes.watched []) =
        (result, notes'.watched (construct.marks sink levels cursor notes)) ∧
      Balanced notes.depth (construct.marks sink levels cursor notes) ∧
      ∀ m ∈ construct.marks sink levels cursor notes,
        m.depth ≤ nestingLimit ∧ (m.moment = .leaving → 0 < m.depth)) ∧
    (∀ (σ : Type) (sink : Sink σ) (levels : Nat) (cursor : Cursor) (notes notes' : Notes σ)
      (furthest : Furthest) (refused : Bool), sink.Stubborn →
      (expression sink).apply cursor notes = (none, notes') →
      ∃ notes'', (expression sink).apply cursor { notes' with furthest, refused } = (none, notes'') ∧
        notes''.depth = notes.depth ∧
        entries (Construct.expression.marks sink levels cursor { notes' with furthest, refused }) <+:
          entries (Construct.expression.marks sink levels cursor notes) ∧
        ((Construct.expression.marks sink levels cursor { notes' with furthest, refused } =
            Construct.expression.marks sink levels cursor notes ∧
            (furthest.Restarts notes.furthest notes'.furthest → notes''.furthest = notes'.furthest)) ∨
          (notes''.refused = true ∧ sink.Full notes''.nodes))) ∧
    (∀ (levels : Nat) (cursor : Cursor) (notes notes' : Notes Nat) (furthest : Furthest) (refused : Bool),
      furthest.Restarts notes.furthest notes'.furthest →
      (expression counting).apply cursor notes = (none, notes') →
      ∃ notes'', (expression counting).apply cursor { notes' with furthest, refused } = (none, notes'') ∧
        Construct.expression.marks counting levels cursor { notes' with furthest, refused } =
          Construct.expression.marks counting levels cursor notes ∧
        notes''.furthest = notes'.furthest) ∧
    counting.Stubborn ∧ allocating.Stubborn := by
  refine ⟨?_, ?_, ?_, stubborn_counting, stubborn_allocating⟩
  · intro σ sink construct levels cursor notes notes' result le ran
    have watched := construct.apply_watched sink levels cursor notes
    have level := ((construct.watches sink levels).steady cursor notes).depth
    have balanced := construct.balanced sink levels cursor notes
    rw [ran] at watched level
    exact ⟨level, watched, balanced, balanced.within le⟩
  · intro σ sink levels cursor notes notes' furthest refused stubborn ran
    obtain ⟨notes'', ran', level, entries, alike⟩ := stubborn.rereads levels furthest refused ran
    refine ⟨notes'', ran', level, entries, alike.imp_left ?_⟩
    exact fun ⟨marks, alike⟩ => ⟨marks, alike.eq_of_restarts⟩
  · intro levels cursor notes notes' furthest refused restarts ran
    obtain ⟨notes'', ran', -, -, alike⟩ := stubborn_counting.rereads levels furthest refused ran
    obtain ⟨marks, alike⟩ := alike.resolve_right fun full => not_full_counting _ full.2
    exact ⟨notes'', ran', marks, alike.eq_of_restarts restarts⟩

/-- A text that is nested too deep where only one more level can be entered. -/
def tooDeep : Cursor := ⟨0, "(a)+((b))".toList⟩

/-- Notes within so many levels that only one more can be entered. -/
def lastLevel {σ : Type} (nodes : σ) : Notes σ := { depth := 255, nodes }

/-- A store with room for one node. -/
def oneNode : Store := ⟨#[], 1⟩

/-- The same store when it is full. -/
def oneNodeFull : Store := ⟨#[.var 'a'], 1⟩

/-- The first time the second parenthesis before `b` is too deep. The second time the store is full
before that, so that only the level of `a` is entered. If the nodes are only counted, then the second
reading finds what was wrong at the place where the first one failed. -/
theorem nesting_balanced_lastLevel :
    (∃ furthest, (expression allocating).apply tooDeep (lastLevel oneNode) =
      (none, { lastLevel oneNodeFull with furthest })) ∧
    Balanced 255 (Construct.expression.marks allocating 0 tooDeep (lastLevel oneNode)) ∧
    ⟨.leaving, 5, 256⟩ ∈ Construct.expression.marks allocating 0 tooDeep (lastLevel oneNode) ∧
    (∃ notes, (expression allocating).apply tooDeep (lastLevel oneNodeFull) = (none, notes) ∧
      notes.depth = 255 ∧
      entries (Construct.expression.marks allocating 0 tooDeep (lastLevel oneNodeFull)) =
        [⟨.entering, 1, 255⟩] ∧
      entries (Construct.expression.marks allocating 0 tooDeep (lastLevel oneNodeFull)) <+:
        entries (Construct.expression.marks allocating 0 tooDeep (lastLevel oneNode))) ∧
    ∃ notes, (expression counting).apply tooDeep { lastLevel 1 with furthest := ⟨6, []⟩ } = (none, notes) ∧
      Construct.expression.marks counting 0 tooDeep { lastLevel 1 with furthest := ⟨6, []⟩ } =
        Construct.expression.marks counting 0 tooDeep (lastLevel 0) ∧
      notes.furthest = ⟨6, [.shallowerNesting]⟩ := by
  have ran : (expression allocating).apply tooDeep (lastLevel oneNode) =
      (none, { lastLevel oneNodeFull with furthest := ⟨6, [.shallowerNesting]⟩ }) := by
    decide +kernel
  have counted : (expression counting).apply tooDeep (lastLevel 0) =
      (none, { lastLevel 1 with furthest := ⟨6, [.shallowerNesting]⟩ }) := by
    decide +kernel
  obtain ⟨level, again, anew, -, stubborn⟩ := nesting_balanced
  obtain ⟨-, -, balanced, -⟩ :=
    level Store allocating .expression 0 tooDeep (lastLevel oneNode) _ none (by decide) ran
  obtain ⟨notes, ran', deep, tried, -⟩ :=
    again Store allocating 0 tooDeep (lastLevel oneNode) _ {} false stubborn ran
  obtain ⟨notes', counted', same, found⟩ :=
    anew 0 tooDeep (lastLevel 0) _ ⟨6, []⟩ false (.inr ⟨rfl, rfl⟩) counted
  exact ⟨⟨_, ran⟩, balanced, by decide +kernel, ⟨notes, ran', deep, by decide +kernel, tried⟩,
    notes', counted', same, found⟩

/-- Where the sink refuses a node the depths can differ. The first time there is room for `a`, and the level
of `b` is entered. The second time there is none, and the parenthesis is not reached. -/
theorem rereading_misses_level :
    ∃ notes, (expression allocating).apply ⟨0, "a+(b)".toList⟩ { nodes := oneNode } = (none, notes) ∧
      Construct.expression.marks allocating 0 ⟨0, "a+(b)".toList⟩ { nodes := oneNode } =
        [⟨.entering, 3, 0⟩, ⟨.entered, 3, 1⟩, ⟨.leaving, 3, 1⟩, ⟨.left, 3, 0⟩] ∧
      Construct.expression.marks allocating 0 ⟨0, "a+(b)".toList⟩ notes = [] := by
  refine ⟨⟨0, ⟨3, [.closeParen, .minus, .openParen, .digit]⟩, true, oneNodeFull⟩, ?_, ?_, ?_⟩
  all_goals decide +kernel

end Grammar

end ExprOpt
