import ExprOpt.Proofs.Grammar.Outcomes
import ExprOpt.Proofs.Grammar.Tokens

/-!
# Layout does not matter

Two texts with the same tokens are read side by side. A rule that stands before texts that are alike
succeeds on both with the same value, and stops before texts that are alike, or it fails on both. The
notes it leaves differ in nothing but the furthest failure, since offsets count blanks (`Rule.Agree`). A
repetition is bounded by the length of the text, which is not the same for both, but the bound is never
reached: each item reads a token (`Rule.Consumes`).
-/

namespace ExprOpt

namespace Grammar

variable {σ α β : Type} {sink : Sink σ} {k : Nat} {P P' Q Q' R : List Char → List Char → Prop}

/-- The same notes, but for the furthest failure. -/
def Notes.Match (a b : Notes σ) : Prop := ∃ furthest, b = { a with furthest }

/-- Two rules have both succeeded with the same value, or both failed. -/
inductive Parallel (Q : List Char → List Char → Prop) :
    Option (α × Cursor) × Notes σ → Option (α × Cursor) × Notes σ → Prop where
  | done {a cursor cursor' notes notes'} :
    Q cursor.rest cursor'.rest →
    notes.Match notes' →
    Parallel Q (some (a, cursor), notes) (some (a, cursor'), notes')
  | failed {notes notes'} :
    notes.Match notes' →
    Parallel Q (none, notes) (none, notes')

/-- Two rules run in parallel from texts that are related by `P` to texts that are related by `Q`. -/
def Rule.Agree (P Q : List Char → List Char → Prop) (r r' : Rule σ α) : Prop :=
  ∀ (cursor cursor' : Cursor) (notes notes' : Notes σ), P cursor.rest cursor'.rest → notes.Match notes' →
    Parallel Q (r.apply cursor notes) (r'.apply cursor' notes')

/-- Texts that are alike are still alike behind what the rule reads, and have a token less at least. -/
def Rule.Consumes (r : Rule σ α) : Prop := ∀ k, Agree (Alike (k + 1)) (Alike k) r r

/-- What is lacking is lacking in both texts, if not at the same offset. -/
lemma Parallel.lack {notes notes' : Notes σ} (what : Expected) (cursor cursor' : Cursor)
    (same : notes.Match notes') :
    Parallel Q (Rule.apply (Rule.lack what : Rule σ α) cursor notes)
      (Rule.apply (Rule.lack what) cursor' notes') := by
  obtain ⟨furthest, rfl⟩ := same
  exact .failed ⟨_, rfl⟩

namespace Rule.Agree

variable {r r' t t' : Rule σ α}

/-- More may be asked of the texts before, and less of those after. -/
lemma weaken (agree : Agree P Q r r') (before : ∀ u v, P' u v → P u v) (after : ∀ u v, Q u v → Q' u v) :
    Agree P' Q' r r' := by
  intro cursor cursor' notes notes' related same
  have parallel := agree cursor cursor' notes notes' (before _ _ related) same
  generalize r.apply cursor notes = x at parallel
  generalize r'.apply cursor' notes' = y at parallel
  cases parallel with
  | done related same => exact .done (after _ _ related) same
  | failed same => exact .failed same

/-- A constant rule stays where it is in both texts. -/
lemma pure (a : α) : Agree P P (pure a : Rule σ α) (pure a) :=
  fun _ _ _ _ related same => .done related same

/-- Failing is the same for all texts. -/
lemma failure : Agree P Q (failure : Rule σ α) failure := fun _ _ _ _ _ same => .failed same

/-- What is noted only concerns the furthest failure, which is not compared. -/
lemma note (what : Expected) : Agree P P (note what : Rule σ Unit) (note what) := by
  rintro cursor cursor' notes _ related ⟨furthest, rfl⟩
  exact .done related ⟨_, rfl⟩

/-- Rules that agree one after the other agree in sequence. -/
lemma bind {f f' : α → Rule σ β} (first : Agree P Q r r') (second : ∀ a, Agree Q R (f a) (f' a)) :
    Agree P R (r >>= f) (r' >>= f') := by
  intro cursor cursor' notes notes' related same
  have parallel := first cursor cursor' notes notes' related same
  rw [apply_bind, apply_bind]
  generalize r.apply cursor notes = x at parallel
  generalize r'.apply cursor' notes' = y at parallel
  cases parallel with
  | done related same => exact second _ _ _ _ _ related same
  | failed same => exact .failed same

/-- The second alternatives are tried from where the first ones were, in both texts. -/
lemma orElse (first : Agree P Q r r') (second : Agree P Q t t') : Agree P Q (r <|> t) (r' <|> t') := by
  intro cursor cursor' notes notes' related same
  have parallel := first cursor cursor' notes notes' related same
  rw [apply_orElse, apply_orElse]
  generalize r.apply cursor notes = x at parallel
  generalize r'.apply cursor' notes' = y at parallel
  cases parallel with
  | done related same => exact .done related same
  | failed same => exact second _ _ _ _ related same

/-- Lacking something is the same for all texts. -/
lemma lack (what : Expected) : Agree P Q (lack what : Rule σ α) (lack what) :=
  fun cursor cursor' _ _ _ same => .lack what cursor cursor' same

/-- The sink sees no texts, so it does the same with a node. -/
lemma emit (sink : Sink σ) (n : Node) : Agree P P (emit sink n) (emit sink n) := by
  rintro cursor cursor' notes _ related ⟨furthest, rfl⟩
  rw [apply_emit, apply_emit]
  rcases sink.put n notes.nodes with _ | ⟨h, nodes⟩
  · exact .failed ⟨furthest, rfl⟩
  · exact .done related ⟨furthest, rfl⟩

/-- Something optional is read in both texts or in neither. -/
lemma optional (agree : Agree P P r r') : Agree P P (optional r) (optional r') := by
  rw [Rule.optional, Rule.optional, ← bind_pure_comp, ← bind_pure_comp]
  exact (agree.bind fun a => pure (some a)).orElse (pure none)

/-- A character is read from both texts, or from neither. It is no digit, or it would be only a part of a
token. -/
lemma one {p : Char → Bool} (what : Expected) (single : ∀ c, c.isDigit → p c = false) :
    Agree (Abreast (k + 1)) (Alike k) (one p what : Rule σ Char) (one p what) := by
  rintro ⟨offset, text⟩ ⟨offset', text'⟩ notes notes' abreast same
  rw [apply_one, apply_one]
  cases abreast with
  | ended => exact .lack what _ _ same
  | @character _ c _ _ _ alike =>
    dsimp only
    split
    · exact .done alike same
    · exact .lack what _ _ same
  | @digits _ c _ _ _ all =>
    have other : ¬ p c = true := Bool.eq_false_iff.1 (single c (all c List.mem_cons_self))
    dsimp only [List.cons_append]
    rw [if_neg other, if_neg other]
    exact .lack what _ _ same

/-- A sign is a token of its own. -/
lemma symbol {c : Char} (what : Expected) (single : c.isDigit = false) :
    Agree (Abreast (k + 1)) (Alike k) (symbol c what : Rule σ Unit) (symbol c what) := by
  refine (one what fun d digit => decide_eq_false ?_).bind fun _ => pure ()
  rintro rfl
  cases single.symm.trans digit

/-- Texts that stand at their next tokens end together. -/
lemma done : Agree (Abreast k) (Abreast k) (done : Rule σ Unit) done := by
  rintro ⟨offset, text⟩ ⟨offset', text'⟩ notes notes' abreast same
  rw [apply_done, apply_done]
  cases abreast with
  | ended => exact .done .ended same
  | character => exact .lack _ _ _ same
  | digits => exact .lack _ _ _ same

/-- Rules that read a token each time are repeated as often on one text as on the other, if both bounds
exceed the number of tokens. -/
lemma upTo (takes : r.Consumes) {n m : Nat} (le : k ≤ n) (le' : k ≤ m) :
    Agree (Alike k) (Alike k) (upTo n r) (upTo m r) := by
  induction k generalizing n m with
  | zero => exact fun _ _ _ _ alike => absurd alike.few (Nat.not_lt_zero _)
  | succ k ih =>
    cases n with
    | zero => cases le
    | succ n =>
      cases m with
      | zero => cases le'
      | succ m =>
        have more := ih (Nat.le_of_succ_le_succ le) (Nat.le_of_succ_le_succ le')
        have items := (takes k).bind fun a => more.bind fun as => pure (a :: as)
        exact (items.weaken (fun _ _ => id) fun _ _ => .mono (Nat.le_succ k)).orElse (pure [])

/-- Both texts are read as long as the rule succeeds, since it never comes to the bound. -/
lemma many (takes : r.Consumes) :
    Agree (Alike k) (Alike k) (many r) (many r) := by
  intro cursor cursor' notes notes' alike same
  have le := length_tokens_le cursor.rest
  have le' := length_tokens_le cursor'.rest
  rw [← alike.same] at le'
  have tight : Alike ((tokens cursor.rest).length + 1) cursor.rest cursor'.rest :=
    ⟨alike.same, Nat.lt_succ_self _⟩
  have run := upTo takes (Nat.succ_le_succ le) (Nat.succ_le_succ le')
  exact run.weaken (fun _ _ => id) (fun _ _ => .mono alike.few) cursor cursor' notes notes' tight same

end Rule.Agree

/-- A rule that reads a token leaves no more than there was. -/
lemma Rule.Consumes.keep {r : Rule σ α} (takes : r.Consumes) : Agree (Alike k) (Alike k) r r :=
  (takes k).weaken (fun _ _ => .mono (Nat.le_succ k)) fun _ _ => id

open Rule (Agree)

/-- Behind the blanks both texts stand at their next tokens. -/
lemma agree_blanks : Agree (Alike k) (Abreast k) (blanks : Rule σ Unit) blanks := by
  intro cursor cursor' notes notes' alike same
  rw [blanks, Rule.apply_bind, Rule.apply_bind, Rule.apply_span, Rule.apply_span]
  exact .done alike.abreast same

/-- The depth is the same in both texts, and so is whether it is too deep. -/
lemma agree_descend : Agree P P (descend : Rule σ Unit) descend := by
  rintro cursor cursor' notes _ related ⟨furthest, rfl⟩
  rw [apply_descend, apply_descend]
  split
  · exact .done related ⟨furthest, rfl⟩
  · exact .lack _ _ _ ⟨furthest, rfl⟩

/-- A level is entered and left in both texts. -/
lemma agree_nested {r : Rule σ α} (agree : Agree P P r r) : Agree P P (nested r) (nested r) := by
  refine agree_descend.bind fun _ => agree.optional.bind fun a => Agree.bind (Q := P) ?_ fun _ => .pure a
  rintro cursor cursor' notes _ related ⟨furthest, rfl⟩
  exact .done related ⟨furthest, rfl⟩

/-- A letter is a token of its own. -/
lemma agree_letter : Agree (Abreast (k + 1)) (Alike k) (letter sink) (letter sink) :=
  (Agree.one _ isAlpha_of_isDigit).bind fun _ => .emit sink _

/-- The same run of digits is read, or none. -/
lemma agree_number : Agree (Abreast (k + 1)) (Alike k) (number sink) (number sink) := by
  intro cursor cursor' notes notes' abreast same
  obtain ⟨run, behind⟩ := abreast.span
  rw [number, Rule.apply_bind, Rule.apply_bind, Rule.apply_span, Rule.apply_span, run]
  rcases behind with none | alike
  · obtain ⟨furthest, rfl⟩ := same
    rw [none]
    exact .failed ⟨_, rfl⟩
  · refine (Agree.note _).bind (fun _ => ?_) _ _ _ _ alike same
    split_ifs
    · exact .failure
    · exact .emit sink _
    · exact .lack _

/-- What stands between parentheses is as many tokens in both texts. -/
lemma agree_parenthesized {inner : Rule σ Handle} (takes : inner.Consumes) :
    Agree (Abreast (k + 1)) (Alike k) (parenthesized inner) (parenthesized inner) := by
  refine (Agree.symbol _ rfl).bind fun _ => (agree_nested takes.keep).bind fun inside =>
    (agree_blanks.weaken (fun _ _ => .mono (Nat.le_succ k)) fun _ _ => id).bind fun _ =>
    (Agree.symbol _ rfl).bind fun _ => ?_
  cases inside with
  | none => exact .lack _
  | some h => exact .pure h

/-- A negation begins with a token, and reads on in both texts alike. -/
lemma agree_negated {inner : Rule σ Handle} (takes : inner.Consumes) :
    Agree (Abreast (k + 1)) (Alike k) (negated sink inner) (negated sink inner) := by
  refine (Agree.symbol _ rfl).bind fun _ => (agree_nested takes.keep).bind fun inside => ?_
  cases inside with
  | none => exact .lack _
  | some h => exact .emit sink _

/-- Linking a series reads nothing. -/
lemma agree_link (first : Handle) (rest : List (Op × Handle)) :
    Agree P P (link sink first rest) (link sink first rest) := by
  induction rest generalizing first with
  | nil => exact .pure first
  | cons item rest ih => exact (Agree.emit sink _).bind fun h => ih h

/-- An operator that is a token of its own. -/
lemma agree_either {c c' : Char} {what what' : Expected} {o o' : Op} (single : c.isDigit = false)
    (single' : c'.isDigit = false) : Agree (Abreast (k + 1)) (Alike k)
      (either c what o c' what' o' : Rule σ Op) (either c what o c' what' o') :=
  ((Agree.symbol _ single).bind fun _ => .pure _).orElse ((Agree.symbol _ single').bind fun _ => .pure _)

/-- An item reads the token of its sign at least. -/
lemma consumes_item {op : Rule σ Op} {operand : Rule σ Handle}
    (sign : ∀ k, Agree (Abreast (k + 1)) (Alike k) op op) (takes : operand.Consumes) :
    (item op operand).Consumes :=
  fun k => agree_blanks.bind fun _ => (sign k).bind fun o => takes.keep.bind fun right => .pure (o, right)

/-- A series reads as much as its first operand at least. -/
lemma consumes_series {op : Rule σ Op} {operand : Rule σ Handle}
    (sign : ∀ k, Agree (Abreast (k + 1)) (Alike k) op op) (takes : operand.Consumes) :
    (series sink op operand).Consumes :=
  fun k => (takes k).bind fun first => (Agree.many (consumes_item sign takes)).bind fun rest =>
    agree_link first rest

/-- Sums and products are series. -/
lemma consumes_sum {factor : Rule σ Handle} (takes : factor.Consumes) : (sum sink factor).Consumes :=
  consumes_series (fun _ => agree_either rfl rfl) (consumes_series (fun _ => agree_either rfl rfl) takes)

/-- A factor reads a token, whichever kind it is of. -/
lemma consumes_factor (levels : Nat) : (factor sink levels).Consumes := by
  induction levels with
  | zero => exact fun _ => .failure
  | succ levels ih =>
    exact fun k => agree_blanks.bind fun _ => agree_letter.orElse <| agree_number.orElse <|
      (agree_parenthesized (consumes_sum ih)).orElse (agree_negated ih)

/-- Whole texts that are alike are both read to their ends, or neither is. -/
lemma agree_expression (sink : Sink σ) (k : Nat) :
    Agree (Alike (k + 1)) (Abreast k) (expression sink) (expression sink) :=
  (consumes_sum (consumes_factor _) k).bind fun h =>
    agree_blanks.bind fun _ => Agree.done.bind fun _ => .pure h

/-- Texts with the same tokens are read alike by any sink. -/
lemma read_same (sink : Sink σ) {text text' : List Char} (same : tokens text = tokens text') (nodes : σ) :
    (read sink text nodes).1 = (read sink text' nodes).1 ∧
      (read sink text nodes).2.Match (read sink text' nodes).2 := by
  have alike : Alike ((tokens text).length + 1) text text' := ⟨same, Nat.lt_succ_self _⟩
  have parallel := agree_expression sink _ ⟨0, text⟩ ⟨0, text'⟩ { nodes } { nodes } alike ⟨_, rfl⟩
  simp only [read]
  generalize Rule.apply (expression sink) ⟨0, text⟩ { nodes } = x at parallel
  generalize Rule.apply (expression sink) ⟨0, text'⟩ { nodes } = y at parallel
  cases parallel with
  | done _ same => exact ⟨rfl, same⟩
  | failed same => exact ⟨rfl, same⟩

/-- Either both texts are accepted or neither is. -/
lemma complaint?_same {text text' : List Char} (same : tokens text = tokens text') :
    complaint? text = none ↔ complaint? text' = none := by
  have results := (read_same counting same 0).1
  rw [complaint?, complaint?]
  generalize read counting text 0 = x at results
  generalize read counting text' 0 = y at results
  obtain ⟨_ | h, notes⟩ := x <;> obtain ⟨_ | h', notes'⟩ := y <;> cases results <;> simp

end Grammar

open Grammar

/-- Only the tokens of a source count. Sources that differ in nothing but blanks before, between and after
their tokens are read into the same nodes with the same root, or fill the store with the same nodes, or
are both malformed. -/
theorem parse_ignores_layout {source source' : String}
    (same : tokens source.toList = tokens source'.toList) (s : Store) :
    (∃ root s', (Build.parse source).run s = .ok root s' ∧ (Build.parse source').run s = .ok root s') ∨
    (∃ s', (Build.parse source).run s = .error (.outOfNodes s.capacity) s' ∧
      (Build.parse source').run s = .error (.outOfNodes s.capacity) s') ∨
    ∃ report report', (Build.parse source).run s = .error (.malformed report) s ∧
      (Build.parse source').run s = .error (.malformed report') s := by
  by_cases fine : complaint? source.toList = none
  · obtain ⟨t, p⟩ := complaint?_eq_none_iff.1 fine
    obtain ⟨t', p'⟩ := complaint?_eq_none_iff.1 ((complaint?_same same).1 fine)
    obtain ⟨result, furthest, notes⟩ := read_same allocating same s
    rw [run_parse_eq p, run_parse_eq p']
    generalize read allocating source.toList s = x at result notes
    generalize read allocating source'.toList s = y at result notes
    obtain ⟨x, depth, _, refused, s'⟩ := x
    obtain ⟨y, _⟩ := y
    cases result
    cases notes
    cases x with
    | none => exact .inr (.inl ⟨s', rfl, rfl⟩)
    | some root =>
      cases refused with
      | true => exact .inr (.inl ⟨s', rfl, rfl⟩)
      | false => exact .inl ⟨root, s', rfl, rfl⟩
  · -- A source is checked as a whole before any node is stored.
    have wrong {source : String} (wrong : complaint? source.toList ≠ none) :
        ∃ report, (Build.parse source).run s = .error (.malformed report) s := by
      obtain ⟨report, complaint⟩ := Option.ne_none_iff_exists'.1 wrong
      refine ⟨report, ?_⟩
      rw [Build.parse, complaint]
      rfl
    obtain ⟨report, ran⟩ := wrong fine
    obtain ⟨report', ran'⟩ := wrong (mt (complaint?_same same).2 fine)
    exact .inr (.inr ⟨report, report', ran, ran'⟩)

/-- There is room for five of the six nodes, and both sources leave the store with the same five. -/
theorem parse_ignores_layout_crowded :
    tokens "-(a + 12)*\n b".toList = tokens "\t- ( a+12 ) *b ".toList ∧
    ∃ s', s'.size = 6 ∧
      (Build.parse "-(a + 12)*\n b").run ⟨#[.const 7], 6⟩ = .error (.outOfNodes 6) s' ∧
      (Build.parse "\t- ( a+12 ) *b ").run ⟨#[.const 7], 6⟩ = .error (.outOfNodes 6) s' := by
  have same : tokens "-(a + 12)*\n b".toList = tokens "\t- ( a+12 ) *b ".toList := by decide +kernel
  have full : (Build.parse "-(a + 12)*\n b").run ⟨#[.const 7], 6⟩ = .error (.outOfNodes 6)
      ⟨#[.const 7, .var 'a', .const 12, .binary .add ⟨1⟩ ⟨2⟩, .negation ⟨3⟩, .var 'b'], 6⟩ := by
    decide +kernel
  rcases parse_ignores_layout same ⟨#[.const 7], 6⟩ with
    ⟨_, _, ran, _⟩ | ⟨s', ran, ran'⟩ | ⟨_, _, ran, _⟩
  · cases full.symm.trans ran
  · refine ⟨same, s', ?_, ran, ran'⟩
    cases full.symm.trans ran
    rfl
  · cases full.symm.trans ran

end ExprOpt
