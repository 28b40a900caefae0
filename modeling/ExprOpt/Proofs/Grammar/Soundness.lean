import ExprOpt.Grammar.Parsing
import ExprOpt.Proofs.Grammar.Phrase
import ExprOpt.Proofs.Grammar.Steadiness
import Mathlib.Data.List.Induction
import Mathlib.Data.List.TakeWhile

/-!
# What is read is a phrase

`Rule.Reads` says of a rule which texts it moves the cursor past, and what their values are. It follows
the construction of a rule, whatever the sink is. How deep the rule starts decides how deep the phrase
may nest: the levels above the rule and those within the phrase share one limit.
-/

namespace ExprOpt.Grammar

variable {σ α β : Type} {depth : Nat}

/-- At the given depth the rule succeeds only by reading a text that is in `L` with its value. -/
def Rule.Reads (depth : Nat) (r : Rule σ α) (L : α → List Char → Prop) : Prop :=
  ∀ (cursor cursor' : Cursor) (notes notes' : Notes σ) (a : α), notes.depth = depth →
    r.apply cursor notes = (some (a, cursor'), notes') →
    ∃ w, cursor.rest = w ++ cursor'.rest ∧ L a w

namespace Rule.Reads

/-- A rule may be said to read more texts than it does. -/
lemma weaken {r : Rule σ α} {L M : α → List Char → Prop} (hr : r.Reads depth L)
    (le : ∀ a w, L a w → M a w) : r.Reads depth M := by
  intro cursor cursor' notes notes' a deep ran
  obtain ⟨w, text, mem⟩ := hr cursor cursor' notes notes' a deep ran
  exact ⟨w, text, le a w mem⟩

/-- A constant rule reads the empty text. -/
lemma pure (a : α) : Reads depth (pure a : Rule σ α) fun b w => b = a ∧ w = [] := by
  intro cursor cursor' notes notes' b _ ran
  cases ran
  exact ⟨[], rfl, rfl, rfl⟩

/-- A rule that always fails reads no text. -/
lemma failure {L : α → List Char → Prop} : Reads depth (failure : Rule σ α) L := nofun

/-- Lacking something is failing, so no text is read. -/
lemma lack {what : Expected} {L : α → List Char → Prop} :
    Reads depth (lack what : Rule σ α) L := nofun

/-- A sequence reads one text after the other. -/
lemma bind {r : Rule σ α} {f : α → Rule σ β} {L : α → List Char → Prop}
    {M : α → β → List Char → Prop} (hr : r.Reads depth L) (steady : r.Steady)
    (hf : ∀ a, (f a).Reads depth (M a)) :
    (r >>= f).Reads depth fun b w => ∃ a u v, w = u ++ v ∧ L a u ∧ M a b v := by
  intro cursor cursor' notes notes' b deep ran
  obtain ⟨a, between, notes'', ran, ran'⟩ := apply_bind_eq_some.1 ran
  have level := (steady cursor notes).depth
  rw [ran, deep] at level
  obtain ⟨u, first, memL⟩ := hr cursor between notes notes'' a deep ran
  obtain ⟨v, second, memM⟩ := hf a between cursor' notes'' notes' b level ran'
  exact ⟨u ++ v, by rw [first, second, List.append_assoc], a, u, v, rfl, memL, memM⟩

/-- An alternative reads what one of the two rules reads. -/
lemma orElse {r t : Rule σ α} {L : α → List Char → Prop} (hr : r.Reads depth L) (steady : r.Steady)
    (ht : t.Reads depth L) : (r <|> t).Reads depth L := by
  intro cursor cursor' notes notes' a deep ran
  have level := (steady cursor notes).depth
  rw [apply_orElse] at ran
  rcases e : r.apply cursor notes with ⟨_ | result, notes''⟩ <;> rw [e] at ran level
  · exact ht cursor cursor' notes'' notes' a (level.trans deep) ran
  · cases ran
    exact hr cursor cursor' notes notes' a deep e

/-- A run consists of characters that fit. -/
lemma span (p : Char → Bool) :
    Reads depth (span p : Rule σ (List Char)) fun run w => w = run ∧ ∀ c ∈ run, p c := by
  intro cursor cursor' notes notes' run _ ran
  cases ran
  exact ⟨_, (List.takeWhile_append_dropWhile).symm, rfl, fun c mem => List.mem_takeWhile_imp mem⟩

/-- A single character is read that fits. -/
lemma one (p : Char → Bool) (what : Expected) :
    Reads depth (one p what : Rule σ Char) fun c w => w = [c] ∧ p c := by
  intro cursor cursor' notes notes' c _ ran
  rw [apply_one] at ran
  split at ran
  · rename_i d rest e
    split at ran
    · rename_i fits
      cases ran
      exact ⟨[c], e, rfl, fits⟩
    · cases ran
  · cases ran

/-- A sign reads just itself. -/
lemma symbol (c : Char) (what : Expected) :
    Reads depth (symbol c what : Rule σ Unit) fun _ w => w = [c] := by
  refine ((one _ what).bind (.one _ what) fun _ => pure ()).weaken ?_
  rintro _ _ ⟨d, u, v, rfl, ⟨rfl, fits⟩, -, rfl⟩
  simpa using fits

/-- A repetition reads the texts of its values, one after the other. -/
lemma upTo {r : Rule σ α} {L : α → List Char → Prop} (hr : r.Reads depth L) (steady : r.Steady)
    (count : Nat) :
    (upTo count r).Reads depth fun as w => ∃ ws, w = ws.flatten ∧ List.Forall₂ L as ws := by
  induction count with
  | zero =>
    refine (pure []).weaken ?_
    rintro _ _ ⟨rfl, rfl⟩
    exact ⟨[], rfl, .nil⟩
  | succ count ih =>
    have more := hr.bind steady fun a => ih.bind (steady.upTo count) fun as => pure (a :: as)
    have steadyMore := steady.bind fun a => (steady.upTo count).bind fun as => .pure (a :: as)
    refine orElse (more.weaken ?_) steadyMore ((pure []).weaken ?_)
    · rintro _ _ ⟨a, u, _, rfl, mem, as, v, _, rfl, ⟨ws, rfl, mems⟩, rfl, rfl⟩
      exact ⟨u :: ws, by simp, .cons mem mems⟩
    · rintro _ _ ⟨rfl, rfl⟩
      exact ⟨[], rfl, .nil⟩

/-- A repetition is bounded only by the text, so it reads as one with a bound. -/
lemma many {r : Rule σ α} {L : α → List Char → Prop} (hr : r.Reads depth L) (steady : r.Steady) :
    (many r).Reads depth fun as w => ∃ ws, w = ws.flatten ∧ List.Forall₂ L as ws :=
  fun cursor cursor' notes notes' as deep ran =>
    hr.upTo steady _ cursor cursor' notes notes' as deep ran

/-- Nodes are handed over without reading anything. -/
lemma emit (sink : Sink σ) (n : Node) : (emit sink n).Reads depth fun _ w => w = [] := by
  intro cursor cursor' notes notes' h _ ran
  rw [apply_emit] at ran
  split at ran
  · cases ran
    exact ⟨[], rfl, rfl⟩
  · cases ran

end Rule.Reads

open Rule (Reads Steady)

/-- A text that is a factor as soon as blanks are put before it. -/
def Bare (n : Nat) (w : List Char) : Prop := ∀ b, Blank b → ∃ t, Phrase .factor n (b ++ w) t

/-- Digits are given their weights from the right, or one after the other from the left. -/
lemma decimal_eq_numeral (digits : List Char) : decimal digits = numeral digits := by
  induction digits using List.reverseRecOn with
  | nil => rfl
  | append_singleton digits c ih =>
    have left : decimal (digits ++ [c]) = 10 * decimal digits + (c.toNat - '0'.toNat) := by
      simp [decimal]
    have right : numeral (digits ++ [c]) = (c.toNat - '0'.toNat) + 10 * numeral digits := by
      simp [numeral, Nat.ofDigits_cons]
    rw [left, right, ih, Nat.add_comm]

/-- What is skipped consists of blanks. -/
lemma reads_blanks : Reads depth (blanks : Rule σ Unit) fun _ w => Blank w := by
  refine ((Reads.span isBlank).bind (.span _) fun _ => .pure ()).weaken ?_
  rintro _ _ ⟨run, u, v, rfl, ⟨rfl, blank⟩, -, rfl⟩
  rwa [List.append_nil]

/-- A variable is a factor without blanks in front. -/
lemma reads_letter (sink : Sink σ) (n : Nat) : (letter sink).Reads depth fun _ w => Bare n w := by
  refine ((Reads.one Char.isAlpha .letter).bind (.one _ _) fun c => .emit sink (.var c)).weaken ?_
  rintro _ _ ⟨c, u, v, rfl, ⟨rfl, alpha⟩, rfl⟩ b blank
  exact ⟨_, .letter blank alpha⟩

/-- A constant is a factor without blanks in front. -/
lemma reads_number (sink : Sink σ) (n : Nat) : (number sink).Reads depth fun _ w => Bare n w := by
  have tail (digits : List Char) : Reads depth (do
      Rule.note .digit
      if digits.isEmpty then failure
      else if decimal digits ≤ maxNumber then Rule.emit sink (.const (Int64.ofNat (decimal digits)))
      else Rule.lack .smallerNumber)
      fun _ w => w = [] ∧ digits ≠ [] ∧ decimal digits ≤ maxNumber := by
    intro cursor cursor' notes notes' h deep ran
    rw [Rule.apply_bind, Rule.apply_note] at ran
    split_ifs at ran with empty small
    · cases ran
    · obtain ⟨w, text, rfl⟩ := Reads.emit sink _ cursor cursor' _ notes' h rfl ran
      exact ⟨[], text, rfl, by simpa using empty, small⟩
    · cases ran
  refine ((Reads.span Char.isDigit).bind (.span _) tail).weaken ?_
  rintro _ _ ⟨digits, u, v, rfl, ⟨rfl, all⟩, rfl, some, small⟩ b blank
  rw [decimal_eq_numeral] at small
  rw [List.append_nil]
  refine ⟨_, .number blank some all small (v := Int64.ofNat (numeral u)) ?_⟩
  exact Int64.toInt_ofNat_of_lt (by rw [maxNumber] at small; omega)

/-- What stands one level deeper is read there, and there is room for that level. -/
lemma reads_nested {r : Rule σ α} {L : α → List Char → Prop}
    (hr : depth < nestingLimit → r.Reads (depth + 1) L) :
    (nested r).Reads depth fun a w => depth < nestingLimit ∧ ∀ b, a = some b → L b w := by
  intro cursor cursor' notes notes' a deep ran
  rw [nested, Rule.apply_bind, apply_descend] at ran
  rw [deep] at ran
  by_cases shallow : depth < nestingLimit
  · rw [if_pos shallow] at ran
    simp only [Rule.apply_bind, Rule.apply_optional] at ran
    rcases e : r.apply cursor { notes with depth := depth + 1 } with
      ⟨_ | ⟨b, cursor''⟩, notes''⟩ <;> rw [e] at ran <;> cases ran
    · exact ⟨[], rfl, shallow, nofun⟩
    · obtain ⟨w, text, mem⟩ := hr shallow _ _ _ _ b rfl e
      refine ⟨w, text, shallow, ?_⟩
      rintro _ ⟨⟩
      exact mem
  · rw [if_neg shallow] at ran
    cases ran

/-- Parentheses around a sum one level deeper. -/
lemma reads_parenthesized {inner : Rule σ Handle} {n : Nat} (limit : n + depth = nestingLimit)
    (hi : ∀ m, m + (depth + 1) = nestingLimit →
      inner.Reads (depth + 1) fun _ w => ∃ t, Phrase .sum m w t)
    (steady : inner.Steady) : (parenthesized inner).Reads depth fun _ w => Bare n w := by
  have below := reads_nested fun shallow => hi (n - 1) (by omega)
  refine ((Reads.symbol '(' .openParen).bind (.symbol _ _) fun _ =>
    below.bind (steady_nested steady) fun inside => reads_blanks.bind steady_blanks fun _ =>
    (Reads.symbol ')' .closeParen).bind (M := fun _ h w => inside = some h ∧ w = []) (.symbol _ _)
      fun _ => ?_).weaken ?_
  · cases inside with
    | none => exact .lack
    | some h => exact (Reads.pure h).weaken fun _ _ e => ⟨congrArg some e.1.symm, e.2⟩
  rintro h _ ⟨-, _, _, rfl, rfl, inside, w, _, rfl, ⟨shallow, phrase⟩, -, b', _, rfl, blank', -, _, _,
    rfl, rfl, rfl, rfl⟩ b blank
  obtain ⟨m, rfl⟩ : ∃ m, n = m + 1 := ⟨n - 1, by omega⟩
  obtain ⟨t, p⟩ := phrase h rfl
  exact ⟨t, .parenthesized blank p blank'⟩

/-- A minus before a factor one level deeper. -/
lemma reads_negated (sink : Sink σ) {inner : Rule σ Handle} {n : Nat}
    (limit : n + depth = nestingLimit)
    (hi : ∀ m, m + (depth + 1) = nestingLimit →
      inner.Reads (depth + 1) fun _ w => ∃ t, Phrase .factor m w t)
    (steady : inner.Steady) : (negated sink inner).Reads depth fun _ w => Bare n w := by
  have below := reads_nested fun shallow => hi (n - 1) (by omega)
  refine ((Reads.symbol '-' .minus).bind (.symbol _ _) fun _ =>
    below.bind (M := fun inside _ w => (∃ h, inside = some h) ∧ w = []) (steady_nested steady)
      fun inside => ?_).weaken ?_
  · cases inside with
    | none => exact .lack
    | some h => exact (Reads.emit sink _).weaken fun _ _ e => ⟨⟨h, rfl⟩, e⟩
  rintro _ _ ⟨-, _, _, rfl, rfl, inside, w, _, rfl, ⟨shallow, phrase⟩, ⟨h, rfl⟩, rfl⟩ b blank
  obtain ⟨m, rfl⟩ : ∃ m, n = m + 1 := ⟨n - 1, by omega⟩
  obtain ⟨t, p⟩ := phrase h rfl
  rw [List.append_nil]
  exact ⟨_, .negation blank p⟩

/-- Handing over operators reads nothing. -/
lemma reads_link (sink : Sink σ) (first : Handle) (rest : List (Op × Handle)) :
    (link sink first rest).Reads depth fun _ w => w = [] := by
  induction rest generalizing first with
  | nil => exact (Reads.pure first).weaken fun _ _ e => e.2
  | cons item rest ih =>
    refine ((Reads.emit sink _).bind (.emit sink _) fun h => ih h).weaken ?_
    rintro _ _ ⟨h, u, v, rfl, rfl, rfl⟩
    rfl

/-- An operator and an operand make an item. -/
lemma reads_item {op : Rule σ Op} {operand : Rule σ Handle} {sign : Char → Op → Prop}
    {phrase : List Char → Tree Kind → Prop} (ho : op.Reads depth fun o w => ∃ c, w = [c] ∧ sign c o)
    (so : op.Steady) (hr : operand.Reads depth fun _ w => ∃ t, phrase w t) (sr : operand.Steady) :
    (item op operand).Reads depth fun _ w => ∃ i : Item, i.word = w ∧ i.Spelled sign phrase := by
  refine (reads_blanks.bind steady_blanks fun _ => ho.bind so fun o => hr.bind sr fun right =>
    .pure (o, right)).weaken ?_
  rintro _ _ ⟨-, b, _, rfl, blank, o, _, _, rfl, ⟨c, rfl, mark⟩, right, v, _, rfl, ⟨t, p⟩, -, rfl⟩
  rw [List.append_nil]
  exact ⟨⟨b ++ c :: v, o, t⟩, rfl, b, c, v, rfl, blank, mark, p⟩

/-- Texts of items, one after the other, are the text of a list of items. -/
lemma exists_items {P : Item → Prop} {as : List α} {ws : List (List Char)}
    (each : List.Forall₂ (fun _ w => ∃ i : Item, i.word = w ∧ P i) as ws) :
    ∃ items, ws.flatten = Item.text items ∧ ∀ i ∈ items, P i := by
  induction each with
  | nil => exact ⟨[], rfl, by simp⟩
  | cons first _ ih =>
    obtain ⟨i, rfl, hi⟩ := first
    obtain ⟨items, text, all⟩ := ih
    refine ⟨i :: items, ?_, List.forall_mem_cons.2 ⟨hi, all⟩⟩
    rw [List.flatten_cons, text, Item.text_cons]

/-- A series of what the operand rule reads. -/
lemma reads_series (sink : Sink σ) {op : Rule σ Op} {operand : Rule σ Handle}
    {sign : Char → Op → Prop} {phrase : List Char → Tree Kind → Prop}
    (ho : op.Reads depth fun o w => ∃ c, w = [c] ∧ sign c o) (so : op.Steady)
    (hr : operand.Reads depth fun _ w => ∃ t, phrase w t) (sr : operand.Steady) :
    (series sink op operand).Reads depth fun _ w => ∃ t, Series sign phrase w t := by
  refine (hr.bind sr fun first => ((reads_item ho so hr sr).many (steady_item so sr)).bind
    (steady_item so sr).many fun rest => reads_link sink first rest).weaken ?_
  rintro _ _ ⟨-, u, _, rfl, ⟨t, p⟩, as, _, _, rfl, ⟨ws, rfl, each⟩, rfl⟩
  obtain ⟨items, text, spelled⟩ := exists_items each
  rw [List.append_nil, text]
  exact ⟨_, (Series.single p).append spelled⟩

/-- A choice between two signs reads one of them. -/
lemma reads_either {sign : Char → Op → Prop} {c c' : Char} {what what' : Expected} {o o' : Op}
    (mark : sign c o) (mark' : sign c' o') :
    Reads depth (either c what o c' what' o' : Rule σ Op) fun o w => ∃ c, w = [c] ∧ sign c o := by
  refine Reads.orElse (((Reads.symbol c what).bind (.symbol _ _) fun _ => .pure _).weaken ?_)
    ((Steady.symbol _ _).bind fun _ => .pure _)
    (((Reads.symbol c' what').bind (.symbol _ _) fun _ => .pure _).weaken ?_)
  · rintro _ _ ⟨-, _, _, rfl, rfl, rfl, rfl⟩
    exact ⟨c, rfl, mark⟩
  · rintro _ _ ⟨-, _, _, rfl, rfl, rfl, rfl⟩
    exact ⟨c', rfl, mark'⟩

/-- A sum is read if factors are read as such. -/
lemma reads_sum (sink : Sink σ) {factor : Rule σ Handle} {n : Nat} (steady : factor.Steady)
    (hf : factor.Reads depth fun _ w => ∃ t, Phrase .factor n w t) :
    (sum sink factor).Reads depth fun _ w => ∃ t, Phrase .sum n w t := by
  have products : (product sink factor).Reads depth fun _ w => ∃ t, Phrase .product n w t :=
    (reads_series sink (reads_either .times .over) steady_either hf steady).weaken
      fun _ _ p => p.imp fun _ => product_iff.2
  exact (reads_series sink (reads_either .plus .minus) steady_either products
    (steady_product sink steady)).weaken fun _ _ p => p.imp fun _ => sum_iff.2

/-- Factors are read as deep as the levels above them allow. -/
lemma reads_factor (sink : Sink σ) (levels : Nat) {n depth : Nat} (limit : n + depth = nestingLimit) :
    (factor sink levels).Reads depth fun _ w => ∃ t, Phrase .factor n w t := by
  -- A level costs one of the nestings that are left, so that both together stay at the limit.
  induction levels generalizing n depth with
  | zero => exact .failure
  | succ levels ih =>
    have steady := steady_factor sink levels
    have bare : Reads depth (letter sink <|> number sink <|>
        parenthesized (sum sink (factor sink levels)) <|> negated sink (factor sink levels))
        fun _ w => Bare n w :=
      (reads_letter sink n).orElse (steady_letter sink) <|
      (reads_number sink n).orElse (steady_number sink) <|
      (reads_parenthesized limit (fun m room => reads_sum sink steady (ih room))
        (steady_sum sink steady)).orElse (steady_parenthesized (steady_sum sink steady)) <|
      reads_negated sink limit (fun m room => ih room) steady
    refine (reads_blanks.bind steady_blanks fun _ => bare).weaken ?_
    rintro _ _ ⟨-, b, w, rfl, blank, phrase⟩
    exact phrase b blank

/-- The text is at its end where the end is found. -/
lemma rest_of_done {cursor cursor' : Cursor} {notes notes' : Notes σ}
    (ran : Rule.apply Rule.done cursor notes = (some ((), cursor'), notes')) : cursor.rest = [] := by
  rw [Rule.apply_done] at ran
  split at ran
  · assumption
  · cases ran

/-- A text that can be read is the text of an expression. -/
theorem text_of_read {sink : Sink σ} {text : List Char} {nodes : σ} {h : Handle} {notes : Notes σ}
    (ran : read sink text nodes = (some h, notes)) : ∃ t, Text text t := by
  have reads := reads_sum sink (steady_factor sink _)
    (reads_factor sink (nestingLimit + 1) (Nat.add_zero nestingLimit))
  rw [read] at ran
  rcases e : Rule.apply (expression sink) ⟨0, text⟩ { nodes } with ⟨_ | ⟨h, cursor⟩, notes'⟩ <;>
    rw [e] at ran
  · cases ran
  · obtain ⟨_, middle, _, ranSum, e⟩ := Rule.apply_bind_eq_some.1 e
    obtain ⟨_, last, _, ranBlanks, e⟩ := Rule.apply_bind_eq_some.1 e
    obtain ⟨_, _, _, ranDone, -⟩ := Rule.apply_bind_eq_some.1 e
    obtain ⟨v, start, t, phrase⟩ := reads _ _ _ _ _ rfl ranSum
    obtain ⟨b, stop, blank⟩ := reads_blanks _ _ _ _ _ rfl ranBlanks
    rw [rest_of_done ranDone, List.append_nil] at stop
    exact ⟨t, v, b, by rw [← stop, ← start], phrase, blank⟩

end ExprOpt.Grammar
