import ExprOpt.Grammar.Parsing
import ExprOpt.Proofs.Grammar.Delivery
import ExprOpt.Proofs.Grammar.Soundness
import Mathlib.Data.List.Forall2

/-!
# Every phrase is read

A rule that stands before a phrase of its category reads the whole of it and no more, and hands over the
nodes of its tree. This needs a rest that cannot be taken for a part of the phrase (`After`): no digit
right behind a number, and no further operator of a series behind the blanks.
-/

namespace ExprOpt.Grammar

variable {σ α : Type} {sink : Sink σ} {C : sink.Contract} {notes : Notes σ} {depth k offset : Nat}
  {rest text : List Char}

/-! ### Tokens -/

/-- A run ends where the next character does not fit. -/
lemma span_append {p : Char → Bool} {run : List Char} (all : ∀ c ∈ run, p c) (other : NotAhead p rest) :
    (run ++ rest).takeWhile p = run ∧ (run ++ rest).dropWhile p = rest := by
  rw [List.takeWhile_append_of_pos all, List.dropWhile_append_of_pos all]
  cases rest with
  | nil => simp
  | cons c rest => simp [other c rfl]

/-- The blanks before another character are skipped. -/
lemma apply_blanks {b : List Char} (blank : Blank b) (other : NotAhead isBlank rest) :
    Rule.apply blanks ⟨offset, b ++ rest⟩ notes =
      (some ((), ⟨offset + b.length, rest⟩), notes) := by
  obtain ⟨taken, dropped⟩ := span_append blank other
  rw [blanks, Rule.apply_bind, Rule.apply_span]
  simp only [taken, dropped, Rule.apply_pure]

/-- A sign that is there is read, and nothing is recorded. -/
lemma apply_symbol (c : Char) (what : Expected) :
    (Rule.symbol c what).apply ⟨offset, c :: rest⟩ notes = (some ((), ⟨offset + 1, rest⟩), notes) := by
  rw [Rule.symbol, Rule.apply_bind, Rule.apply_one]
  simp

/-- Only the first character decides what is ahead. -/
lemma notAhead_cons {p : Char → Bool} {c : Char} (no : p c = false) : NotAhead p (c :: rest) := by
  rintro _ ⟨⟩
  exact no

/-- Neither blanks nor what is not of a kind begins with a character of that kind. -/
lemma notAhead_append {p : Char → Bool} {b : List Char} (blank : Blank b)
    (no : ∀ c, isBlank c → p c = false) (other : NotAhead p rest) : NotAhead p (b ++ rest) := by
  cases b with
  | nil => exact other
  | cons c b => exact notAhead_cons (no c (blank c List.mem_cons_self))

/-- No blank is a digit. -/
lemma isDigit_of_isBlank (c : Char) (blank : isBlank c) : c.isDigit = false := by
  simp only [isBlank, Bool.or_eq_true, decide_eq_true_eq] at blank
  rcases blank with ((rfl | rfl) | rfl) | rfl <;> rfl

/-- No blank is a letter. -/
lemma isAlpha_of_isBlank (c : Char) (blank : isBlank c) : c.isAlpha = false := by
  simp only [isBlank, Bool.or_eq_true, decide_eq_true_eq] at blank
  rcases blank with ((rfl | rfl) | rfl) | rfl <;> rfl

/-- A character of a kind that blanks are not of is no blank. -/
lemma notBlank_of {p : Char → Bool} (no : ∀ c, isBlank c → p c = false) {c : Char} (yes : p c) :
    isBlank c = false :=
  Bool.eq_false_iff.2 fun blank => Bool.false_ne_true ((no c blank).symm.trans yes)

/-- No digit is a letter. -/
lemma isAlpha_of_isDigit (c : Char) (digit : c.isDigit) : c.isAlpha = false := by
  unfold Char.isDigit at digit
  unfold Char.isAlpha Char.isUpper Char.isLower
  simp only [Bool.and_eq_true, decide_eq_true_eq, UInt32.le_iff_toNat_le, ge_iff_le] at digit
  simp only [Bool.or_eq_false_iff, Bool.and_eq_false_iff, decide_eq_false_iff_not,
    UInt32.le_iff_toNat_le, ge_iff_le]
  have : '9'.val.toNat = 57 := rfl
  have : 'A'.val.toNat = 65 := rfl
  have : 'a'.val.toNat = 97 := rfl
  omega

/-! ### What may follow -/

/-- No sign stands behind the blanks. -/
def Unsigned (sign : Char → Op → Prop) (rest : List Char) : Prop :=
  ∀ c op, (rest.dropWhile isBlank).head? = some c → ¬ sign c op

/-- The rest cannot be taken for a part of a phrase before it. -/
def After : Category → List Char → Prop
  | .factor, rest => NotAhead Char.isDigit rest
  | .product, rest => NotAhead Char.isDigit rest ∧ Unsigned ProductSign rest
  | .sum, rest => (NotAhead Char.isDigit rest ∧ Unsigned ProductSign rest) ∧ Unsigned SumSign rest

/-- An operator rule that reads exactly the signs of a series. -/
structure Signs (op : Rule σ Op) (sign : Char → Op → Prop) : Prop where
  steady : op.Steady
  notBlank {c : Char} {o : Op} : sign c o → isBlank c = false
  takes {c : Char} {o : Op} : sign c o → ∀ (offset : Nat) (rest : List Char) (notes : Notes σ),
    ∃ furthest, op.apply ⟨offset, c :: rest⟩ notes =
      (some (o, ⟨offset + 1, rest⟩), { notes with furthest })
  misses {text : List Char} : (∀ c o, text.head? = some c → ¬ sign c o) → op.Misses text

/-- A choice between two signs reads just these two. -/
lemma signs_either {sign : Char → Op → Prop} {c c' : Char} {what what' : Expected} {o o' : Op}
    (signs : ∀ d q, sign d q ↔ d = c ∧ q = o ∨ d = c' ∧ q = o') (ne : c' ≠ c)
    (dark : isBlank c = false) (dark' : isBlank c' = false) :
    Signs (either c what o c' what' o' : Rule σ Op) sign where
  steady := steady_either
  notBlank mark := by
    rcases (signs _ _).1 mark with ⟨rfl, -⟩ | ⟨rfl, -⟩
    · exact dark
    · exact dark'
  takes {d q} mark offset rest notes := by
    rw [either, Rule.apply_orElse, Rule.apply_bind]
    rcases (signs _ _).1 mark with ⟨rfl, rfl⟩ | ⟨rfl, rfl⟩
    · exact ⟨notes.furthest, by rw [apply_symbol]; rfl⟩
    · have missed : (Rule.symbol c what : Rule σ Unit).Misses (d :: rest) :=
        .symbol fun ahead => ne (Option.some.inj ahead)
      obtain ⟨furthest, ran⟩ := missed offset notes
      rw [ran]
      exact ⟨furthest, by dsimp only; rw [Rule.apply_bind, apply_symbol]; rfl⟩
  misses other := by
    refine (Rule.Misses.bind (.symbol fun ahead => ?_)).orElse (.bind (.symbol fun ahead => ?_))
    · exact other _ o ahead ((signs _ _).2 (.inl ⟨rfl, rfl⟩))
    · exact other _ o' ahead ((signs _ _).2 (.inr ⟨rfl, rfl⟩))

/-- Products are written with an asterisk and a slash. -/
lemma productSign_iff (c : Char) (o : Op) :
    ProductSign c o ↔ c = '*' ∧ o = .mul ∨ c = '/' ∧ o = .div := by
  constructor
  · rintro (_ | _) <;> simp
  · rintro (⟨rfl, rfl⟩ | ⟨rfl, rfl⟩)
    · exact .times
    · exact .over

/-- Sums are written with a plus and a minus. -/
lemma sumSign_iff (c : Char) (o : Op) : SumSign c o ↔ c = '+' ∧ o = .add ∨ c = '-' ∧ o = .sub := by
  constructor
  · rintro (_ | _) <;> simp
  · rintro (⟨rfl, rfl⟩ | ⟨rfl, rfl⟩)
    · exact .plus
    · exact .minus

/-! ### Factors -/

/-- A letter is a variable, and one node. -/
lemma delivers_letter {c : Char} (alpha : c.isAlpha) :
    Delivers C notes 1 rest (fun h nodes => C.Holds nodes (some h) (.node (.var c) .nil .nil))
      ((letter sink).apply ⟨offset, c :: rest⟩ notes) := by
  rw [letter, Rule.apply_bind, Rule.apply_one]
  simp only [alpha, if_true]
  exact Delivers.emit (n := .var c) (C.holds_nil _) (C.holds_nil _)

/-- Digits that make up a small number are a constant, and one node. There must be no further digit behind
them. -/
lemma delivers_number {digits : List Char} {v : Int64} (nonempty : digits ≠ [])
    (all : ∀ c ∈ digits, c.isDigit) (small : numeral digits ≤ 2 ^ 63 - 1)
    (exact : v.toInt = numeral digits) (other : NotAhead Char.isDigit rest) :
    Delivers C notes 1 rest (fun h nodes => C.Holds nodes (some h) (.node (.const v) .nil .nil))
      ((number sink).apply ⟨offset, digits ++ rest⟩ notes) := by
  have value : Int64.ofNat (decimal digits) = v := by
    rw [← Int64.toInt_inj, exact, decimal_eq_numeral]
    exact Int64.toInt_ofNat_of_lt (by omega)
  obtain ⟨taken, dropped⟩ := span_append all other
  rw [number, Rule.apply_bind, Rule.apply_span]
  simp only [taken, dropped]
  rw [Rule.apply_bind, Rule.apply_note, if_neg (by simpa using nonempty),
    if_pos (by rw [decimal_eq_numeral]; exact small), value]
  exact (Delivers.emit (n := .const v) (C.holds_nil _) (C.holds_nil _)).of_furthest

/-- There is no constant where no digit stands. -/
lemma misses_number (other : NotAhead Char.isDigit text) : (number sink).Misses text := by
  intro offset notes
  obtain ⟨taken, dropped⟩ := span_append (List.forall_mem_nil _) other
  rw [List.nil_append] at taken dropped
  rw [number, Rule.apply_bind, Rule.apply_span]
  simp only [taken, dropped]
  exact ⟨_, rfl⟩

/-- A rule that misses behind the blanks misses before them. -/
lemma misses_blanks {f : Unit → Rule σ α} (misses : (f ()).Misses (text.dropWhile isBlank)) :
    (blanks >>= f).Misses text := by
  intro offset notes
  rw [Rule.apply_bind]
  exact misses _ notes

/-- What must succeed one level deeper must succeed, if there is such a level. -/
lemma delivers_nested {r : Rule σ α} {Q : α → σ → Prop} (shallow : notes.depth < nestingLimit)
    (inner : Delivers C { notes with depth := notes.depth + 1 } k rest Q
      (r.apply ⟨offset, text⟩ { notes with depth := notes.depth + 1 })) :
    Delivers C notes k rest (fun a nodes => ∃ b, a = some b ∧ Q b nodes)
      ((nested r).apply ⟨offset, text⟩ notes) := by
  rw [nested, Rule.apply_bind, apply_descend, if_pos shallow]
  simp only [Rule.apply_bind, Rule.apply_optional]
  generalize r.apply ⟨offset, text⟩ { notes with depth := notes.depth + 1 } = outcome at inner
  cases inner with
  | done p q =>
    exact .done ⟨Nat.sub_eq_of_eq_add p.depth, p.refused, p.holds, p.room, p.fits⟩ ⟨_, rfl, q⟩
  | @full result notes' refused short =>
    match result with
    | none => exact .full refused short
    | some (a, cursor') => exact .full refused short

/-- Parentheses hand over what is inside them, if they are not nested too deep. -/
lemma delivers_parenthesized {inner : Rule σ Handle} {Q : Handle → σ → Prop} {b : List Char}
    (shallow : notes.depth < nestingLimit) (blank : Blank b)
    (inside : ∀ offset, Delivers C { notes with depth := notes.depth + 1 } k (b ++ ')' :: rest) Q
      (inner.apply ⟨offset, text⟩ { notes with depth := notes.depth + 1 })) :
    Delivers C notes k rest Q ((parenthesized inner).apply ⟨offset, '(' :: text⟩ notes) := by
  rw [parenthesized, parenthesizedBy, Rule.apply_bind, apply_symbol]
  refine Delivers.bind (j := 0) (delivers_nested shallow (inside _)) steady_closing ?_
  rintro _ offset notes' - ⟨h, rfl, held⟩
  rw [closing.eq_def, Rule.apply_bind, apply_blanks blank (notAhead_cons rfl)]
  dsimp only
  rw [Rule.apply_bind, apply_symbol]
  exact .pure held

/-- A negation is one more node than its operand, if it is not nested too deep. -/
lemma delivers_negated {inner : Rule σ Handle} {t : Tree Kind} (shallow : notes.depth < nestingLimit)
    (inside : ∀ offset, Delivers C { notes with depth := notes.depth + 1 } k rest
      (fun h nodes => C.Holds nodes (some h) t)
      (inner.apply ⟨offset, text⟩ { notes with depth := notes.depth + 1 })) :
    Delivers C notes (k + 1) rest
      (fun h nodes => C.Holds nodes (some h) (.node (.op .sub) t .nil))
      ((negated sink inner).apply ⟨offset, '-' :: text⟩ notes) := by
  rw [negated, negatedBy, Rule.apply_bind, apply_symbol]
  refine Delivers.bind (delivers_nested shallow (inside _)) (fun a => ?_) ?_
  · cases a with
    | none => exact .lack _
    | some h => exact .emit sink _
  · rintro _ offset notes' - ⟨h, rfl, held⟩
    exact Delivers.emit (n := .negation h) held (C.holds_nil _)

/-- A rule that reads every phrase and hands over its tree, before a rest that may follow. -/
def Accepts (C : sink.Contract) (depth : Nat) (follow : List Char → Prop) (r : Rule σ Handle)
    (phrase : List Char → Tree Kind → Prop) : Prop :=
  ∀ (w : List Char) (t : Tree Kind) (rest : List Char), phrase w t → follow rest →
    ∀ (offset : Nat) (notes : Notes σ), notes.depth = depth →
      Delivers C notes t.size rest (fun h nodes => C.Holds nodes (some h) t)
        (r.apply ⟨offset, w ++ rest⟩ notes)

/-! ### Series -/

section Series

variable {op : Rule σ Op} {sign : Char → Op → Prop} {operand : Rule σ Handle}
  {phrase : List Char → Tree Kind → Prop} {follow : List Char → Prop}

/-- The operators and the handles of operands stand for the items. -/
def StandFor (C : sink.Contract) (nodes : σ) : List (Op × Handle) → List Item → Prop :=
  List.Forall₂ fun a i => a.1 = i.op ∧ C.Holds nodes (some a.2) i.tree

/-- An item is an operator and all that its operand is spelled with. -/
lemma delivers_item (signs : Signs op sign)
    (accepts : Accepts C depth follow operand phrase) {i : Item} (spelled : i.Spelled sign phrase)
    (next : follow rest) (deep : notes.depth = depth) :
    Delivers C notes i.tree.size rest
      (fun a nodes => a.1 = i.op ∧ C.Holds nodes (some a.2) i.tree)
      ((item op operand).apply ⟨offset, i.word ++ rest⟩ notes) := by
  obtain ⟨b, c, v, word, blank, mark, p⟩ := spelled
  obtain ⟨furthest, ran⟩ := signs.takes mark (offset + b.length) (v ++ rest) notes
  rw [word, List.append_assoc, List.cons_append, item, Rule.apply_bind,
    apply_blanks blank (notAhead_cons (signs.notBlank mark))]
  dsimp only
  rw [Rule.apply_bind, ran]
  refine Delivers.of_furthest (Delivers.bind (j := 0) (accepts v i.tree rest p next _ _ deep)
    (fun right => .pure _) fun right offset notes' _ held => .pure ⟨rfl, held⟩)

/-- There is no item where no sign stands behind the blanks. -/
lemma misses_item (signs : Signs op sign) (unsigned : Unsigned sign rest) :
    (item op operand).Misses rest :=
  misses_blanks (.bind (signs.misses unsigned))

/-- What may follow an operand is the rest of the series or what follows that. -/
lemma follow_items (next : follow rest)
    (marked : ∀ b c o v, Blank b → sign c o → follow (b ++ c :: v)) {items : List Item}
    (spelled : ∀ i ∈ items, i.Spelled sign phrase) : follow (Item.text items ++ rest) := by
  cases items with
  | nil => exact next
  | cons i items =>
    obtain ⟨b, c, v, word, blank, mark, -⟩ := spelled i List.mem_cons_self
    rw [Item.text_cons, word, List.append_assoc, List.append_assoc]
    exact marked b c i.op _ blank mark

/-- Items are read up to where no further sign follows. -/
lemma delivers_upTo (signs : Signs op sign) (steady : operand.Steady)
    (accepts : Accepts C depth follow operand phrase) (next : follow rest)
    (marked : ∀ b c o v, Blank b → sign c o → follow (b ++ c :: v)) (unsigned : Unsigned sign rest)
    {items : List Item} (spelled : ∀ i ∈ items, i.Spelled sign phrase) {count : Nat}
    (enough : items.length ≤ count) (offset : Nat) (deep : notes.depth = depth) :
    Delivers C notes (items.map fun i => i.tree.size).sum rest
      (fun rights nodes => StandFor C nodes rights items)
      ((Rule.upTo count (item op operand)).apply ⟨offset, Item.text items ++ rest⟩ notes) := by
  have steadyItem := steady_item signs.steady steady
  -- The bound on the repetitions never ends the loop early: it ends before a rest without a sign.
  induction items generalizing count notes offset with
  | nil =>
    cases count with
    | zero => exact .pure .nil
    | succ count => exact .orElse_right (.bind (misses_item signs unsigned)) fun _ => .pure .nil
  | cons i items ih =>
    cases count with
    | zero => cases enough
    | succ count =>
      obtain ⟨first, others⟩ := List.forall_mem_cons.1 spelled
      have follows := follow_items next marked others
      rw [Item.text_cons, List.append_assoc, List.map_cons, List.sum_cons]
      refine .orElse_left ?_ (.pure [])
      refine (delivers_item signs accepts first follows deep).bind
        (fun a => (steadyItem.upTo count).bind fun as => .pure _) ?_
      intro a offset₁ notes₁ progress held
      have later := ih others (Nat.le_of_succ_le_succ enough) offset₁ (progress.depth.trans deep)
      refine Delivers.bind (j := 0) later (fun as => .pure _) fun as _ notes₂ progress' helds => ?_
      exact .pure (.cons ⟨held.1, progress'.holds _ _ held.2⟩ helds)

/-- The operators of a series are handed over above its operands. -/
lemma delivers_link {first : Handle} {t : Tree Kind} {rights : List (Op × Handle)} {items : List Item}
    (held : C.Holds notes.nodes (some first) t)
    (helds : StandFor C notes.nodes rights items) :
    Delivers C notes items.length rest (fun h nodes => C.Holds nodes (some h) (Item.build t items))
      ((link sink first rights).apply ⟨offset, rest⟩ notes) := by
  induction items generalizing first t notes rights offset with
  | nil =>
    cases helds
    exact .pure held
  | cons i items ih =>
    obtain _ | @⟨⟨o, right⟩, _, _, _, ⟨rfl, now⟩, later⟩ := helds
    rw [List.length_cons, Nat.add_comm]
    refine Delivers.bind (.emit held now) (fun h => steady_link sink h _)
      fun h _ notes' progress above => ih above ?_
    exact later.imp fun a i stands => ⟨stands.1, progress.holds _ _ stands.2⟩

/-- A long list of items has a long text. -/
lemma length_le_text {items : List Item} (spelled : ∀ i ∈ items, i.Spelled sign phrase) :
    items.length ≤ (Item.text items).length := by
  induction items with
  | nil => exact Nat.le_refl 0
  | cons i items ih =>
    obtain ⟨first, others⟩ := List.forall_mem_cons.1 spelled
    obtain ⟨b, c, v, word, -⟩ := first
    have := ih others
    simp only [Item.text_cons, word, List.length_append, List.length_cons]
    omega

/-- A series of phrases is accepted where no further sign follows. -/
lemma accepts_series (signs : Signs op sign) (steady : operand.Steady)
    (accepts : Accepts C depth follow operand phrase)
    (marked : ∀ b c o v, Blank b → sign c o → follow (b ++ c :: v)) :
    Accepts C depth (fun rest => follow rest ∧ Unsigned sign rest) (series sink op operand)
      (Series sign phrase) := by
  rintro w t rest p ⟨next, unsigned⟩ offset notes deep
  obtain ⟨v, first, items, q, spelled, rfl, rfl⟩ := p.items
  rw [Item.size_build, Item.nodes, List.append_assoc]
  have steadyItem := steady_item signs.steady steady
  have enough : items.length ≤ (Item.text items ++ rest).length + 1 := by
    have := length_le_text spelled
    rw [List.length_append]
    omega
  have follows := follow_items next marked spelled
  refine (accepts v first _ q follows offset notes deep).bind
    (fun h => steadyItem.many.bind fun rights => steady_link sink h rights) ?_
  intro h offset₁ notes₁ progress held
  have loop := delivers_upTo signs steady accepts next marked unsigned spelled enough offset₁
    (progress.depth.trans deep)
  refine loop.bind (fun rights => steady_link sink h rights) ?_
  intro rights offset₂ notes₂ progress' helds
  exact delivers_link (progress'.holds _ _ held) helds

end Series

/-! ### Whole texts -/

/-- A character behind blanks that is no sign keeps the text from going on with one. -/
lemma unsigned_append {sign : Char → Op → Prop} {b : List Char} {c : Char} (blank : Blank b)
    (dark : isBlank c = false) (other : ∀ o, ¬ sign c o) : Unsigned sign (b ++ c :: rest) := by
  intro d o ahead
  rw [(span_append blank (notAhead_cons dark)).2] at ahead
  cases ahead
  exact other o

/-- Products are accepted if factors are. -/
lemma accepts_product {factor : Rule σ Handle} {n : Nat} (steady : factor.Steady)
    (accepts : Accepts C depth (After .factor) factor (Phrase .factor n)) :
    Accepts C depth (After .product) (product sink factor) (Phrase .product n) := by
  have signs : Signs (productOp : Rule σ Op) ProductSign :=
    signs_either productSign_iff (by decide) rfl rfl
  have marked (b c o v) (blank : Blank b) (mark : ProductSign c o) : After .factor (b ++ c :: v) := by
    refine notAhead_append blank isDigit_of_isBlank (notAhead_cons ?_)
    cases mark <;> rfl
  intro w t rest p next
  exact accepts_series signs steady accepts marked w t rest (product_iff.1 p) next

/-- Sums are accepted if factors are. -/
lemma accepts_sum {factor : Rule σ Handle} {n : Nat} (steady : factor.Steady)
    (accepts : Accepts C depth (After .factor) factor (Phrase .factor n)) :
    Accepts C depth (After .sum) (sum sink factor) (Phrase .sum n) := by
  have signs : Signs (sumOp : Rule σ Op) SumSign := signs_either sumSign_iff (by decide) rfl rfl
  have marked (b c o v) (blank : Blank b) (mark : SumSign c o) : After .product (b ++ c :: v) := by
    refine ⟨notAhead_append blank isDigit_of_isBlank (notAhead_cons ?_),
      unsigned_append blank (signs.notBlank mark) ?_⟩
    · cases mark <;> rfl
    · cases mark <;> nofun
  have products := accepts_product steady accepts
  intro w t rest p next
  exact accepts_series signs (steady_product sink steady) products marked w t rest (sum_iff.1 p) next

/-- The blanks before a factor are skipped. -/
lemma apply_factor {levels : Nat} {b : List Char} (blank : Blank b) (other : NotAhead isBlank text) :
    (factor sink (levels + 1)).apply ⟨offset, b ++ text⟩ notes =
      (letter sink <|> number sink <|> parenthesized (sum sink (factor sink levels)) <|>
        negated sink (factor sink levels)).apply ⟨offset + b.length, text⟩ notes := by
  rw [factor_succ, Rule.apply_bind, apply_blanks blank other]

/-- Factors are accepted with all that they enclose, if there are enough levels. -/
lemma accepts_factor (C : sink.Contract) {n levels depth : Nat} (enough : n < levels)
    (limit : n + depth ≤ nestingLimit) :
    Accepts C depth (After .factor) (factor sink levels) (Phrase .factor n) := by
  induction levels generalizing n depth with
  | zero => cases enough
  | succ levels ih =>
    rintro w t rest p next offset notes rfl
    have steady := steady_factor sink levels
    have steadyNegated := steady_negated sink steady
    have steadyOpen := (steady_parenthesized (steady_sum sink steady)).orElse steadyNegated
    -- Each kind of factor is known by the character behind the blanks.
    cases p with
    | @letter _ b c blank alpha =>
      have dark := notBlank_of isAlpha_of_isBlank alpha
      rw [List.append_assoc, List.singleton_append, apply_factor blank (notAhead_cons dark)]
      exact (delivers_letter alpha).orElse_left ((steady_number sink).orElse steadyOpen)
    | @number _ b digits v blank nonempty all small exactly =>
      obtain ⟨d, ds, rfl⟩ := List.exists_cons_of_ne_nil nonempty
      have digit := all d List.mem_cons_self
      have dark := notBlank_of isDigit_of_isBlank digit
      rw [List.append_assoc, List.cons_append, apply_factor blank (notAhead_cons dark)]
      exact .orElse_right (.bind (.one (notAhead_cons (isAlpha_of_isDigit d digit)))) fun _ =>
        (delivers_number nonempty all small exactly next).orElse_left steadyOpen
    | @parenthesized m b w t b' blank q blank' =>
      have inside := accepts_sum steady (ih (Nat.lt_of_succ_lt_succ enough)
        (by omega : m + (notes.depth + 1) ≤ nestingLimit))
      have closing : After .sum (b' ++ ')' :: rest) :=
        ⟨⟨notAhead_append blank' isDigit_of_isBlank (notAhead_cons rfl),
          unsigned_append blank' rfl nofun⟩, unsigned_append blank' rfl nofun⟩
      have text : w ++ (b' ++ [')']) ++ rest = w ++ (b' ++ ')' :: rest) := by simp
      rw [List.append_assoc, List.cons_append, text, apply_factor blank (notAhead_cons rfl)]
      refine .orElse_right (.bind (.one (notAhead_cons rfl))) fun _ =>
        .orElse_right (misses_number (notAhead_cons rfl)) fun _ => .orElse_left ?_ steadyNegated
      exact delivers_parenthesized (by dsimp only; omega) blank' fun offset =>
        inside w t _ q closing offset _ rfl
    | @negation m b w t blank q =>
      have inside := ih (Nat.lt_of_succ_lt_succ enough)
        (by omega : m + (notes.depth + 1) ≤ nestingLimit)
      have size : (Tree.node (.op .sub) t .nil : Tree Kind).size = t.size + 1 := by
        simp only [Tree.size]
        omega
      rw [List.append_assoc, List.cons_append, size, apply_factor blank (notAhead_cons rfl)]
      refine .orElse_right (.bind (.one (notAhead_cons rfl))) fun _ =>
        .orElse_right (misses_number (notAhead_cons rfl)) fun _ =>
        .orElse_right (.bind (.symbol (by simp))) fun _ => ?_
      exact delivers_negated (by dsimp only; omega) fun offset => inside w t rest q next offset _ rfl

/-- A whole text must be read to its end. -/
theorem delivers_expression (C : sink.Contract) {t : Tree Kind} (p : Text text t)
    (top : notes.depth = 0) :
    Delivers C notes t.size [] (fun h nodes => C.Holds nodes (some h) t)
      ((expression sink).apply ⟨0, text⟩ notes) := by
  obtain ⟨v, b, rfl, phrase, blank⟩ := p
  have steady := steady_factor sink (nestingLimit + 1)
  have accepts : Accepts C 0 (After .sum) _ (Phrase .sum 256) :=
    accepts_sum steady (accepts_factor C (Nat.lt_succ_self 256) (Nat.le_refl 256))
  have blanksOnly : b.dropWhile isBlank = [] := List.dropWhile_eq_nil_iff.2 blank
  have unsigned (sign : Char → Op → Prop) : Unsigned sign b := by
    intro c o ahead
    rw [blanksOnly] at ahead
    cases ahead
  have follows : After .sum b := by
    have other := notAhead_append blank isDigit_of_isBlank (fun _ => nofun : NotAhead _ [])
    rw [List.append_nil] at other
    exact ⟨⟨other, unsigned _⟩, unsigned _⟩
  refine Delivers.bind (j := 0) (accepts v t b phrase follows 0 notes top)
    (fun h => steady_blanks.bind fun _ => Rule.Steady.done.bind fun _ => .pure h) ?_
  intro h offset notes' _ held
  have skipped : Rule.apply blanks ⟨offset, b ++ []⟩ notes' = _ := apply_blanks blank fun _ => nofun
  rw [List.append_nil] at skipped
  rw [Rule.apply_bind, skipped]
  exact .pure held

end ExprOpt.Grammar
