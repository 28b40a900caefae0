import ExprOpt.Proofs.Grammar.Acceptance
import ExprOpt.Proofs.Grammar.Scan

/-!
# Keeping up with a scan

Reading tries alternatives, goes back and records failures in many places, while a scan never goes back.
A rule keeps up with the scan (`Follows`) if it ends in one of three ways. It has read just what the scan
has passed over, and has recorded at the next token what it could have gone on with. Or it is doomed: the
scan has found the first error, which is recorded, and whatever the rule leaves for others to go on with
stands before it and begins with a sign that none of them can read. Or it has not even begun, and has
recorded that there is no operand. A series keeps up with the scan if its operands do (`Follows.series`).
-/

namespace ExprOpt

/-- All failures are recorded at the offset or before it, and `what` are those right there. -/
structure Furthest.Upto (f : Furthest) (offset : Nat) (what : List Expected) : Prop where
  le : f.offset ≤ offset
  mem : ∀ e, (f.offset = offset ∧ e ∈ f.expected) ↔ e ∈ what

namespace Furthest.Upto

variable {f : Furthest} {offset other : Nat} {what what' : List Expected}

/-- Only which failures are recorded matters, not in which order. -/
lemma congr (up : f.Upto offset what) (same : ∀ e, e ∈ what ↔ e ∈ what') : f.Upto offset what' :=
  ⟨up.le, fun e => (up.mem e).trans (same e)⟩

/-- Nothing is recorded further on. -/
lemma later (up : f.Upto offset what) (lt : offset < other) : f.Upto other [] := by
  refine ⟨up.le.trans lt.le, fun e => ?_⟩
  have ne : f.offset ≠ other := (up.le.trans_lt lt).ne
  simp [ne]

/-- Where nothing is recorded, nothing is recorded further on. -/
lemma onwards (up : f.Upto offset []) (le : offset ≤ other) : f.Upto other [] := by
  rcases le.lt_or_eq with lt | rfl
  · exact up.later lt
  · exact up

/-- A failure at the offset joins those that are recorded there. -/
lemma record (up : f.Upto offset what) (e : Expected) :
    (f.record offset e).Upto offset (e :: what) := by
  have mem := up.mem
  rw [Furthest.record]
  rcases up.le.lt_or_eq with lt | eq
  · rw [if_pos lt]
    refine ⟨le_rfl, fun d => ?_⟩
    have none : d ∉ what := fun m => lt.ne ((mem d).2 m).1
    simp [none]
  · rw [if_neg eq.not_lt, if_neg eq.not_gt]
    refine ⟨eq.le, fun d => ?_⟩
    simp [← mem d, eq]

/-- A failure before the offset changes nothing there. -/
lemma record_before (up : f.Upto offset what) (lt : other < offset) (e : Expected) :
    (f.record other e).Upto offset what := by
  have mem := up.mem
  rw [Furthest.record]
  split_ifs with before after
  · -- The earlier failures are forgotten, but none of them was at the offset.
    refine ⟨lt.le, fun d => ?_⟩
    have none : d ∉ what := fun m => (before.trans lt).ne ((mem d).2 m).1
    simp [none, lt.ne]
  · exact up
  · refine ⟨up.le, fun d => ?_⟩
    have ne : f.offset ≠ offset := fun e => after (e ▸ lt)
    have none : d ∉ what := fun m => ne ((mem d).2 m).1
    simp [none, ne]

end Furthest.Upto

namespace Grammar

variable {σ α : Type}

/-! ### Outcomes of single rules -/

/-- Records a failure. -/
def Notes.jot (notes : Notes σ) (offset : Nat) (what : Expected) : Notes σ :=
  { notes with furthest := notes.furthest.record offset what }

/-- Records several failures at one place. -/
def Notes.jots (notes : Notes σ) (offset : Nat) (what : List Expected) : Notes σ :=
  what.foldl (fun notes e => notes.jot offset e) notes

/-- Recorded failures change nothing else on the notes. -/
lemma Notes.jots_eq (notes : Notes σ) (offset : Nat) (what : List Expected) :
    ∃ furthest, notes.jots offset what = { notes with furthest } := by
  induction what generalizing notes with
  | nil => exact ⟨notes.furthest, rfl⟩
  | cons e what ih => exact ih (notes.jot offset e)

/-- Recording failures leaves the depth alone. -/
lemma Notes.jots_depth (notes : Notes σ) (offset : Nat) (what : List Expected) :
    (notes.jots offset what).depth = notes.depth := by
  obtain ⟨furthest, jotted⟩ := notes.jots_eq offset what
  rw [jotted]

/-- Failures at the offset join those that are recorded there. -/
lemma Notes.upto_jots {notes : Notes σ} {offset : Nat} {what : List Expected}
    (up : notes.furthest.Upto offset what) (more : List Expected) :
    (notes.jots offset more).furthest.Upto offset (more ++ what) := by
  induction more generalizing notes what with
  | nil => exact up
  | cons e more ih =>
    refine (@ih (notes.jot offset e) _ (up.record e)).congr fun d => ?_
    simp only [List.mem_append, List.mem_cons, List.cons_append]
    exact or_left_comm

/-- Failures before the offset change nothing there. -/
lemma Notes.upto_jots_before {notes : Notes σ} {offset other : Nat} {what : List Expected}
    (up : notes.furthest.Upto offset what) (lt : other < offset) (more : List Expected) :
    (notes.jots other more).furthest.Upto offset what := by
  induction more generalizing notes with
  | nil => exact up
  | cons e more ih => exact @ih (notes.jot other e) (up.record_before lt e)

/-- What is lacking is recorded where the cursor stands. -/
lemma apply_lack (what : Expected) (cursor : Cursor) (notes : Notes σ) :
    (Rule.lack what : Rule σ α).apply cursor notes = (none, notes.jot cursor.offset what) := rfl

/-- Blanks are skipped and nothing is recorded. -/
lemma apply_blanks_skip (cursor : Cursor) (notes : Notes σ) :
    blanks.apply cursor notes = (some ((), cursor.skip), notes) := rfl

/-- A rule behind blanks is tried from where they end. -/
lemma apply_blanks_bind (f : Unit → Rule σ α) (cursor : Cursor) (notes : Notes σ) :
    (blanks >>= f).apply cursor notes = (f ()).apply cursor.skip notes := by
  rw [Rule.apply_bind, apply_blanks_skip]

/-- A character that is missing is recorded. -/
lemma apply_one_missing {p : Char → Bool} {what : Expected} {cursor : Cursor} {notes : Notes σ}
    (missing : ∀ x, cursor.rest.head? = some x → p x = false) :
    (Rule.one p what).apply cursor notes = (none, notes.jot cursor.offset what) := by
  rw [Rule.apply_one]
  split
  · next c rest e =>
    rw [if_neg (Bool.eq_false_iff.1 (missing c (by rw [e]; rfl)))]
    rfl
  · rfl

/-- A sign that is missing is recorded. -/
lemma apply_symbol_missing {c : Char} {what : Expected} {cursor : Cursor} {notes : Notes σ}
    (missing : cursor.rest.head? ≠ some c) :
    (Rule.symbol c what).apply cursor notes = (none, notes.jot cursor.offset what) := by
  rw [Rule.symbol, Rule.apply_bind, apply_one_missing]
  intro x head
  exact decide_eq_false fun e => missing (e ▸ head)

/-- Counting takes every node, and numbers them. -/
lemma apply_emit_counting (n : Node) (cursor : Cursor) (notes : Notes Nat) :
    (Rule.emit counting n).apply cursor notes =
      (some (⟨notes.nodes⟩, cursor), { notes with nodes := notes.nodes + 1 }) := by
  rw [Rule.apply_emit]
  rfl

/-- Linking a series records nothing. -/
lemma apply_link_counting (first : Handle) (rest : List (Op × Handle)) (cursor : Cursor)
    (notes : Notes Nat) : ∃ h nodes, (link counting first rest).apply cursor notes =
      (some (h, cursor), { notes with nodes }) := by
  induction rest generalizing first notes with
  | nil => exact ⟨first, notes.nodes, rfl⟩
  | cons next rest ih =>
    obtain ⟨h, nodes, ran⟩ := ih ⟨notes.nodes⟩ { notes with nodes := notes.nodes + 1 }
    refine ⟨h, nodes, ?_⟩
    rw [link, List.foldlM_cons, Rule.apply_bind, apply_emit_counting]
    exact ran

/-- The rule fails right away, for lack of what is listed. -/
def Refuses (r : Rule σ α) (cursor : Cursor) (what : List Expected) : Prop :=
  ∀ notes, r.apply cursor notes = (none, notes.jots cursor.offset what)

section

variable {r r' : Rule σ α} {cursor : Cursor} {what what' : List Expected}

/-- A rule that refuses leaves the notes alone, but for what it records. -/
lemma Refuses.exists_furthest (refuses : Refuses r cursor what) (notes : Notes σ) :
    ∃ furthest, r.apply cursor notes = (none, { notes with furthest }) := by
  obtain ⟨furthest, jotted⟩ := notes.jots_eq cursor.offset what
  exact ⟨furthest, by rw [refuses, jotted]⟩

/-- What follows a rule that refuses is not tried. -/
lemma Refuses.bind {β : Type} {f : α → Rule σ β} (refuses : Refuses r cursor what) :
    Refuses (r >>= f) cursor what := by
  intro notes
  rw [Rule.apply_bind, refuses notes]

/-- Where the first alternative refuses, the second one is tried. -/
lemma Refuses.apply_orElse (refuses : Refuses r cursor what) (notes : Notes σ) :
    (r <|> r').apply cursor notes = r'.apply cursor (notes.jots cursor.offset what) := by
  rw [Rule.apply_orElse, refuses notes]

/-- Alternatives refuse for lack of all that any of them lacks. -/
lemma Refuses.orElse (refuses : Refuses r cursor what) (refuses' : Refuses r' cursor what') :
    Refuses (r <|> r') cursor (what ++ what') := by
  intro notes
  rw [refuses.apply_orElse, refuses', Notes.jots, Notes.jots, Notes.jots, List.foldl_append]

/-- A sign is refused where another character stands. -/
lemma refuses_symbol {c : Char} {e : Expected} (missing : cursor.rest.head? ≠ some c) :
    Refuses (Rule.symbol c e : Rule σ Unit) cursor [e] :=
  fun _ => apply_symbol_missing missing

/-- A variable is refused where no letter stands. -/
lemma refuses_letter {sink : Sink σ} (missing : NotAhead Char.isAlpha cursor.rest) :
    Refuses (letter sink) cursor [.letter] :=
  Refuses.bind fun _ => apply_one_missing missing

/-- A constant is refused where no digit stands. -/
lemma refuses_number {sink : Sink σ} (missing : NotAhead Char.isDigit cursor.rest) :
    Refuses (number sink) cursor [.digit] := by
  intro notes
  have none : cursor.rest.takeWhile Char.isDigit = [] := by
    cases e : cursor.rest with
    | nil => rfl
    | cons x rest => simp [missing x (by rw [e]; rfl)]
  rw [number, Rule.apply_bind, Rule.apply_span, none]
  rfl

variable {nest : Rule σ Handle → Rule σ (Option Handle)} {inner : Rule σ Handle}

/-- Parentheses are refused where none opens. -/
lemma refuses_parenthesizedBy (missing : cursor.rest.head? ≠ some '(') :
    Refuses (parenthesizedBy nest inner) cursor [.openParen] :=
  (refuses_symbol missing).bind

/-- A negation is refused where no minus stands. -/
lemma refuses_negatedBy {sink : Sink σ} (missing : cursor.rest.head? ≠ some '-') :
    Refuses (negatedBy nest sink inner) cursor [.minus] :=
  (refuses_symbol missing).bind

variable {operand : Rule σ Handle} {c c' : Char} {e e' : Expected} {o o' : Op} {notes : Notes σ}

/-- An operator is refused where neither of its signs stands. -/
lemma refuses_either (missing : cursor.rest.head? ≠ some c) (missing' : cursor.rest.head? ≠ some c') :
    Refuses (either c e o c' e' o' : Rule σ Op) cursor [e, e'] :=
  (refuses_symbol missing).bind.orElse (refuses_symbol missing').bind

/-- An operator that is there is read. The first sign is looked for before the second one. -/
lemma apply_either_ahead {x : Char} {rest : List Char} {offset : Nat} (found : x = c ∨ x = c') :
    (either c e o c' e' o').apply ⟨offset, x :: rest⟩ notes =
      if x = c then (some (o, ⟨offset + 1, rest⟩), notes)
      else (some (o', ⟨offset + 1, rest⟩), notes.jot offset e) := by
  rw [either, Rule.apply_orElse, Rule.apply_bind]
  by_cases first : x = c
  · subst first
    rw [apply_symbol, if_pos rfl]
    rfl
  · obtain rfl : x = c' := found.resolve_left first
    have missing : (x :: rest).head? ≠ some c := fun e => first (Option.some.inj e)
    rw [apply_symbol_missing missing, if_neg first]
    dsimp only
    rw [Rule.apply_bind, apply_symbol]
    rfl

/-- An item fails behind the blanks if there is no operator. -/
lemma apply_item_missing (missing : cursor.next? ≠ some c) (missing' : cursor.next? ≠ some c') :
    (item (either c e o c' e' o') operand).apply cursor notes =
      (none, notes.jots cursor.skip.offset [e, e']) := by
  rw [item, apply_blanks_bind]
  exact (refuses_either missing missing').bind notes

/-- A repetition ends where its rule fails. -/
lemma apply_upTo_of_none {notes' : Notes σ} (count : Nat) (failed : r.apply cursor notes = (none, notes')) :
    (Rule.upTo (count + 1) r).apply cursor notes = (some ([], cursor), notes') := by
  rw [Rule.upTo, Rule.apply_orElse, Rule.apply_bind, failed]
  rfl

end

/-! ### How rules end -/

/-- What is recorded at the end of a number that is followed by no blank. -/
def atNumber (cursor : Cursor) (numeric : Bool) : List Expected :=
  if numeric && cursor.bare then [.digit] else []

/-- How a rule ends that the scan has led to `verdict`. It has looked for what is in `looked`, which is
written with the signs. -/
inductive Ends (signs : List Char) (looked : List Expected) (enclosing : List Opener) (start total : Nat)
    (verdict : Option Furthest) : Option (α × Cursor) × Notes Nat → Prop where
  /-- The scan has come to the same place, where an operator has to follow that is none of the signs. -/
  | clean {a cursor notes numeric} :
    start ≤ cursor.offset →
    cursor.offset + cursor.rest.length = total →
    verdict = cursor.scan enclosing (.operator numeric) →
    (∀ x ∈ signs, cursor.next? ≠ some x) →
    notes.furthest.Upto cursor.skip.offset (looked ++ atNumber cursor numeric) →
    Ends signs looked enclosing start total verdict (some (a, cursor), notes)
  /-- The first error has been recorded. What has been read ends before it, in front of a sign. -/
  | doomed {result notes place} :
    start ≤ place.offset →
    verdict = some place →
    notes.furthest.Upto place.offset place.expected →
    (∀ a cursor, result = some (a, cursor) →
      ∃ x ∈ signs, cursor.next? = some x ∧ cursor.skip.offset < place.offset) →
    Ends signs looked enclosing start total verdict (result, notes)

/-- The outcome of a rule where an operand has to come. -/
inductive Outcome (signs : List Char) (looked : List Expected) (enclosing : List Opener)
    (cursor : Cursor) : Option (Handle × Cursor) × Notes Nat → Prop where
  | begun {verdict out} :
    cursor.next? ≠ some ')' →
    (∀ opened negated, cursor.scan enclosing (.operand opened negated) = verdict) →
    Ends signs looked (settle enclosing) (cursor.skip.offset + 1) (cursor.offset + cursor.rest.length)
      verdict out →
    Outcome signs looked enclosing cursor out
  | missing {notes} :
    (∀ x, cursor.next? = some x → begins x = false) →
    notes.furthest.Upto cursor.skip.offset (missingOperand false false) →
    Outcome signs looked enclosing cursor (none, notes)

/-- The rule keeps up with the scan. -/
structure Follows (r : Rule Nat Handle) (signs : List Char) (looked : List Expected)
    (enclosing : List Opener) : Prop where
  steady : r.Steady
  outcome : ∀ cursor notes, notes.depth = enclosing.length → notes.furthest.Upto cursor.offset [] →
    Outcome signs looked enclosing cursor (r.apply cursor notes)

/-- A rule that has come far enough has come less far, too. -/
lemma Ends.weaken {signs : List Char} {looked : List Expected} {enclosing : List Opener}
    {start start' total : Nat} {verdict : Option Furthest} {out : Option (α × Cursor) × Notes Nat}
    (ends : Ends signs looked enclosing start total verdict out) (le : start' ≤ start) :
    Ends signs looked enclosing start' total verdict out := by
  cases ends with
  | clean far size scan next up => exact .clean (le.trans far) size scan next up
  | doomed far scan up left => exact .doomed (le.trans far) scan up left

/-- If a rule has begun, an alternative that refuses changes nothing. -/
lemma Ends.orElse {r r' : Rule Nat α} {signs : List Char} {looked what : List Expected}
    {enclosing : List Opener} {total : Nat} {verdict : Option Furthest} {cursor : Cursor}
    {notes : Notes Nat}
    (ends : Ends signs looked enclosing (cursor.offset + 1) total verdict (r.apply cursor notes))
    (refuses : Refuses r' cursor what) :
    Ends signs looked enclosing (cursor.offset + 1) total verdict ((r <|> r').apply cursor notes) := by
  rw [Rule.apply_orElse]
  generalize r.apply cursor notes = out at ends
  rcases out with ⟨_ | ⟨a, cursor'⟩, notes'⟩
  · cases ends with
    | doomed far scan up left =>
      dsimp only
      rw [refuses notes']
      exact .doomed far scan (Notes.upto_jots_before up far what) nofun
  · exact ends

/-- What a rule has read does not matter, only where it has ended. -/
lemma Ends.relabel {β : Type} {signs : List Char} {looked : List Expected} {enclosing : List Opener}
    {start total : Nat} {verdict : Option Furthest} {a : α} {b : β} {cursor : Cursor}
    {notes notes' : Notes Nat}
    (ends : Ends signs looked enclosing start total verdict (some (a, cursor), notes))
    (same : notes'.furthest = notes.furthest) :
    Ends signs looked enclosing start total verdict (some (b, cursor), notes') := by
  cases ends with
  | clean far size scan next up => exact .clean far size scan next (same ▸ up)
  | doomed far scan up left =>
    refine .doomed far scan (same ▸ up) ?_
    intro _ cursor e
    cases e
    exact left a cursor rfl

/-! ### Series -/

section

variable {operand : Rule Nat Handle} {signs : List Char} {looked : List Expected}
  {enclosing : List Opener} {c c' : Char} {what what' : Expected} {o o' : Op} {cursor : Cursor}
  {notes : Notes Nat}

/-- An operator that is there is read, and nothing is recorded behind it. -/
lemma apply_either_found {x : Char} {rest : List Char} {offset : Nat} {what'' : List Expected}
    (found : x = c ∨ x = c') (up : notes.furthest.Upto offset what'') :
    ∃ op furthest, (either c what o c' what' o').apply ⟨offset, x :: rest⟩ notes =
        (some (op, ⟨offset + 1, rest⟩), { notes with furthest }) ∧ furthest.Upto (offset + 1) [] := by
  rw [apply_either_ahead found]
  split_ifs
  · exact ⟨o, notes.furthest, rfl, up.later (Nat.lt_succ_self _)⟩
  · exact ⟨o', _, rfl, (up.record what).later (Nat.lt_succ_self _)⟩

/-- A repetition goes on behind what its rule has read. -/
lemma apply_upTo_of_some {r : Rule Nat α} {a : α} {as : List α} {cursor₁ cursor₂ : Cursor}
    {notes₁ notes₂ : Notes Nat} {count : Nat} (first : r.apply cursor notes = (some (a, cursor₁), notes₁))
    (others : (Rule.upTo count r).apply cursor₁ notes₁ = (some (as, cursor₂), notes₂)) :
    (Rule.upTo (count + 1) r).apply cursor notes = (some (a :: as, cursor₂), notes₂) := by
  rw [Rule.upTo, Rule.apply_orElse, Rule.apply_bind, first]
  dsimp only
  rw [Rule.apply_bind, others]
  rfl

/-- In front of a sign that is not its own a series ends, and the error further on stays the first. -/
lemma apply_items_doomed {x : Char} {place : Furthest} (count : Nat) (next : cursor.next? = some x)
    (other : x ≠ c ∧ x ≠ c') (before : cursor.skip.offset < place.offset)
    (up : notes.furthest.Upto place.offset place.expected) :
    ∃ notes', (Rule.upTo count (item (either c what o c' what' o') operand)).apply cursor notes =
      (some ([], cursor), notes') ∧ notes'.furthest.Upto place.offset place.expected := by
  cases count with
  | zero => exact ⟨notes, rfl, up⟩
  | succ count =>
    have missing : cursor.next? ≠ some c := by
      rw [next]
      exact fun e => other.1 (Option.some.inj e)
    have missing' : cursor.next? ≠ some c' := by
      rw [next]
      exact fun e => other.2 (Option.some.inj e)
    exact ⟨_, apply_upTo_of_none count (apply_item_missing missing missing'),
      (up.record_before before what).record_before before what'⟩

/-- An item whose operator is there ends as its operand does. -/
lemma apply_item_found {x : Char} {rest : List Char} {what'' : List Expected}
    (ahead : cursor.skip.rest = x :: rest) (found : x = c ∨ x = c')
    (up : notes.furthest.Upto cursor.skip.offset what'') :
    ∃ op furthest, furthest.Upto (cursor.skip.offset + 1) [] ∧
      (item (either c what o c' what' o') operand).apply cursor notes =
        match operand.apply ⟨cursor.skip.offset + 1, rest⟩ { notes with furthest } with
        | (some (h, cursor'), notes') => (some ((op, h), cursor'), notes')
        | (none, notes') => (none, notes') := by
  obtain ⟨op, furthest, ran, up'⟩ := @apply_either_found c c' what what' o o' notes x rest _ _ found up
  have skipped : cursor.skip = ⟨cursor.skip.offset, x :: rest⟩ := by rw [← ahead]
  refine ⟨op, furthest, up', ?_⟩
  rw [item, Rule.apply_bind, apply_blanks_skip]
  dsimp only
  rw [Rule.apply_bind, skipped, ran]
  dsimp only
  rw [Rule.apply_bind]
  rcases operand.apply _ _ with ⟨_ | ⟨h, cursor'⟩, notes'⟩ <;> rfl

/-- An item whose operator is there keeps up with the scan. -/
lemma item_ends {x : Char} {what'' : List Expected} {numeric : Bool}
    (follows : Follows operand signs looked enclosing) (settled : settle enclosing = enclosing)
    (next : cursor.next? = some x) (found : x = c ∨ x = c') (sign : isSign x)
    (deep : notes.depth = enclosing.length) (up : notes.furthest.Upto cursor.skip.offset what'') :
    Ends signs looked enclosing (cursor.skip.offset + 1) (cursor.offset + cursor.rest.length)
      (cursor.scan enclosing (.operator numeric))
      ((item (either c what o c' what' o') operand).apply cursor notes) := by
  obtain ⟨rest, ahead⟩ := Cursor.exists_rest next
  obtain ⟨op, furthest, up', ran⟩ := @apply_item_found operand c c' what what' o o' cursor notes x rest _
    ahead found up
  have later := Cursor.le_skip ⟨cursor.skip.offset + 1, rest⟩
  rw [ran, Cursor.scan_sign ahead sign, ← Cursor.total_of_ahead ahead]
  have outcome := follows.outcome ⟨cursor.skip.offset + 1, rest⟩ { notes with furthest } deep up'
  generalize operand.apply ⟨cursor.skip.offset + 1, rest⟩ { notes with furthest } = out at outcome
  cases outcome with
  | missing missing lacking =>
    exact .doomed later (Cursor.scan_missing_operand missing nofun) lacking nofun
  | begun _ scan ends =>
    rw [scan]
    rw [settled] at ends
    have ends := ends.weaken (Nat.le_succ_of_le later)
    rcases out with ⟨_ | ⟨h, cursor'⟩, notes'⟩
    · cases ends with
      | doomed far scan up _ => exact .doomed far scan up nofun
    · exact ends.relabel rfl

/-- The items of a series keep up with the scan. -/
lemma items_end (follows : Follows operand signs looked enclosing) (settled : settle enclosing = enclosing)
    (own : isSign c ∧ isSign c') (other : ∀ x ∈ signs, x ≠ c ∧ x ≠ c') {count : Nat} {numeric : Bool}
    (enough : cursor.rest.length < count) (deep : notes.depth = enclosing.length)
    (past : ∀ x ∈ signs, cursor.next? ≠ some x)
    (up : notes.furthest.Upto cursor.skip.offset (looked ++ atNumber cursor numeric)) :
    ∃ items cursor' notes',
      (Rule.upTo count (item (either c what o c' what' o') operand)).apply cursor notes =
        (some (items, cursor'), notes') ∧
      Ends (c :: c' :: signs) (what :: what' :: looked) enclosing cursor.offset
        (cursor.offset + cursor.rest.length) (cursor.scan enclosing (.operator numeric))
        (some (items, cursor'), notes') := by
  induction count generalizing cursor notes numeric with
  | zero => exact absurd enough (Nat.not_lt_zero _)
  | succ count ih =>
    by_cases sign : ∃ x, cursor.next? = some x ∧ (x = c ∨ x = c')
    · obtain ⟨x, next, found⟩ := sign
      have signed : isSign x := by
        rcases found with rfl | rfl
        · exact own.1
        · exact own.2
      have ends := @item_ends operand signs looked enclosing c c' what what' o o' cursor notes x _ numeric
        follows settled next found signed deep up
      have steady := (steady_item (@steady_either Nat c c' what what' o o') follows.steady cursor notes).depth
      have start : cursor.offset < cursor.skip.offset + 1 := Nat.lt_succ_of_le cursor.le_skip
      cases ran : (item (either c what o c' what' o') operand).apply cursor notes with
      | mk result notes₁ =>
      rw [ran] at ends steady
      cases ends with
      | @clean first cursor₁ _ numeric₁ far size scan past₁ up₁ =>
        have enough₁ : cursor₁.rest.length < count := by omega
        obtain ⟨items, cursor₂, notes₂, others, ends⟩ := ih enough₁ (steady.trans deep) past₁ up₁
        refine ⟨first :: items, cursor₂, notes₂, apply_upTo_of_some ran others, ?_⟩
        rw [scan, ← size]
        exact (ends.weaken (start.le.trans far)).relabel rfl
      | @doomed _ _ place far scan up₁ left =>
        cases result with
        | none =>
          -- The series goes back to its last operand, in front of an operator of its own.
          refine ⟨[], cursor, notes₁, apply_upTo_of_none count ran, ?_⟩
          refine .doomed (start.le.trans far) scan up₁ ?_
          intro a cursor' e
          cases e
          exact ⟨x, by rcases found with rfl | rfl <;> simp, next, far⟩
        | some found =>
          obtain ⟨first, cursor₁⟩ := found
          obtain ⟨y, foreign, next₁, before⟩ := left first cursor₁ rfl
          obtain ⟨notes₂, others, up₂⟩ := @apply_items_doomed operand c c' what what' o o' cursor₁ notes₁ y
            place count next₁ (other y foreign) before up₁
          refine ⟨[first], cursor₁, notes₂, apply_upTo_of_some ran others, ?_⟩
          refine .doomed (start.le.trans far) scan up₂ ?_
          intro a cursor' e
          cases e
          exact ⟨y, .tail _ (.tail _ foreign), next₁, before⟩
    · have missing : cursor.next? ≠ some c := fun e => sign ⟨c, e, .inl rfl⟩
      have missing' : cursor.next? ≠ some c' := fun e => sign ⟨c', e, .inr rfl⟩
      refine ⟨[], cursor, _, apply_upTo_of_none count (apply_item_missing missing missing'), ?_⟩
      refine .clean le_rfl rfl rfl ?_ (((up.record what).record what').congr ?_)
      · intro x mem
        simp only [List.mem_cons] at mem
        rcases mem with rfl | rfl | mem
        · exact missing
        · exact missing'
        · exact past x mem
      · intro e
        simp only [List.cons_append, List.mem_cons]
        exact or_left_comm

/-- Once the items of a series have been read there is nothing left to fail. -/
lemma apply_series_items {op : Rule Nat Op} {items : List (Op × Handle)} {cursor' : Cursor}
    {notes' : Notes Nat} (first : Handle)
    (ran : (Rule.upTo (cursor.rest.length + 1) (item op operand)).apply cursor notes =
      (some (items, cursor'), notes')) :
    ∃ h nodes, (Rule.many (item op operand) >>= link counting first).apply cursor notes =
      (some (h, cursor'), { notes' with nodes }) := by
  rw [Rule.apply_bind, Rule.many, Rule.apply_get_bind, ran]
  exact apply_link_counting first items cursor' notes'

/-- A series is its first operand, its items and their linking, in sequence. -/
lemma series_eq (op : Rule Nat Op) (operand : Rule Nat Handle) : series counting op operand =
    operand >>= fun first => Rule.many (item op operand) >>= link counting first := rfl

/-- A series keeps up with the scan if its operands do. -/
lemma Follows.series (follows : Follows operand signs looked enclosing)
    (settled : settle enclosing = enclosing) (own : isSign c ∧ isSign c')
    (other : ∀ x ∈ signs, x ≠ c ∧ x ≠ c') :
    Follows (series counting (either c what o c' what' o') operand) (c :: c' :: signs)
      (what :: what' :: looked) enclosing := by
  refine ⟨steady_series counting steady_either follows.steady, ?_⟩
  intro cursor notes deep up
  have outcome := follows.outcome cursor notes deep up
  have steady := (follows.steady cursor notes).depth
  rw [series_eq, Rule.apply_bind]
  generalize operand.apply cursor notes = out at outcome steady
  cases outcome with
  | missing missing lacking => exact .missing missing lacking
  | begun filled scan ends =>
    refine .begun filled scan ?_
    cases ends with
    | @clean first cursor₁ notes₁ numeric far size scan past up =>
      obtain ⟨items, cursor₂, notes₂, ran, ends⟩ :=
        @items_end operand signs looked enclosing c c' what what' o o' cursor₁ notes₁ follows settled own other
          (cursor₁.rest.length + 1) numeric (Nat.lt_succ_self _) (steady.trans deep) past up
      obtain ⟨h, nodes, done⟩ := apply_series_items first ran
      dsimp only
      rw [done, scan, settled, ← size]
      exact (ends.weaken far).relabel rfl
    | @doomed result notes₁ place far scan up left =>
      cases result with
      | none => exact .doomed far scan up nofun
      | some found =>
        obtain ⟨first, cursor₁⟩ := found
        obtain ⟨y, foreign, next, before⟩ := left first cursor₁ rfl
        obtain ⟨notes₂, ran, up₂⟩ := @apply_items_doomed operand c c' what what' o o' cursor₁ notes₁ y
          place (cursor₁.rest.length + 1) next (other y foreign) before up
        obtain ⟨h, nodes, done⟩ := apply_series_items first ran
        dsimp only
        rw [done]
        refine .doomed far scan up₂ ?_
        intro _ cursor' e
        cases e
        exact ⟨y, .tail _ (.tail _ foreign), next, before⟩

end

end Grammar

end ExprOpt
