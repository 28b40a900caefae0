import ExprOpt.Proofs.Grammar.Acceptance
import ExprOpt.Proofs.Grammar.Pace

/-!
# Reports point at the first error

Factors keep up with a scan whatever encloses them, by induction on the levels that are left
(`factor_follows`). So of all the failures that reading records the furthest is what the scan finds
(`complaint?_eq`), and that is what a text is rejected with.
-/

namespace ExprOpt

namespace Grammar

/-- What operators are written with. -/
def signs : List Char := ['+', '-', '*', '/']

/-- The operators, as they are looked for. -/
def operators : List Expected := [.plus, .minus, .times, .slash]

/-- The scan takes nothing else for a sign. -/
lemma isSign_eq_false {x : Char} (other : x ∉ signs) : isSign x = false := by
  simp only [signs, List.mem_cons, List.not_mem_nil, or_false, not_or] at other
  simp [isSign, other]

/-- Right behind an opening parenthesis a closing one has been looked for as well. -/
lemma mem_missingOperand_opened (e : Expected) :
    e ∈ .closeParen :: missingOperand false false ↔ e ∈ missingOperand true false := by
  cases e <;> decide

/-- Right behind a minus its operand has been looked for as well. -/
lemma mem_missingOperand_negated (e : Expected) :
    e ∈ .operand :: missingOperand false false ↔ e ∈ missingOperand false true := by
  cases e <;> decide

/-- What has been looked for where an operator is missing, together with what could have ended there. -/
lemma mem_missingOperator {enclosing : List Opener} {cursor : Cursor} {numeric : Bool} (e : Expected) :
    e ∈ (if .paren ∈ enclosing then .closeParen else .endOfInput) ::
        (operators ++ atNumber cursor numeric) ↔
      e ∈ missingOperator enclosing (numeric && cursor.bare) := by
  rw [missingOperator, operators, atNumber]
  split_ifs <;> cases e <;> decide

section

variable {inner : Rule Nat Handle} {enclosing : List Opener} {cursor : Cursor} {notes : Notes Nat}
  {x : Char} {rest : List Char} {what : List Expected} {opened negated' : Bool}

/-! ### Letters and numbers -/

/-- A variable keeps up with the scan. -/
lemma letter_ends (ahead : cursor.skip.rest = x :: rest) (alpha : x.isAlpha)
    (up : notes.furthest.Upto cursor.skip.offset what) :
    Ends [] [] (settle enclosing) (cursor.skip.offset + 1) (cursor.offset + cursor.rest.length)
      (cursor.scan enclosing (.operand opened negated'))
      ((letter counting).apply cursor.skip notes) := by
  rw [Cursor.scan_letter ahead alpha, letter, Rule.apply_bind, Rule.apply_one, ahead]
  dsimp only
  rw [if_pos alpha]
  dsimp only
  rw [apply_emit_counting]
  have later := Cursor.le_skip ⟨cursor.skip.offset + 1, rest⟩
  refine .clean le_rfl (Cursor.total_of_ahead ahead) rfl (fun _ mem => ?_) (up.later later)
  cases mem

/-- A constant keeps up with the scan, which also finds those that are too large. -/
lemma number_ends (ahead : cursor.skip.rest = x :: rest) (digit : x.isDigit)
    (up : notes.furthest.Upto cursor.skip.offset what) :
    Ends [] [] (settle enclosing) (cursor.skip.offset + 1) (cursor.offset + cursor.rest.length)
      (cursor.scan enclosing (.operand opened negated'))
      ((number counting).apply cursor.skip notes) := by
  have taken : cursor.skip.rest.takeWhile Char.isDigit = x :: rest.takeWhile Char.isDigit := by
    rw [ahead, List.takeWhile_cons_of_pos digit]
  have dropped : cursor.skip.rest.dropWhile Char.isDigit = rest.dropWhile Char.isDigit := by
    rw [ahead, List.dropWhile_cons_of_pos digit]
  have total := cursor.skip_total
  rw [← List.takeWhile_append_dropWhile (p := Char.isDigit) (l := cursor.skip.rest), taken, dropped,
    List.length_append, ← Nat.add_assoc] at total
  have some : ¬ (x :: rest.takeWhile Char.isDigit).isEmpty = true := by
    intro empty
    cases empty
  have bound : maxNumber = 2 ^ 63 - 1 := rfl
  rw [Cursor.scan_number ahead digit, number, Rule.apply_bind, Rule.apply_span, taken, dropped]
  dsimp only
  rw [Rule.apply_bind, Rule.apply_note]
  dsimp only
  rw [if_neg some, decimal_eq_numeral, bound]
  -- No failure has been recorded as far on as the end of the digits, where one is recorded now.
  have far : cursor.skip.offset + 1 ≤ cursor.skip.offset + (x :: rest.takeWhile Char.isDigit).length :=
    Nat.add_le_add_left (Nat.succ_le_succ (Nat.zero_le _)) _
  generalize cursor.skip.offset + (x :: rest.takeWhile Char.isDigit).length = stop at total far ⊢
  have up := (up.later far).record .digit
  split_ifs with small
  · rw [apply_emit_counting]
    refine .clean far total rfl (fun _ mem => absurd mem List.not_mem_nil) ?_
    cases bare : Cursor.bare ⟨stop, rest.dropWhile Char.isDigit⟩ with
    | false =>
      have up := up.later (Cursor.lt_skip_of_not_bare bare)
      rw [atNumber, bare]
      exact up
    | true =>
      rw [Cursor.skip_offset_of_bare bare, atNumber, bare]
      exact up
  · rw [apply_lack]
    refine .doomed far rfl ((up.record .smallerNumber).congr (by simp [or_comm])) ?_
    intro _ _ e
    cases e

/-! ### Parentheses and unary minuses -/

/-- Without a closing parenthesis its lack is recorded behind the blanks. -/
lemma apply_closing_missing (inside : Option Handle) (missing : cursor.next? ≠ some ')') :
    (closing inside).apply cursor notes = (none, notes.jot cursor.skip.offset .closeParen) := by
  rw [closing.eq_def, Rule.apply_bind, apply_blanks_skip]
  dsimp only
  rw [Rule.apply_bind, apply_symbol_missing missing]

/-- A closing parenthesis ends what is inside, and if that is nothing then its lack is recorded
behind it. -/
lemma apply_closing_found (inside : Option Handle) (ahead : cursor.skip.rest = ')' :: rest) :
    (closing inside).apply cursor notes =
      match inside with
      | some h => (some (h, ⟨cursor.skip.offset + 1, rest⟩), notes)
      | none => (none, notes.jot (cursor.skip.offset + 1) .expression) := by
  have skipped : cursor.skip = ⟨cursor.skip.offset, ')' :: rest⟩ := by rw [← ahead]
  rw [closing.eq_def, Rule.apply_bind, apply_blanks_skip]
  dsimp only
  rw [Rule.apply_bind, skipped, apply_symbol]
  cases inside <;> rfl

/-- What is inside parentheses is read one level deeper, and then they are closed. Too deep a level is
refused before that. -/
lemma apply_parenthesized (ahead : cursor.rest = '(' :: rest) :
    (parenthesized inner).apply cursor notes =
      if notes.depth < nestingLimit then
        match inner.apply ⟨cursor.offset + 1, rest⟩ { notes with depth := notes.depth + 1 } with
        | (some (h, cursor'), notes') =>
          (closing (some h)).apply cursor' { notes' with depth := notes'.depth - 1 }
        | (none, notes') =>
          (closing none).apply ⟨cursor.offset + 1, rest⟩ { notes' with depth := notes'.depth - 1 }
      else (none, notes.jot (cursor.offset + 1) .shallowerNesting) := by
  have here : cursor = ⟨cursor.offset, '(' :: rest⟩ := by rw [← ahead]
  have opens : parenthesized inner =
      Rule.symbol '(' .openParen >>= fun _ => nested inner >>= closing := rfl
  rw [opens, here, Rule.apply_bind, apply_symbol]
  dsimp only
  rw [Rule.apply_bind, apply_nested]
  split_ifs
  · rcases inner.apply _ _ with ⟨_ | ⟨h, cursor'⟩, notes'⟩ <;> rfl
  · rfl

/-- The operand of a minus is read one level deeper, and then negated. Too deep a level is refused before
that. -/
lemma apply_negated (ahead : cursor.rest = '-' :: rest) :
    (negated counting inner).apply cursor notes =
      if notes.depth < nestingLimit then
        match inner.apply ⟨cursor.offset + 1, rest⟩ { notes with depth := notes.depth + 1 } with
        | (some (_, cursor'), notes') =>
          (some (⟨notes'.nodes⟩, cursor'),
            { notes' with depth := notes'.depth - 1, nodes := notes'.nodes + 1 })
        | (none, notes') =>
          (none, Notes.jot { notes' with depth := notes'.depth - 1 } (cursor.offset + 1) .operand)
      else (none, notes.jot (cursor.offset + 1) .shallowerNesting) := by
  have here : cursor = ⟨cursor.offset, '-' :: rest⟩ := by rw [← ahead]
  rw [negated, negatedBy, here, Rule.apply_bind, apply_symbol]
  dsimp only
  rw [Rule.apply_bind, apply_nested]
  split_ifs
  · rcases inner.apply _ _ with ⟨_ | ⟨h, cursor'⟩, notes'⟩
    · rfl
    · exact apply_emit_counting (.negation h) _ _
  · rfl

/-- Behind a sum that has ended the parenthesis is closed, or that is the first error. -/
lemma closing_ends {h : Handle} {numeric : Bool} (past : ∀ x ∈ signs, cursor.next? ≠ some x)
    (up : notes.furthest.Upto cursor.skip.offset (operators ++ atNumber cursor numeric)) :
    Ends [] [] (settle enclosing) cursor.offset (cursor.offset + cursor.rest.length)
      (cursor.scan (.paren :: enclosing) (.operator numeric))
      ((closing (some h)).apply cursor notes) := by
  by_cases close : cursor.next? = some ')'
  · obtain ⟨rest, ahead⟩ := Cursor.exists_rest close
    have later := Cursor.le_skip ⟨cursor.skip.offset + 1, rest⟩
    rw [apply_closing_found _ ahead, Cursor.scan_close ahead]
    exact .clean (Nat.le_succ_of_le cursor.le_skip) (Cursor.total_of_ahead ahead) rfl nofun (up.later later)
  · have other : ∀ x, cursor.next? = some x → isSign x = false :=
      fun x next => isSign_eq_false fun mem => past x mem next
    have inside : .paren ∈ .paren :: enclosing := List.mem_cons_self
    rw [apply_closing_missing _ close,
      Cursor.scan_missing_operator other (fun _ => close) fun outside => absurd inside outside]
    have up := (up.record .closeParen).congr (@mem_missingOperator (.paren :: enclosing) cursor numeric)
    exact .doomed cursor.le_skip rfl up nofun

/-- Where nothing has come after an opening parenthesis, that is the first error. -/
lemma closing_empty {total : Nat} (missing : ∀ x, cursor.next? = some x → begins x = false)
    (lacking : notes.furthest.Upto cursor.skip.offset (missingOperand false false)) :
    Ends [] [] (settle enclosing) cursor.offset total
      (cursor.scan (.paren :: enclosing) (.operand true false))
      ((closing none).apply cursor notes) := by
  by_cases close : cursor.next? = some ')'
  · obtain ⟨rest, ahead⟩ := Cursor.exists_rest close
    rw [apply_closing_found _ ahead, Cursor.scan_empty ahead]
    exact .doomed (Nat.le_succ_of_le cursor.le_skip) rfl
      ((lacking.later (Nat.lt_succ_self _)).record .expression) nofun
  · rw [apply_closing_missing _ close, Cursor.scan_missing_operand missing fun _ => close]
    exact .doomed cursor.le_skip rfl ((lacking.record .closeParen).congr mem_missingOperand_opened) nofun

/-- Parentheses keep up with the scan if what is inside them does. -/
lemma parenthesized_ends (ahead : cursor.skip.rest = '(' :: rest)
    (follows : enclosing.length < nestingLimit → Follows inner signs operators (.paren :: enclosing))
    (deep : notes.depth = enclosing.length) (up : notes.furthest.Upto cursor.skip.offset what) :
    Ends [] [] (settle enclosing) (cursor.skip.offset + 1) (cursor.offset + cursor.rest.length)
      (cursor.scan enclosing (.operand opened negated'))
      ((parenthesized inner).apply cursor.skip notes) := by
  have up := up.later (Nat.lt_succ_self _)
  rw [apply_parenthesized ahead, Cursor.scan_enter .paren ahead, deep,
    ← Cursor.total_of_ahead ahead]
  split_ifs with shallow
  · have later := Cursor.le_skip ⟨cursor.skip.offset + 1, rest⟩
    have outcome := (follows shallow).outcome ⟨cursor.skip.offset + 1, rest⟩
      { notes with depth := enclosing.length + 1 } rfl up
    generalize inner.apply ⟨cursor.skip.offset + 1, rest⟩ { notes with depth := enclosing.length + 1 } = out
      at outcome
    cases outcome with
    | missing missing lacking => exact closing_empty missing lacking
    | begun filled scan ends =>
      rw [scan]
      cases ends with
      | clean far size scan past up =>
        rw [scan, ← size]
        exact Ends.weaken (closing_ends past up) (later.trans (Nat.le_of_succ_le far))
      | @doomed result _ _ far scan up left =>
        have start := later.trans (Nat.le_of_succ_le far)
        cases result with
        | none =>
          dsimp only
          rw [apply_closing_missing none filled]
          exact .doomed start scan (up.record_before far .closeParen) nofun
        | some found =>
          obtain ⟨x, sign, next, before⟩ := left found.1 found.2 rfl
          have missing : found.2.next? ≠ some ')' := by
            intro close
            cases next.symm.trans close
            exact absurd sign (by decide)
          dsimp only
          rw [apply_closing_missing _ missing]
          exact .doomed start scan (up.record_before before .closeParen) nofun
  · exact .doomed le_rfl rfl (up.record .shallowerNesting) nofun

/-- A negation keeps up with the scan if its operand does. -/
lemma negated_ends (ahead : cursor.skip.rest = '-' :: rest)
    (follows : enclosing.length < nestingLimit → Follows inner [] [] (.minus :: enclosing))
    (deep : notes.depth = enclosing.length) (up : notes.furthest.Upto cursor.skip.offset what) :
    Ends [] [] (settle enclosing) (cursor.skip.offset + 1) (cursor.offset + cursor.rest.length)
      (cursor.scan enclosing (.operand opened negated'))
      ((negated counting inner).apply cursor.skip notes) := by
  have up := up.later (Nat.lt_succ_self _)
  rw [apply_negated ahead, Cursor.scan_enter .minus ahead, deep,
    ← Cursor.total_of_ahead ahead]
  split_ifs with shallow
  · have later := Cursor.le_skip ⟨cursor.skip.offset + 1, rest⟩
    have outcome := (follows shallow).outcome ⟨cursor.skip.offset + 1, rest⟩
      { notes with depth := enclosing.length + 1 } rfl up
    generalize inner.apply ⟨cursor.skip.offset + 1, rest⟩ { notes with depth := enclosing.length + 1 } = out
      at outcome
    cases outcome with
    | missing missing lacking =>
      refine .doomed later (Cursor.scan_missing_operand missing nofun) ?_ nofun
      cases bare : Cursor.bare ⟨cursor.skip.offset + 1, rest⟩ with
      | false => exact lacking.record_before (Cursor.lt_skip_of_not_bare bare) .operand
      | true =>
        rw [Cursor.skip_offset_of_bare bare] at lacking ⊢
        exact (lacking.record .operand).congr mem_missingOperand_negated
    | begun filled scan ends =>
      rw [scan]
      rcases out with ⟨_ | ⟨h, cursor'⟩, notes'⟩
      · cases ends with
        | doomed far scan up _ =>
          have before : cursor.skip.offset + 1 < _ := Nat.lt_of_le_of_lt later far
          exact .doomed before.le scan (up.record_before before .operand) nofun
      · exact (ends.weaken (Nat.le_succ_of_le later)).relabel rfl
  · exact .doomed le_rfl rfl (up.record .shallowerNesting) nofun

/-! ### Factors, sums and whole texts -/

/-- Sums keep up with a scan if their factors do. -/
lemma Follows.sum (follows : Follows inner [] [] enclosing) (settled : settle enclosing = enclosing) :
    Follows (sum counting inner) signs operators enclosing := by
  have products : Follows (product counting inner) ['*', '/'] [.times, .slash] enclosing :=
    @Follows.series inner [] [] enclosing '*' '/' .times .slash .mul .div follows settled ⟨rfl, rfl⟩ nofun
  have other : ∀ x ∈ ['*', '/'], x ≠ '+' ∧ x ≠ '-' := by simp
  exact @Follows.series (product counting inner) ['*', '/'] [.times, .slash] enclosing '+' '-' .plus .minus
    .add .sub products settled ⟨rfl, rfl⟩ other

/-- One level of factors. -/
def alternatives (inner : Rule Nat Handle) : Rule Nat Handle :=
  letter counting <|> number counting <|> parenthesized (sum counting inner) <|> negated counting inner

/-- Where an operand begins, one of the alternatives keeps up with the scan and the others refuse. -/
lemma alternatives_end (ahead : cursor.skip.rest = x :: rest) (begun : begins x)
    (follows : ∀ opener, enclosing.length < nestingLimit → Follows inner [] [] (opener :: enclosing))
    (deep : notes.depth = enclosing.length) (up : notes.furthest.Upto cursor.skip.offset []) :
    Ends [] [] (settle enclosing) (cursor.skip.offset + 1) (cursor.offset + cursor.rest.length)
      (cursor.scan enclosing (.operand opened negated')) ((alternatives inner).apply cursor.skip notes) := by
  have head : cursor.skip.rest.head? = some x := by rw [ahead, List.head?_cons]
  have only {p : Char → Bool} (off : p x = false) :
      ∀ y, cursor.skip.rest.head? = some y → p y = false := by
    intro y head'
    cases head.symm.trans head'
    exact off
  have other {p : Char → Bool} {c : Char} (on : p x = true) (off : p c = false) :
      cursor.skip.rest.head? ≠ some c := by
    intro head'
    cases head.symm.trans head'
    cases on.symm.trans off
  rw [alternatives]
  cases alpha : x.isAlpha with
  | true =>
    have digit : x.isDigit = false :=
      Bool.eq_false_iff.2 fun digit => Bool.eq_false_iff.1 (isAlpha_of_isDigit x digit) alpha
    exact (letter_ends ahead alpha up).orElse <| (refuses_number (only digit)).orElse <|
      (refuses_parenthesizedBy (other alpha rfl)).orElse (refuses_negatedBy (other alpha rfl))
  | false =>
    rw [(refuses_letter (only alpha)).apply_orElse]
    have up := Notes.upto_jots up [.letter]
    have deep := (notes.jots_depth cursor.skip.offset [.letter]).trans deep
    cases digit : x.isDigit with
    | true =>
      exact (number_ends ahead digit up).orElse <|
        (refuses_parenthesizedBy (other digit rfl)).orElse (refuses_negatedBy (other digit rfl))
    | false =>
      rw [(refuses_number (only digit)).apply_orElse]
      have up := Notes.upto_jots up [.digit]
      have deep := (Notes.jots_depth _ cursor.skip.offset [.digit]).trans deep
      simp only [begins, alpha, digit, Bool.false_or, Bool.or_eq_true, decide_eq_true_eq] at begun
      rcases begun with rfl | rfl
      · have minus : cursor.skip.rest.head? ≠ some '-' := by simp [head]
        have sums := fun room => (follows .paren room).sum rfl
        exact (parenthesized_ends ahead sums deep up).orElse (refuses_negatedBy minus)
      · have paren : cursor.skip.rest.head? ≠ some '(' := by simp [head]
        have refused : Refuses (parenthesized (sum counting inner)) cursor.skip [.openParen] :=
          refuses_parenthesizedBy paren
        rw [refused.apply_orElse]
        exact negated_ends ahead (follows .minus) ((Notes.jots_depth _ _ _).trans deep)
          (Notes.upto_jots up _)

/-- Where no operand begins, all alternatives refuse. -/
lemma refuses_alternatives (missing : ∀ x, cursor.rest.head? = some x → begins x = false) :
    Refuses (alternatives inner) cursor (missingOperand false false) := by
  have apart {c : Char} (on : begins c = true) : cursor.rest.head? ≠ some c := by
    intro head
    cases on.symm.trans (missing c head)
  have classes : ∀ x, cursor.rest.head? = some x → x.isAlpha = false ∧ x.isDigit = false := by
    intro x head
    have off := missing x head
    simp only [begins, Bool.or_eq_false_iff] at off
    exact off.1.1
  exact (refuses_letter fun x head => (classes x head).1).orElse <|
    (refuses_number fun x head => (classes x head).2).orElse <|
    (refuses_parenthesizedBy (apart rfl)).orElse (refuses_negatedBy (apart rfl))

/-- A factor keeps up with the scan if the factors inside it do. -/
lemma alternatives_outcome
    (follows : ∀ opener, enclosing.length < nestingLimit → Follows inner [] [] (opener :: enclosing))
    (deep : notes.depth = enclosing.length) (up : notes.furthest.Upto cursor.skip.offset []) :
    Outcome [] [] enclosing cursor ((alternatives inner).apply cursor.skip notes) := by
  by_cases begun : ∃ x, cursor.next? = some x ∧ begins x
  · obtain ⟨x, next, begun⟩ := begun
    obtain ⟨rest, ahead⟩ := Cursor.exists_rest next
    have filled : cursor.next? ≠ some ')' := by
      intro close
      cases next.symm.trans close
      cases begun
    exact .begun filled (fun _ _ => Cursor.scan_begun ahead begun)
      (alternatives_end ahead begun follows deep up)
  · have missing : ∀ x, cursor.next? = some x → begins x = false :=
      fun x next => Bool.eq_false_iff.2 fun on => begun ⟨x, next, on⟩
    rw [refuses_alternatives missing notes]
    exact .missing missing (Notes.upto_jots up _)

/-- Factors keep up with a scan, with as many levels as are left below what encloses them. -/
lemma factor_follows {levels : Nat} (left : levels + enclosing.length = nestingLimit + 1)
    (some : levels ≠ 0) : Follows (factor counting levels) [] [] enclosing := by
  induction levels generalizing enclosing with
  | zero => exact absurd rfl some
  | succ levels ih =>
    refine ⟨steady_factor counting (levels + 1), ?_⟩
    intro cursor notes deep up
    rw [factor_succ, Rule.apply_bind, apply_blanks_skip]
    refine alternatives_outcome (fun opener room => ih ?_ ?_) deep (up.onwards cursor.le_skip)
    · rw [List.length_cons, ← left, Nat.add_right_comm, Nat.add_assoc]
    · omega

/-- The end of the text, behind all that is read. -/
def ending (h : Handle) : Rule Nat Handle := do
  blanks
  Rule.done
  return h

/-- The text ends behind the blanks. -/
lemma apply_ending_found (h : Handle) (ended : cursor.next? = none) :
    (ending h).apply cursor notes = (some (h, cursor.skip), notes) := by
  have ahead : cursor.skip.rest = [] := List.head?_eq_none_iff.1 ended
  rw [ending, Rule.apply_bind, apply_blanks_skip]
  dsimp only
  rw [Rule.apply_bind, Rule.apply_done, ahead]
  rfl

/-- Where the text goes on, the lack of an end is recorded. -/
lemma apply_ending_missing (h : Handle) (next : cursor.next? = some x) :
    (ending h).apply cursor notes = (none, notes.jot cursor.skip.offset .endOfInput) := by
  obtain ⟨rest, ahead⟩ := Cursor.exists_rest next
  rw [ending, Rule.apply_bind, apply_blanks_skip]
  dsimp only
  rw [Rule.apply_bind, Rule.apply_done, ahead]
  rfl

end

/-- A text is read if the scan finds no error in it, and else the error that it finds is the furthest
failure. -/
lemma apply_expression (text : List Char) :
    (firstError text = none ∧ ∃ found notes,
      (expression counting).apply ⟨0, text⟩ { nodes := 0 } = (some found, notes)) ∨
    ∃ place notes, firstError text = some place ∧ notes.furthest.Upto place.offset place.expected ∧
      (expression counting).apply ⟨0, text⟩ { nodes := 0 } = (none, notes) := by
  have sums : Follows (sum counting (factor counting (nestingLimit + 1))) signs operators [] :=
    (factor_follows rfl (Nat.succ_ne_zero _)).sum rfl
  have blank : ({ nodes := 0 } : Notes Nat).furthest.Upto 0 [] := ⟨le_rfl, fun e => by simp⟩
  have outcome := sums.outcome ⟨0, text⟩ { nodes := 0 } rfl blank
  have parts : expression counting = sum counting (factor counting (nestingLimit + 1)) >>= ending := rfl
  have start : firstError text = Cursor.scan ⟨0, text⟩ [] (.operand false false) := rfl
  rw [parts, Rule.apply_bind, start]
  generalize (sum counting (factor counting (nestingLimit + 1))).apply ⟨0, text⟩ { nodes := 0 } = out
    at outcome
  cases outcome with
  | missing missing lacking =>
    exact .inr ⟨_, _, Cursor.scan_missing_operand missing nofun, lacking, rfl⟩
  | begun filled scan ends =>
    rw [scan]
    cases ends with
    | @clean h cursor notes numeric far size scan past up =>
      dsimp only
      rw [scan]
      cases next : cursor.next? with
      | none => exact .inl ⟨Cursor.scan_end next nofun, _, _, apply_ending_found h next⟩
      | some x =>
        have other : ∀ x, cursor.next? = some x → isSign x = false :=
          fun x next => isSign_eq_false fun mem => past x mem next
        refine .inr ⟨_, _, Cursor.scan_missing_operator other nofun ?_, ?_, apply_ending_missing h next⟩
        · intro _ ended
          cases next.symm.trans ended
        · exact (up.record .endOfInput).congr (@mem_missingOperator [] cursor numeric)
    | @doomed result notes place far scan up left =>
      cases result with
      | none => exact .inr ⟨place, notes, scan, up, rfl⟩
      | some found =>
        obtain ⟨x, -, next, before⟩ := left found.1 found.2 rfl
        exact .inr ⟨place, _, scan, up.record_before before .endOfInput, apply_ending_missing found.1 next⟩

/-- No expectation is left out of the list of all of them. -/
lemma mem_all (e : Expected) : e ∈ Expected.all := by
  cases e <;> decide

/-- Reports say no more about failures than where the furthest are and which they are. -/
lemma ofFurthest_congr {furthest place : Furthest} (text : List Char) (some : place.expected ≠ [])
    (up : furthest.Upto place.offset place.expected) :
    Report.ofFurthest text furthest = Report.ofFurthest text place := by
  obtain ⟨e, mem⟩ := List.exists_mem_of_ne_nil _ some
  have same : furthest.offset = place.offset := ((up.mem e).2 mem).1
  have members (e : Expected) : e ∈ furthest.expected ↔ e ∈ place.expected := by
    rw [← up.mem e, and_iff_right same]
  simp only [Report.ofFurthest, same, members]

/-- What is complained about is the first error. -/
theorem complaint?_eq (text : List Char) :
    complaint? text = (firstError text).map (Report.ofFurthest text) := by
  rw [complaint?, read]
  rcases apply_expression text with ⟨fine, found, notes, ran⟩ | ⟨place, notes, error, up, ran⟩
  · rw [ran, fine]
    rfl
  · rw [ran, error]
    exact congrArg some (ofFurthest_congr text (Scan.run_expected error) up)

end Grammar

open Grammar

/-- A text is rejected as malformed if and only if a scan from left to right finds an error in it, which is
so unless it is an expression. The report then names the place of the first error and exactly what could
have stood there. Nothing has been allocated. -/
theorem parse_reports_first_error (source : String) (s : Store) :
    (firstError source.toList = none ↔ ∃ t, Text source.toList t) ∧
    match firstError source.toList with
    | none => ∀ report s', (Build.parse source).run s ≠ .error (.malformed report) s'
    | some place => ∃ report, (Build.parse source).run s = .error (.malformed report) s ∧
        report.offset = place.offset ∧ ∀ e, e ∈ report.expected ↔ e ∈ place.expected := by
  have complaint := complaint?_eq source.toList
  constructor
  · rw [← complaint?_eq_none_iff, complaint, Option.map_eq_none_iff]
  · cases error : firstError source.toList with
    | none =>
      intro report s' ran
      rw [error] at complaint
      obtain ⟨t, p⟩ := complaint?_eq_none_iff.1 complaint
      rcases run_parse_of_text p s with ⟨-, root, s'', ran', -⟩ | ⟨-, s'', ran'⟩
      · cases ran.symm.trans ran'
      · cases ran.symm.trans ran'
    | some place =>
      rw [error] at complaint
      refine ⟨Report.ofFurthest source.toList place, ?_, rfl, fun e => ?_⟩
      · rw [Build.parse, complaint]
        rfl
      · simp [Report.ofFurthest, mem_all]

-- An empty pair of parentheses, and a unary minus with a blank and no operand behind it.
example : firstError ['a', '*', '(', ')'] = some ⟨4, [.expression]⟩ := rfl

example : firstError ['(', '-', ' ', '*'] = some ⟨3, [.letter, .digit, .openParen, .minus]⟩ := rfl

end ExprOpt
