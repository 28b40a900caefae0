import ExprOpt.Proofs.Grammar.Completeness

/-!
# Scanning for the first error

A text can also be checked in one pass from left to right, without ever going back. The scan keeps track
of the parentheses and unary minuses that enclose the place it has come to and of what has to come there:
an operand, more of a number, or an operator. It stops at the first character that cannot stand where it
does, with the place and all that could have stood there instead (`firstError`).
-/

namespace ExprOpt.Grammar

/-- What encloses a place: a parenthesis that has not been closed, or a unary minus whose operand has not
come yet. -/
inductive Opener where
  | paren
  | minus
  deriving DecidableEq, Repr

/-- The character that opens. -/
def Opener.sign : Opener → Char
  | .paren => '('
  | .minus => '-'

/-- What has to come at a place. -/
inductive Place where
  /-- An operand. The last token may be an opening parenthesis, or a unary minus that ends right here. -/
  | operand (opened negated : Bool)
  /-- More digits of a number that begins with the given ones, or what may follow the number. -/
  | number (digits : List Char)
  /-- An operator. The last token may be a number that ends right here. -/
  | operator (numeric : Bool)
  deriving DecidableEq, Repr

/-- How far a scan has come. -/
structure Scan where
  /-- The number of bytes before the place. -/
  offset : Nat := 0
  /-- What encloses the place, from the inside to the outside. -/
  enclosing : List Opener := []
  place : Place := .operand false false
  deriving DecidableEq, Repr

/-- What is left when an operand has come for the unary minuses in front of it. -/
def settle (enclosing : List Opener) : List Opener := enclosing.dropWhile (· = .minus)

/-- What could stand in the place of a missing operand. -/
def missingOperand (opened negated : Bool) : List Expected :=
  [.letter, .digit, .openParen, .minus] ++ (if opened then [.closeParen] else []) ++
    (if negated then [.operand] else [])

/-- What could stand in the place of a missing operator. -/
def missingOperator (enclosing : List Opener) (numeric : Bool) : List Expected :=
  [.times, .slash, .plus, .minus] ++
    (if .paren ∈ enclosing then [.closeParen] else [.endOfInput]) ++
    (if numeric then [.digit] else [])

namespace Scan

/-- Goes on behind a character. -/
def pass (st : Scan) (c : Char) (enclosing : List Opener) (place : Place) : Except Furthest Scan :=
  .ok { offset := st.offset + c.utf8Size, enclosing, place }

/-- Goes on behind a parenthesis or a unary minus, unless there are too many around it. -/
def enter (st : Scan) (c : Char) (opener : Opener) : Except Furthest Scan :=
  if st.enclosing.length < nestingLimit then
    st.pass c (opener :: st.enclosing) (.operand (opener = .paren) (opener = .minus))
  else .error ⟨st.offset + c.utf8Size, [.shallowerNesting]⟩

/-- A character where an operand has to come. -/
def stepOperand (st : Scan) (opened negated : Bool) (c : Char) : Except Furthest Scan :=
  if isBlank c then st.pass c st.enclosing (.operand opened false)
  else if c.isAlpha then st.pass c (settle st.enclosing) (.operator false)
  else if c.isDigit then st.pass c (settle st.enclosing) (.number [c])
  else if c = '(' then st.enter c .paren
  else if c = '-' then st.enter c .minus
  else if c = ')' ∧ opened then .error ⟨st.offset + c.utf8Size, [.expression]⟩
  else .error ⟨st.offset, missingOperand opened negated⟩

/-- A character where an operator has to come. -/
def stepOperator (st : Scan) (numeric : Bool) (c : Char) : Except Furthest Scan :=
  if isBlank c then st.pass c st.enclosing (.operator false)
  else if c = '*' ∨ c = '/' ∨ c = '+' ∨ c = '-' then st.pass c st.enclosing (.operand false false)
  else match c, st.enclosing with
    | ')', .paren :: outer => st.pass c (settle outer) (.operator false)
    | _, _ => .error ⟨st.offset, missingOperator st.enclosing numeric⟩

/-- One character. -/
def step (st : Scan) (c : Char) : Except Furthest Scan :=
  match st.place with
  | .operand opened negated => st.stepOperand opened negated c
  | .operator numeric => st.stepOperator numeric c
  | .number digits =>
    if c.isDigit then st.pass c st.enclosing (.number (digits ++ [c]))
    else if numeral digits ≤ 2 ^ 63 - 1 then st.stepOperator true c
    else .error ⟨st.offset, [.digit, .smallerNumber]⟩

/-- What is wrong if the text ends. -/
def endOperator (st : Scan) (numeric : Bool) : Option Furthest :=
  if .paren ∈ st.enclosing then some ⟨st.offset, missingOperator st.enclosing numeric⟩ else none

/-- The end of the text. -/
def finish (st : Scan) : Option Furthest :=
  match st.place with
  | .operand opened negated => some ⟨st.offset, missingOperand opened negated⟩
  | .operator numeric => st.endOperator numeric
  | .number digits =>
    if numeral digits ≤ 2 ^ 63 - 1 then st.endOperator true
    else some ⟨st.offset, [.digit, .smallerNumber]⟩

/-- The first error in the rest of a text. -/
def run (st : Scan) : List Char → Option Furthest
  | [] => st.finish
  | c :: rest =>
    match st.step c with
    | .ok st => st.run rest
    | .error place => some place

end Scan

/-- The first error in a text. -/
def firstError (text : List Char) : Option Furthest := Scan.run {} text

/-- The characters that an operand can begin with. -/
def begins (x : Char) : Bool := x.isAlpha || x.isDigit || x = '(' || x = '-'

/-- The characters that operators are written with. -/
def isSign (x : Char) : Bool := x = '*' || x = '/' || x = '+' || x = '-'

/-! ### Scanning from a cursor -/

namespace Cursor

/-- The cursor behind the blanks. -/
def skip (cursor : Cursor) : Cursor :=
  ⟨cursor.offset + (cursor.rest.takeWhile isBlank).length, cursor.rest.dropWhile isBlank⟩

/-- The first character of the next token. -/
def next? (cursor : Cursor) : Option Char := cursor.skip.rest.head?

/-- Whether there is no blank at the cursor. -/
def bare (cursor : Cursor) : Bool := (cursor.rest.takeWhile isBlank).isEmpty

/-- The first error that a scan finds from a cursor on. -/
def scan (cursor : Cursor) (enclosing : List Opener) (place : Place) : Option Furthest :=
  Scan.run ⟨cursor.offset, enclosing, place⟩ cursor.rest

variable {cursor : Cursor} {x : Char}

/-- Skipping blanks never goes back. -/
lemma le_skip (cursor : Cursor) : cursor.offset ≤ cursor.skip.offset := Nat.le_add_right _ _

/-- Where there is no blank there is nothing to skip. -/
lemma skip_offset_of_bare (bare : cursor.bare = true) : cursor.skip.offset = cursor.offset := by
  rw [Cursor.bare, List.isEmpty_iff] at bare
  rw [skip, bare]
  rfl

/-- Where there is a blank the next token is further on. -/
lemma lt_skip_of_not_bare (covered : cursor.bare = false) : cursor.offset < cursor.skip.offset := by
  rw [Cursor.bare, List.isEmpty_eq_false_iff, ← List.length_pos_iff] at covered
  exact Nat.lt_add_of_pos_right covered

/-- The end of the text is the same behind the blanks. -/
lemma skip_total (cursor : Cursor) :
    cursor.skip.offset + cursor.skip.rest.length = cursor.offset + cursor.rest.length := by
  have parts := congrArg List.length (List.takeWhile_append_dropWhile (p := isBlank) (l := cursor.rest))
  rw [List.length_append] at parts
  simp only [skip]
  omega

/-- The end of the text is the same behind the first character of the next token. -/
lemma total_of_ahead {rest : List Char} (ahead : cursor.skip.rest = x :: rest) :
    cursor.skip.offset + 1 + rest.length = cursor.offset + cursor.rest.length := by
  rw [← cursor.skip_total, ahead, List.length_cons, Nat.add_right_comm, Nat.add_assoc]

/-- The next token does not begin with a blank. -/
lemma isBlank_of_ahead {rest : List Char} (ahead : cursor.skip.rest = x :: rest) : isBlank x = false := by
  have head := List.head?_dropWhile_not isBlank cursor.rest
  have ahead : cursor.rest.dropWhile isBlank = x :: rest := ahead
  rw [ahead] at head
  exact head

/-- Behind the blanks the text goes on with the next token. -/
lemma exists_rest (next : cursor.next? = some x) : ∃ rest, cursor.skip.rest = x :: rest := by
  rw [next?] at next
  cases e : cursor.skip.rest with
  | nil =>
    rw [e] at next
    cases next
  | cons y rest =>
    rw [e] at next
    cases next
    exact ⟨rest, rfl⟩

end Cursor

/-- Every blank is one byte. -/
lemma utf8Size_of_isBlank {c : Char} (blank : isBlank c) : c.utf8Size = 1 := by
  simp only [isBlank, Bool.or_eq_true, decide_eq_true_eq] at blank
  rcases blank with ((rfl | rfl) | rfl) | rfl <;> rfl

/-- Every letter is one byte. -/
lemma utf8Size_of_isAlpha {c : Char} (alpha : c.isAlpha) : c.utf8Size = 1 := by
  rw [Char.utf8Size_eq_one_iff]
  unfold Char.isAlpha Char.isUpper Char.isLower at alpha
  simp only [Bool.or_eq_true, Bool.and_eq_true, decide_eq_true_eq, UInt32.le_iff_toNat_le] at alpha ⊢
  have : 'Z'.val.toNat = 90 := rfl
  have : 'z'.val.toNat = 122 := rfl
  have : (127 : UInt32).toNat = 127 := rfl
  omega

/-- Every digit is one byte. -/
lemma utf8Size_of_isDigit {c : Char} (digit : c.isDigit) : c.utf8Size = 1 := by
  rw [Char.utf8Size_eq_one_iff]
  simp only [Char.isDigit, Bool.and_eq_true, decide_eq_true_eq, UInt32.le_iff_toNat_le] at digit ⊢
  have : '9'.val.toNat = 57 := rfl
  have : (127 : UInt32).toNat = 127 := rfl
  omega

namespace Scan

variable {st st' : Scan} {c : Char} {rest : List Char} {found : Furthest}

/-- Where a character can stand, the scan goes on behind it. -/
lemma run_of_ok (stepped : st.step c = .ok st') : st.run (c :: rest) = st'.run rest := by
  rw [run, stepped]

/-- Where a character cannot stand, the scan is over. -/
lemma run_of_error (stepped : st.step c = .error found) : st.run (c :: rest) = some found := by
  rw [run, stepped]

/-- There is always something that could stand in the place of an operand. -/
lemma stepOperand_expected {opened negated : Bool} (stepped : st.stepOperand opened negated c = .error found) :
    found.expected ≠ [] := by
  simp only [stepOperand, enter, pass] at stepped
  split_ifs at stepped <;> cases stepped <;> simp [missingOperand]

/-- There is always something that could stand in the place of an operator. -/
lemma stepOperator_expected {numeric : Bool} (stepped : st.stepOperator numeric c = .error found) :
    found.expected ≠ [] := by
  simp only [stepOperator, pass] at stepped
  split_ifs at stepped
  split at stepped <;> cases stepped
  simp [missingOperator]

/-- There is always something that could stand in the place of the end. -/
lemma endOperator_expected {numeric : Bool} (ended : st.endOperator numeric = some found) :
    found.expected ≠ [] := by
  simp only [endOperator] at ended
  split_ifs at ended
  cases ended
  simp [missingOperator]

/-- An error at a character comes with something that could have stood there. -/
lemma step_expected (stepped : st.step c = .error found) : found.expected ≠ [] := by
  rw [step] at stepped
  split at stepped
  · exact stepOperand_expected stepped
  · exact stepOperator_expected stepped
  · split_ifs at stepped
    · cases stepped
    · exact stepOperator_expected stepped
    · cases stepped
      nofun

/-- An error at the end comes with something that could have stood there. -/
lemma finish_expected (finished : st.finish = some found) : found.expected ≠ [] := by
  rw [finish] at finished
  split at finished
  · cases finished
    simp [missingOperand]
  · exact endOperator_expected finished
  · split_ifs at finished
    · exact endOperator_expected finished
    · cases finished
      nofun

/-- Where an error is found, something else could have stood. -/
lemma run_expected {text : List Char} (ran : st.run text = some found) : found.expected ≠ [] := by
  induction text generalizing st with
  | nil => exact finish_expected ran
  | cons c rest ih =>
    cases stepped : st.step c with
    | ok st' => exact ih ((run_of_ok stepped).symm.trans ran)
    | error place =>
      cases (run_of_error stepped).symm.trans ran
      exact step_expected stepped

/-- Blanks are passed over, and after them it does not matter any more what ended right before them. -/
lemma run_blanks {enclosing : List Opener} {place : Bool → Place}
    (through : ∀ offset flag c, isBlank c →
      step ⟨offset, enclosing, place flag⟩ c = .ok ⟨offset + 1, enclosing, place false⟩)
    (offset : Nat) (flag : Bool) (text : List Char) : run ⟨offset, enclosing, place flag⟩ text =
      run ⟨offset + (text.takeWhile isBlank).length, enclosing,
        place (flag && (text.takeWhile isBlank).isEmpty)⟩ (text.dropWhile isBlank) := by
  induction text generalizing offset flag with
  | nil => simp
  | cons c rest ih =>
    cases blank : isBlank c with
    | false => simp [blank]
    | true =>
      rw [run_of_ok (through offset flag c blank), ih]
      simp [blank, Nat.add_assoc, Nat.add_comm 1]

/-- The digits of a number are passed over. -/
lemma run_digits {offset : Nat} {enclosing : List Opener} {digits more : List Char}
    (all : ∀ c ∈ more, c.isDigit) : run ⟨offset, enclosing, .number digits⟩ (more ++ rest) =
      run ⟨offset + more.length, enclosing, .number (digits ++ more)⟩ rest := by
  induction more generalizing offset digits with
  | nil => simp
  | cons c more ih =>
    have digit := all c List.mem_cons_self
    have stepped : step ⟨offset, enclosing, .number digits⟩ c =
        .ok ⟨offset + 1, enclosing, .number (digits ++ [c])⟩ := by
      simp only [step, digit, if_true, pass, utf8Size_of_isDigit digit]
    rw [List.cons_append, run_of_ok stepped, ih fun d mem => all d (.tail _ mem)]
    simp [Nat.add_assoc, Nat.add_comm 1]

/-- A number that ends is an operand, unless it is too large. -/
lemma run_number {offset : Nat} {enclosing : List Opener} {digits : List Char}
    (other : ∀ c, rest.head? = some c → c.isDigit = false) :
    run ⟨offset, enclosing, .number digits⟩ rest =
      if numeral digits ≤ 2 ^ 63 - 1 then run ⟨offset, enclosing, .operator true⟩ rest
      else some ⟨offset, [.digit, .smallerNumber]⟩ := by
  cases rest with
  | nil => rfl
  | cons c rest =>
    have digit : c.isDigit = false := other c rfl
    split_ifs with small
    · simp only [run, step, digit, Bool.false_eq_true, if_false, if_pos small]
      rfl
    · simp only [run, step, digit, Bool.false_eq_true, if_false, if_neg small]

end Scan

namespace Cursor

variable {cursor : Cursor} {enclosing : List Opener}

/-- Blanks before an operand are skipped. Only right behind a minus its operand is asked for by name. -/
lemma scan_operand (opened negated : Bool) : cursor.scan enclosing (.operand opened negated) =
    cursor.skip.scan enclosing (.operand opened (negated && cursor.bare)) := by
  refine Scan.run_blanks (fun offset flag c blank => ?_) _ _ _
  simp only [Scan.step, Scan.stepOperand, blank, if_true, Scan.pass, utf8Size_of_isBlank blank]

/-- Blanks before an operator are skipped. Only right behind a number more digits could follow. -/
lemma scan_operator (numeric : Bool) : cursor.scan enclosing (.operator numeric) =
    cursor.skip.scan enclosing (.operator (numeric && cursor.bare)) := by
  refine Scan.run_blanks (fun offset flag c blank => ?_) _ _ _
  simp only [Scan.step, Scan.stepOperator, blank, if_true, Scan.pass, utf8Size_of_isBlank blank]

/-! ### The tokens that a scan may come to -/

variable {x : Char} {rest : List Char} {opened negated numeric : Bool}

/-- A letter is a whole operand. -/
lemma scan_letter (ahead : cursor.skip.rest = x :: rest) (alpha : x.isAlpha) :
    cursor.scan enclosing (.operand opened negated) =
      scan ⟨cursor.skip.offset + 1, rest⟩ (settle enclosing) (.operator false) := by
  have dark := isBlank_of_ahead ahead
  rw [scan_operand, scan, ahead]
  refine Scan.run_of_ok ?_
  simp [Scan.step, Scan.stepOperand, Scan.pass, dark, alpha, utf8Size_of_isAlpha alpha]

/-- All digits that follow belong to the number, and behind the last of them it must have turned out small
enough. -/
lemma scan_number (ahead : cursor.skip.rest = x :: rest) (digit : x.isDigit) :
    cursor.scan enclosing (.operand opened negated) =
      if numeral (x :: rest.takeWhile Char.isDigit) ≤ 2 ^ 63 - 1 then
        scan ⟨cursor.skip.offset + (x :: rest.takeWhile Char.isDigit).length, rest.dropWhile Char.isDigit⟩
          (settle enclosing) (.operator true)
      else some ⟨cursor.skip.offset + (x :: rest.takeWhile Char.isDigit).length,
        [.digit, .smallerNumber]⟩ := by
  have dark := isBlank_of_ahead ahead
  have stepped : Scan.step ⟨cursor.skip.offset, enclosing, .operand opened (negated && cursor.bare)⟩ x =
      .ok ⟨cursor.skip.offset + 1, settle enclosing, .number [x]⟩ := by
    simp [Scan.step, Scan.stepOperand, Scan.pass, dark, digit, isAlpha_of_isDigit x digit,
      utf8Size_of_isDigit digit]
  have digits : ∀ c ∈ rest.takeWhile Char.isDigit, c.isDigit := fun _ => List.mem_takeWhile_imp
  have other : ∀ c, (rest.dropWhile Char.isDigit).head? = some c → c.isDigit = false := by
    intro c head
    have stop := List.head?_dropWhile_not Char.isDigit rest
    rw [head] at stop
    exact stop
  have split := List.takeWhile_append_dropWhile (p := Char.isDigit) (l := rest)
  rw [scan_operand, scan, ahead, Scan.run_of_ok stepped]
  nth_rewrite 1 [← split]
  rw [Scan.run_digits digits, Scan.run_number other, List.length_cons, Nat.add_assoc, Nat.add_comm 1]
  rfl

/-- A parenthesis or a unary minus in front of an operand. -/
lemma scan_enter (opener : Opener) (ahead : cursor.skip.rest = opener.sign :: rest) :
    cursor.scan enclosing (.operand opened negated) =
      if enclosing.length < nestingLimit then
        scan ⟨cursor.skip.offset + 1, rest⟩ (opener :: enclosing)
          (.operand (opener = .paren) (opener = .minus))
      else some ⟨cursor.skip.offset + 1, [.shallowerNesting]⟩ := by
  have entered (st : Scan) : st.stepOperand opened (negated && cursor.bare) opener.sign =
      st.enter opener.sign opener := by
    cases opener <;> rfl
  have size : opener.sign.utf8Size = 1 := by cases opener <;> rfl
  rw [scan_operand, scan, ahead]
  split_ifs with shallow
  · refine Scan.run_of_ok ((entered _).trans ?_)
    rw [Scan.enter, if_pos shallow, Scan.pass, size]
  · refine Scan.run_of_error ((entered _).trans ?_)
    rw [Scan.enter, if_neg shallow, size]

/-- Where an operand begins, it does not matter what the last token is. -/
lemma scan_begun (ahead : cursor.skip.rest = x :: rest) (begun : begins x) :
    cursor.scan enclosing (.operand opened negated) = cursor.scan enclosing (.operand false false) := by
  simp only [begins, Bool.or_eq_true, decide_eq_true_eq] at begun
  rcases begun with ((alpha | digit) | rfl) | rfl
  · rw [scan_letter ahead alpha, scan_letter ahead alpha]
  · rw [scan_number ahead digit, scan_number ahead digit]
  · rw [scan_enter .paren ahead, scan_enter .paren ahead]
  · rw [scan_enter .minus ahead, scan_enter .minus ahead]

/-- No operand comes, and no parenthesis is closed that has just been opened. -/
lemma scan_missing_operand (missing : ∀ x, cursor.next? = some x → begins x = false)
    (filled : opened = true → cursor.next? ≠ some ')') :
    cursor.scan enclosing (.operand opened negated) =
      some ⟨cursor.skip.offset, missingOperand opened (negated && cursor.bare)⟩ := by
  rw [scan_operand, scan]
  cases ahead : cursor.skip.rest with
  | nil => rfl
  | cons x rest =>
    have next : cursor.next? = some x := by rw [next?, ahead]; rfl
    have dark := isBlank_of_ahead ahead
    have other := missing x next
    simp only [begins, Bool.or_eq_false_iff, decide_eq_false_iff_not] at other
    obtain ⟨⟨⟨alpha, digit⟩, paren⟩, minus⟩ := other
    refine Scan.run_of_error ?_
    have open' : ¬ (x = ')' ∧ opened = true) := fun ⟨e, on⟩ => filled on (e ▸ next)
    simp [Scan.step, Scan.stepOperand, dark, alpha, digit, paren, minus, open']

/-- A pair of parentheses with nothing between them. -/
lemma scan_empty (ahead : cursor.skip.rest = ')' :: rest) :
    cursor.scan enclosing (.operand true negated) =
      some ⟨cursor.skip.offset + 1, [.expression]⟩ := by
  rw [scan_operand, scan, ahead]
  exact Scan.run_of_error rfl

/-- A sign is followed by an operand. -/
lemma scan_sign (ahead : cursor.skip.rest = x :: rest) (sign : isSign x) :
    cursor.scan enclosing (.operator numeric) =
      scan ⟨cursor.skip.offset + 1, rest⟩ enclosing (.operand false false) := by
  rw [scan_operator, scan, ahead]
  simp only [isSign, Bool.or_eq_true, decide_eq_true_eq] at sign
  rcases sign with ((rfl | rfl) | rfl) | rfl <;> exact Scan.run_of_ok rfl

/-- A closing parenthesis ends the innermost open one, with all minuses before that. -/
lemma scan_close {outer : List Opener} (ahead : cursor.skip.rest = ')' :: rest) :
    cursor.scan (.paren :: outer) (.operator numeric) =
      scan ⟨cursor.skip.offset + 1, rest⟩ (settle outer) (.operator false) := by
  rw [scan_operator, scan, ahead]
  exact Scan.run_of_ok rfl

/-- What is neither a sign nor a possible end is the first error. -/
lemma scan_missing_operator (missing : ∀ x, cursor.next? = some x → isSign x = false)
    (unclosed : .paren ∈ enclosing → cursor.next? ≠ some ')')
    (unended : .paren ∉ enclosing → cursor.next? ≠ none) :
    cursor.scan enclosing (.operator numeric) =
      some ⟨cursor.skip.offset, missingOperator enclosing (numeric && cursor.bare)⟩ := by
  rw [scan_operator, scan]
  cases ahead : cursor.skip.rest with
  | nil =>
    have ended : cursor.next? = none := by rw [next?, ahead]; rfl
    have inside : .paren ∈ enclosing := by
      by_contra outside
      exact unended outside ended
    simp [Scan.run, Scan.finish, Scan.endOperator, inside]
  | cons x rest =>
    have next : cursor.next? = some x := by rw [next?, ahead]; rfl
    have dark := isBlank_of_ahead ahead
    have other := missing x next
    simp only [isSign, Bool.or_eq_false_iff, decide_eq_false_iff_not] at other
    refine Scan.run_of_error ?_
    simp only [Scan.step, Scan.stepOperator, dark, other, Bool.false_eq_true, or_self, if_false]
    split
    · exact absurd next (unclosed List.mem_cons_self)
    · rfl

/-- A text may end behind an operand outside all parentheses. -/
lemma scan_end (ended : cursor.next? = none) (outside : .paren ∉ enclosing) :
    cursor.scan enclosing (.operator numeric) = none := by
  have ahead : cursor.skip.rest = [] := List.head?_eq_none_iff.1 ended
  rw [scan_operator, scan, ahead]
  simp [Scan.run, Scan.finish, Scan.endOperator, outside]

end Cursor

end ExprOpt.Grammar
