import ExprOpt.Proofs.Grammar.Completeness
import Mathlib.Algebra.BigOperators.Group.List.Basic
import Mathlib.Data.List.SplitBy

/-!
# Tokens

The tokens of a text are its longest runs of digits, and all other characters that are no blanks, each by
itself. Two texts with the same tokens need not be alike in length, in offsets or in where their lines
end. But once the blanks in front are skipped, they go on with the same character, or with the same run of
digits, and what follows has the same tokens again (`Alike.abreast`).
-/

namespace ExprOpt.Grammar

/-- The tokens of a text. -/
def tokens (text : List Char) : List (List Char) :=
  (text.splitBy fun a b => a.isDigit && b.isDigit).filter fun token => !token.all isBlank

/-- Two texts have the same tokens, and fewer than so many. -/
structure Alike (k : Nat) (text text' : List Char) : Prop where
  same : tokens text = tokens text'
  few : (tokens text).length < k

/-- Two texts begin with the same token, and what follows it is alike. -/
inductive Abreast : Nat → List Char → List Char → Prop where
  | ended {k} :
    Abreast (k + 1) [] []
  | character {k c rest rest'} :
    c.isDigit = false →
    Alike k rest rest' →
    Abreast (k + 1) (c :: rest) (c :: rest')
  | digits {k c run rest rest'} :
    (∀ d ∈ c :: run, d.isDigit) →
    NotAhead Char.isDigit rest →
    NotAhead Char.isDigit rest' →
    Alike k rest rest' →
    Abreast (k + 1) (c :: run ++ rest) (c :: run ++ rest')

/-- The first token of a text that does not begin with a blank, and the tokens of what follows it. -/
inductive Front : List Char → List (List Char) → Prop where
  | ended :
    Front [] []
  | character {c rest ts} :
    c.isDigit = false →
    tokens rest = ts →
    Front (c :: rest) ([c] :: ts)
  | digits {c run rest ts} :
    (∀ d ∈ c :: run, d.isDigit) →
    NotAhead Char.isDigit rest →
    tokens rest = ts →
    Front (c :: run ++ rest) ((c :: run) :: ts)

/-! ### The first token -/

variable {k : Nat} {c : Char} {run rest rest' text text' : List Char}

/-- Tokens can be told apart piece by piece, as long as no run of digits is cut. -/
lemma tokens_append {front : List Char}
    (apart : ∀ x ∈ front.getLast?, ∀ y ∈ rest.head?, (x.isDigit && y.isDigit) = false) :
    tokens (front ++ rest) = tokens front ++ tokens rest := by
  rw [tokens, List.splitBy_append apart, List.filter_append]
  rfl

/-- A character that is no digit does not depend on its neighbours. -/
lemma tokens_cons (other : c.isDigit = false) :
    tokens (c :: rest) = (if isBlank c then [] else [[c]]) ++ tokens rest := by
  have alone : tokens [c] = if isBlank c then [] else [[c]] := by
    rw [tokens, List.splitBy_of_isChain (List.cons_ne_nil _ _) (.singleton c)]
    cases blank : isBlank c <;> simp [blank]
  rw [← alone]
  show tokens ([c] ++ rest) = tokens [c] ++ tokens rest
  apply tokens_append
  intro x last y _
  cases last
  exact Bool.and_eq_false_imp.2 fun digit => absurd digit (Bool.eq_false_iff.1 other)

/-- A blank belongs to no token. -/
lemma tokens_of_blank (blank : isBlank c) : tokens (c :: rest) = tokens rest := by
  rw [tokens_cons (isDigit_of_isBlank c blank), if_pos blank, List.nil_append]

/-- A whole run of digits is one token. -/
lemma tokens_digits (all : ∀ d ∈ c :: run, d.isDigit) (other : NotAhead Char.isDigit rest) :
    tokens (c :: run ++ rest) = (c :: run) :: tokens rest := by
  have chain : (c :: run).IsChain fun a b => (a.isDigit && b.isDigit) = true := by
    apply List.Pairwise.isChain
    apply List.pairwise_of_forall_mem_list
    intro a memA b memB
    rw [all a memA, all b memB]
    rfl
  have shown : isBlank c = false := notBlank_of isDigit_of_isBlank (all c List.mem_cons_self)
  have alone : tokens (c :: run) = [c :: run] := by
    rw [tokens, List.splitBy_of_isChain (List.cons_ne_nil _ _) chain]
    simp [shown]
  rw [tokens_append, alone, List.singleton_append]
  intro x _ y head
  rw [other y head, Bool.and_false]

/-- Skipping blanks keeps all tokens. -/
lemma tokens_dropWhile (text : List Char) : tokens (text.dropWhile isBlank) = tokens text := by
  induction text with
  | nil => rfl
  | cons c rest ih =>
    by_cases blank : isBlank c
    · rw [List.dropWhile_cons_of_pos blank, ih, tokens_of_blank blank]
    · rw [List.dropWhile_cons_of_neg blank]

/-- There are no more tokens than characters. -/
lemma length_tokens_le (text : List Char) : (tokens text).length ≤ text.length := by
  have parts := congrArg List.length (List.flatten_splitBy (fun a b => a.isDigit && b.isDigit) text)
  refine (List.length_filter_le _ _).trans ?_
  rw [← parts, List.length_flatten, ← List.length_map List.length]
  apply List.length_le_sum_of_one_le
  intro n mem
  obtain ⟨token, inside, rfl⟩ := List.mem_map.1 mem
  exact List.length_pos_of_ne_nil (List.ne_nil_of_mem_splitBy inside)

/-- No character of the kind that was skipped is left in front. -/
lemma notAhead_dropWhile (p : Char → Bool) (text : List Char) : NotAhead p (text.dropWhile p) := by
  intro c head
  have stop := List.head?_dropWhile_not p text
  rw [head] at stop
  exact stop

/-- A text that does not begin with a blank begins with its first token. -/
lemma front_tokens (shown : NotAhead isBlank text) : Front text (tokens text) := by
  cases text with
  | nil => exact .ended
  | cons c rest =>
    cases digit : c.isDigit with
    | false =>
      rw [tokens_cons digit, if_neg (Bool.eq_false_iff.1 (shown c rfl))]
      exact .character digit rfl
    | true =>
      have other := notAhead_dropWhile Char.isDigit rest
      have all : ∀ d ∈ c :: rest.takeWhile Char.isDigit, d.isDigit := by
        intro d mem
        rcases List.mem_cons.1 mem with rfl | mem
        · exact digit
        · exact List.mem_takeWhile_imp mem
      rw [← List.takeWhile_append_dropWhile (p := Char.isDigit) (l := rest), ← List.cons_append,
        tokens_digits all other]
      exact .digits all other rfl

/-- More tokens may be allowed for. -/
lemma Alike.mono {n : Nat} (le : k ≤ n) (alike : Alike k text text') : Alike n text text' :=
  ⟨alike.same, alike.few.trans_le le⟩

/-- Texts that are alike go on with the same token behind the blanks. -/
lemma Alike.abreast (alike : Alike k text text') :
    Abreast k (text.dropWhile isBlank) (text'.dropWhile isBlank) := by
  have front := front_tokens (notAhead_dropWhile isBlank text)
  have front' := front_tokens (notAhead_dropWhile isBlank text')
  obtain ⟨same, few⟩ := alike
  rw [tokens_dropWhile] at front front'
  rw [← same] at front'
  generalize text.dropWhile isBlank = u at front
  generalize text'.dropWhile isBlank = v at front'
  generalize tokens text = ts at front front' few
  cases k with
  | zero => cases few
  | succ k =>
    cases front with
    | ended =>
      cases front'
      exact .ended
    | character other tail =>
      have few := Nat.lt_of_succ_lt_succ few
      cases front' with
      | character _ tail' => exact .character other ⟨tail.trans tail'.symm, tail ▸ few⟩
      | digits all => exact absurd (all _ List.mem_cons_self) (Bool.eq_false_iff.1 other)
    | digits all other tail =>
      have few := Nat.lt_of_succ_lt_succ few
      cases front' with
      | character other' => exact absurd (all _ List.mem_cons_self) (Bool.eq_false_iff.1 other')
      | digits _ other' tail' => exact .digits all other other' ⟨tail.trans tail'.symm, tail ▸ few⟩

/-- Texts that are abreast begin with the same run of digits. If it is empty then they need not be alike
behind it: they still begin with the same token. -/
lemma Abreast.span (abreast : Abreast (k + 1) text text') :
    text.takeWhile Char.isDigit = text'.takeWhile Char.isDigit ∧
      (text'.takeWhile Char.isDigit = [] ∨
        Alike k (text.dropWhile Char.isDigit) (text'.dropWhile Char.isDigit)) := by
  cases abreast with
  | ended => exact ⟨rfl, .inl rfl⟩
  | character other =>
    have none : ¬ Char.isDigit _ = true := Bool.eq_false_iff.1 other
    rw [List.takeWhile_cons_of_neg none, List.takeWhile_cons_of_neg none]
    exact ⟨rfl, .inl rfl⟩
  | digits all other other' alike =>
    obtain ⟨taken, dropped⟩ := span_append all other
    obtain ⟨taken', dropped'⟩ := span_append all other'
    rw [taken, taken', dropped, dropped']
    exact ⟨rfl, .inr alike⟩

end ExprOpt.Grammar
