import ExprOpt.Proofs.HoistedNodes

/-!
# Reading outlines back

An outline has no brackets. Only the indentation tells a negation from a subtraction, and where a subtree
ends. This is enough: trees of well-formed stores that have the same outline are the same
(`outline_eq_iff_tree_eq`).

A line can be told from what follows it, whatever that is (`line_append_inj`). So can a tree that no line
further in follows (`spelling_append_inj`). The label of its root says if there is a left child, and the
depth of the line after the left child says if there is a right one.
-/

namespace ExprOpt

/-- Operators are told apart by their symbols. -/
lemma Op.symbol_injective : Function.Injective symbol := by
  intro o o' e
  cases o <;> cases o' <;> first | rfl | exact absurd e (by decide)

/-- The kind of a node says if there is a left child. -/
lemma Kind.admits_left {k : Kind} {left right left' right' : Bool} (a : k.admits left right)
    (a' : k.admits left' right') : left = left' := by
  cases k <;> simp_all [admits]

namespace Outline

variable {d d' : Nat} {k k' : Kind} {t t' : Tree Kind} {x x' : List Char}

/-- The characters of the line of a node. -/
def line (depth : Nat) (k : Kind) : List Char := (indentation depth ++ label k ++ "\n").toList

/-- The characters of the lines of a tree whose root stands at the given depth. -/
def spelling (depth : Nat) (t : Tree Kind) : List Char :=
  ((lines depth t).map (· ++ "\n")).flatMap String.toList

/-- No line that is further in than the given depth comes first. -/
def Closes (depth : Nat) (x : List Char) : Prop := ∀ d k y, x = line d k ++ y → d ≤ depth

/-- An outline begins without an indentation. -/
lemma toList_text (t : Tree Kind) : (text t).toList = spelling 0 t := String.toList_join

/-- The line of a node is followed by the lines of its children, one step further in. -/
lemma spelling_node {l r : Tree Kind} :
    spelling d (.node k l r) = line d k ++ (spelling (d + 1) l ++ spelling (d + 1) r) := by
  simp only [spelling, lines, List.map_cons, List.map_append, List.flatMap_cons, List.flatMap_append, line]

/-- A line is its indentation, a label and the end of the line. -/
lemma line_eq : line d k = List.replicate (2 * d) ' ' ++ ((label k).toList ++ ['\n']) := by
  rw [line, String.toList_append, String.toList_append, indentation, String.toList_ofList, List.append_assoc]
  rfl

/-- A run of characters ends where the first other character stands. -/
lemma run_append_inj {p : Char → Bool} {run run' : List Char} (all : ∀ c ∈ run, p c)
    (all' : ∀ c ∈ run', p c) (stop : x.takeWhile p = []) (stop' : x'.takeWhile p = [])
    (e : run ++ x = run' ++ x') : run = run' ∧ x = x' := by
  have same : run = run' := by
    have cut := congrArg (List.takeWhile p) e
    rwa [List.takeWhile_append_of_pos all, List.takeWhile_append_of_pos all', stop, stop',
      List.append_nil, List.append_nil] at cut
  subst same
  exact ⟨rfl, List.append_cancel_left e⟩

/-- A natural number is written with digits only. -/
lemma isDigit_of_mem_repr {n : Nat} {c : Char} (mem : c ∈ n.repr.toList) : c.isDigit := by
  rw [Nat.toList_repr] at mem
  exact Nat.isDigit_of_mem_toDigits (by decide) (by decide) mem

/-- A number has no brackets. -/
lemma ne_paren_of_mem_toString (v : Int) : ∀ c ∈ (toString v).toList, c ≠ ')' := by
  have digits (n : Nat) : ')' ∉ n.repr.toList := fun mem => absurd (isDigit_of_mem_repr mem) (by decide)
  intro c mem paren
  subst paren
  rw [Int.toString_eq_repr, Int.repr_eq_if] at mem
  split at mem
  · exact digits _ mem
  · rw [String.toList_append, List.mem_append] at mem
    cases mem with
    | inl sign => exact absurd sign (by decide)
    | inr mem => exact digits _ mem

/-- Natural numbers that are written alike are the same. -/
lemma eq_of_repr_eq {n n' : Nat} (e : n.repr = n'.repr) : n = n' := by
  have digits : Nat.toDigits 10 n = Nat.toDigits 10 n' := by
    rw [← Nat.toList_repr, ← Nat.toList_repr, e]
  rw [← @Nat.ofDigitChars_ten_toDigits n, digits, Nat.ofDigitChars_ten_toDigits]

/-- Numbers that are written alike are the same, since only those below zero have a sign. -/
lemma eq_of_toString_eq {v v' : Int} (e : toString v = toString v') : v = v' := by
  have unsigned {n n' : Nat} : n.repr ≠ "-" ++ n'.repr := by
    intro e
    have sign : '-' ∈ n.repr.toList := by
      rw [e, String.toList_append]
      exact List.mem_cons_self
    exact absurd (isDigit_of_mem_repr sign) (by decide)
  cases v with
  | ofNat n =>
    cases v' with
    | ofNat n' => exact congrArg Int.ofNat (eq_of_repr_eq e)
    | negSucc n' => exact absurd e unsigned
  | negSucc n =>
    cases v' with
    | ofNat n' => exact absurd e.symm unsigned
    | negSucc n' =>
      have digits : n.succ.repr = n'.succ.repr := (String.append_right_inj "-").1 e
      exact congrArg Int.negSucc (Nat.succ.inj (eq_of_repr_eq digits))

/-- An operator is labelled with its symbol alone. -/
lemma toList_label_op (o : Op) : (label (.op o)).toList = [o.symbol] := String.toList_singleton _

/-- A constant is labelled with its digits in parentheses. -/
lemma toList_label_const (v : Int64) :
    (label (.const v)).toList = 'c' :: '(' :: ((toString v.toInt).toList ++ [')']) := by
  rw [label, String.toList_append, String.toList_append]
  rfl

/-- A variable is labelled with its name in parentheses. -/
lemma toList_label_var (c : Char) : (label (.var c)).toList = ['v', '(', c, ')'] := by
  rw [label, String.toList_append, String.toList_append, Char.toString, String.toList_singleton]
  rfl

/-- A label does not start with a blank. -/
lemma takeWhile_label : ((label k).toList ++ x).takeWhile (· == ' ') = [] := by
  cases k with
  | op o =>
    rw [toList_label_op]
    cases o <;> rfl
  | const v =>
    rw [toList_label_const]
    rfl
  | var c =>
    rw [toList_label_var]
    rfl

/-- The label of a constant shows its value, and where the number ends. -/
lemma const_append_inj {v v' : Int64}
    (e : (label (.const v)).toList ++ x = (label (.const v')).toList ++ x') : v = v' ∧ x = x' := by
  rw [toList_label_const, toList_label_const] at e
  simp only [List.cons_append, List.append_assoc, List.nil_append, List.cons.injEq, true_and] at e
  have run (v : Int64) : ∀ c ∈ (toString v.toInt).toList, (c != ')') = true := by
    intro c mem
    exact bne_iff_ne.2 (ne_paren_of_mem_toString _ c mem)
  obtain ⟨digits, rest⟩ := run_append_inj (run v) (run v') rfl rfl e
  have same : v.toInt = v'.toInt := eq_of_toString_eq (String.toList_inj.1 digits)
  exact ⟨Int64.toInt_inj.1 same, List.tail_eq_of_cons_eq rest⟩

/-- A label can be told from what follows it. -/
lemma label_append_inj (e : (label k).toList ++ x = (label k').toList ++ x') : k = k' ∧ x = x' := by
  have operator (o : Op) : o.symbol ≠ 'c' ∧ o.symbol ≠ 'v' := by cases o <;> decide
  cases k with
  | op o =>
    cases k' with
    | op o' =>
      rw [toList_label_op, toList_label_op] at e
      obtain ⟨symbol, rest⟩ := List.cons.inj e
      exact ⟨congrArg _ (Op.symbol_injective symbol), rest⟩
    | const v =>
      rw [toList_label_op, toList_label_const] at e
      exact absurd (List.cons.inj e).1 (operator o).1
    | var c =>
      rw [toList_label_op, toList_label_var] at e
      exact absurd (List.cons.inj e).1 (operator o).2
  | const v =>
    cases k' with
    | op o =>
      rw [toList_label_op, toList_label_const] at e
      exact absurd (List.cons.inj e).1.symm (operator o).1
    | const v' =>
      obtain ⟨value, rest⟩ := const_append_inj e
      exact ⟨congrArg _ value, rest⟩
    | var c =>
      rw [toList_label_const, toList_label_var] at e
      exact absurd (List.cons.inj e).1 (by decide)
  | var c =>
    cases k' with
    | op o =>
      rw [toList_label_op, toList_label_var] at e
      exact absurd (List.cons.inj e).1.symm (operator o).2
    | const v =>
      rw [toList_label_const, toList_label_var] at e
      exact absurd (List.cons.inj e).1 (by decide)
    | var c' =>
      rw [toList_label_var, toList_label_var] at e
      cases e
      exact ⟨rfl, rfl⟩

/-- A line can be told from what follows it. -/
lemma line_append_inj (e : line d k ++ x = line d' k' ++ x') : d = d' ∧ k = k' ∧ x = x' := by
  simp only [line_eq, List.append_assoc] at e
  have blanks (n : Nat) : ∀ c ∈ List.replicate n ' ', (c == ' ') = true := by
    intro c mem
    exact beq_iff_eq.2 (List.eq_of_mem_replicate mem)
  obtain ⟨indent, after⟩ := run_append_inj (blanks _) (blanks _) takeWhile_label takeWhile_label e
  obtain ⟨kind, rest⟩ := label_append_inj after
  have depth : 2 * d = 2 * d' := by simpa using congrArg List.length indent
  exact ⟨Nat.eq_of_mul_eq_mul_left Nat.two_pos depth, kind, List.append_cancel_left rest⟩

namespace Closes

/-- Nothing comes first where the text ends. -/
lemma nil : Closes d [] := by
  intro d' k y e
  rw [line_eq] at e
  simp at e

/-- A line that is not too far in for one depth is not too far in for a larger one. -/
lemma mono (c : Closes d x) (le : d ≤ d') : Closes d' x :=
  fun _ k y e => (c _ k y e).trans le

/-- After a left child comes its sibling, if there is one, and this is not further in. -/
lemma sibling (c : Closes d x) (r : Tree Kind) : Closes (d + 1) (spelling (d + 1) r ++ x) := by
  cases r with
  | nil => exact c.mono (Nat.le_succ d)
  | node k l r =>
    intro d' k' y e
    rw [spelling_node, List.append_assoc] at e
    exact (line_append_inj e).1.ge

/-- The indentation shows if there is a tree before something that is not as far in. -/
lemma isNil_eq (c : Closes d x) (c' : Closes d x')
    (e : spelling (d + 1) t ++ x = spelling (d + 1) t' ++ x') : t.isNil = t'.isNil := by
  cases t with
  | nil =>
    cases t' with
    | nil => rfl
    | node k l r =>
      rw [spelling_node, List.append_assoc] at e
      exact absurd (c _ _ _ e) (Nat.not_succ_le_self d)
  | node k l r =>
    cases t' with
    | nil =>
      rw [spelling_node, List.append_assoc] at e
      exact absurd (c' _ _ _ e.symm) (Nat.not_succ_le_self d)
    | node => rfl

end Closes

/-- A tree can be told from what follows it, unless this is further in. -/
lemma spelling_append_inj (w : t.WellFormed) (w' : t'.WellFormed) (both : t.isNil = t'.isNil)
    (c : Closes d x) (c' : Closes d x') (e : spelling d t ++ x = spelling d t' ++ x') : t = t' ∧ x = x' := by
  induction t generalizing t' d x x' with
  | nil =>
    cases t' with
    | nil => exact ⟨rfl, e⟩
    | node => cases both
  | node k l r ihl ihr =>
    cases t' with
    | nil => cases both
    | node k' l' r' =>
      obtain ⟨admits, wl, wr⟩ := w
      obtain ⟨admits', wl', wr'⟩ := w'
      simp only [spelling_node, List.append_assoc] at e
      obtain ⟨-, rfl, below⟩ := line_append_inj e
      have left : l.isNil = l'.isNil := Bool.not_inj (Kind.admits_left admits admits')
      -- After the left child comes the right one, as far in as it, or `x`. So the left one is cut off first,
      -- and only what is left then shows if there is a right one.
      obtain ⟨rfl, after⟩ := ihl wl wl' left (c.sibling r) (c'.sibling r') below
      obtain ⟨rfl, rest⟩ := ihr wr wr' (c.isNil_eq c' after) (c.mono d.le_succ) (c'.mono d.le_succ) after
      exact ⟨rfl, rest⟩

/-- Trees with the same outline are the same, if they are well-formed. -/
lemma eq_of_text_eq (w : t.WellFormed) (w' : t'.WellFormed) (both : t.isNil = t'.isNil)
    (e : text t = text t') : t = t' := by
  have chars : spelling 0 t ++ [] = spelling 0 t' ++ [] := by
    rw [List.append_nil, List.append_nil, ← toList_text, ← toList_text, e]
  exact (spelling_append_inj w w' both .nil .nil chars).1

end Outline

section

variable {s s' : Store} {h h' : Handle}

/-- Two handles into stores that are well-formed, and that have no dangling handles and no cycles, have the
same outline exactly if the trees below them are the same. It does not matter where the nodes stand in the
stores, which of them are shared, or what the variables are called. -/
theorem outline_eq_iff_tree_eq (w : s.WellFormed) (closed : s.Closed) (acyclic : s.Acyclic)
    (allocated : h.index < s.size) (w' : s'.WellFormed) (closed' : s'.Closed) (acyclic' : s'.Acyclic)
    (allocated' : h'.index < s'.size) :
    ∃ t t' x x', s.tree (some h) = .ok t ∧ s'.tree (some h') = .ok t' ∧
      s.outline h = .ok x ∧ s'.outline h' = .ok x' ∧ (x = x' ↔ t = t') := by
  obtain ⟨t, u⟩ := Store.Grounded.of_closed_acyclic closed acyclic h allocated
  obtain ⟨t', u'⟩ := Store.Grounded.of_closed_acyclic closed' acyclic' h' allocated'
  refine ⟨t, t', Outline.text t, Outline.text t', Store.tree_eq_ok_iff.2 u, Store.tree_eq_ok_iff.2 u',
    Store.outline_eq u, Store.outline_eq u', ?_, congrArg _⟩
  have both : t.isNil = t'.isNil := Bool.not_inj (u.isSome_eq.symm.trans u'.isSome_eq)
  exact Outline.eq_of_text_eq (u.wellFormed w) (u'.wellFormed w') both

end

/-- The trees of `(-x) - y` and `-(x - y)`, in which the same kinds come in the same order. -/
def twoMinuses : Store where
  nodes := #[.var 'x', .var 'y', .negation ⟨0⟩, .binary .sub ⟨2⟩ ⟨1⟩, .binary .sub ⟨0⟩ ⟨1⟩, .negation ⟨4⟩]
  capacity := 6

/-- The indentation tells the two trees apart. -/
theorem outline_eq_iff_tree_eq_twoMinuses :
    ∃ x x', twoMinuses.outline ⟨3⟩ = .ok x ∧ twoMinuses.outline ⟨5⟩ = .ok x' ∧ x ≠ x' := by
  have w : twoMinuses.WellFormed := by decide
  have ground : twoMinuses.Grounded := by decide
  obtain ⟨closed, acyclic⟩ := ground.closed_acyclic
  obtain ⟨t, t', x, x', tree, tree', outline, outline', same⟩ :=
    @outline_eq_iff_tree_eq _ _ ⟨3⟩ ⟨5⟩ w closed acyclic (by decide) w closed acyclic (by decide)
  refine ⟨x, x', outline, outline', fun e => ?_⟩
  cases tree
  cases tree'
  exact absurd (same.1 e) (by decide)

end ExprOpt
