import ExprOpt.Proofs.Building
import ExprOpt.Proofs.Grammar.Completeness

/-!
# Exactly the expressions are read

Both directions together, for the two sinks in use: the one that only counts, which decides whether a
text is an expression, and the one that allocates in a store. A text is read into a store if and only if
it is an expression whose nodes fit, and what is read is its tree (`parse_accepts_exactly`).
-/

namespace ExprOpt

namespace Grammar

/-- A sink that counts takes everything. -/
def counted : counting.Contract where
  Holds _ _ _ := True
  Room _ _ := True
  holds_nil _ := trivial
  room_le _ := id
  put _ _ := .inl ⟨_, _, rfl, trivial, fun _ _ => id, fun _ => .rfl, trivial⟩

/-- A store takes nodes up to its capacity, and its handles stand for the trees below them. -/
def allocated : allocating.Contract where
  Holds s h t := s.Unfolds h t
  Room s k := s.size + k ≤ s.capacity
  holds_nil _ := .nil
  room_le le room := by omega
  put {n s l r} ul ur := by
    by_cases room : s.size < s.capacity
    · have taken : allocating.put n s = some (⟨s.size⟩, s.push n) := by
        simp only [allocating, Build.run_alloc, if_pos room]
        rfl
      refine .inl ⟨_, _, taken, ul.push ur, fun g t u => u.extend Store.extends_push, fun k => ?_, room⟩
      rw [Store.size_push, Nat.add_assoc]
      rfl
    · refine .inr ⟨?_, by omega⟩
      simp only [allocating, Build.run_alloc, if_neg room]

/-- Reading a whole text succeeds if there is room for its tree, and only then. -/
lemma read_of_text {σ : Type} {sink : Sink σ} (C : sink.Contract) {text : List Char} {t : Tree Kind}
    (p : Text text t) (nodes : σ) :
    (C.Room nodes t.size ∧ ∃ h notes, read sink text nodes = (some h, notes) ∧
      notes.refused = false ∧ C.Holds notes.nodes (some h) t) ∨
    (¬ C.Room nodes t.size ∧ (read sink text nodes).2.refused = true) := by
  have top : ({ nodes } : Notes σ).depth = 0 := rfl
  have delivers := delivers_expression C p top
  have nonempty : t.size ≠ 0 := by
    obtain ⟨v, b, -, phrase, -⟩ := p
    exact Nat.ne_of_gt phrase.size_pos
  rw [read]
  generalize Rule.apply (expression sink) ⟨0, text⟩ { nodes } = outcome at delivers
  cases delivers with
  | done progress held =>
    exact .inl ⟨progress.fits.resolve_left nonempty, _, _, rfl, progress.refused, held⟩
  | full refused short => exact .inr ⟨short, refused⟩

/-- There is no complaint about an expression, and one about everything else. -/
theorem complaint?_eq_none_iff {text : List Char} : complaint? text = none ↔ ∃ t, Text text t := by
  rw [complaint?]
  constructor
  · intro fine
    rcases e : read counting text 0 with ⟨_ | h, notes⟩ <;> rw [e] at fine
    · cases fine
    · exact text_of_read e
  · rintro ⟨t, p⟩
    rcases read_of_text counted p 0 with ⟨-, h, notes, ran, -⟩ | ⟨short, -⟩
    · rw [ran]
    · exact absurd trivial short

end Grammar

open Grammar

/-- An expression is read into a store that has room for its nodes, and only into such a store. -/
lemma run_parse_of_text {source : String} {t : Tree Kind} (p : Text source.toList t) (s : Store) :
    (s.size + t.size ≤ s.capacity ∧
      ∃ root s', (Build.parse source).run s = .ok root s' ∧ s'.tree (some root) = .ok t) ∨
    (¬ s.size + t.size ≤ s.capacity ∧
      ∃ s', (Build.parse source).run s = .error (.outOfNodes s.capacity) s') := by
  rw [Build.parse, complaint?_eq_none_iff.2 ⟨t, p⟩]
  dsimp only
  rw [EStateM.run_bind, EStateM.run_get]
  dsimp only
  rcases read_of_text allocated p s with ⟨room, h, notes, ran, kept, held⟩ | ⟨short, refused⟩
  · refine .inl ⟨room, h, notes.nodes, ?_, Store.tree_eq_ok_iff.2 held⟩
    rw [ran, kept]
    rfl
  · refine .inr ⟨short, (read allocating source.toList s).2.nodes, ?_⟩
    rw [refused]
    cases (read allocating source.toList s).1 <;> rfl

/-- A text that is read is an expression, its tree is what is read, and its nodes have found room. -/
lemma text_of_run_parse {source : String} {s s' : Store} {root : Handle}
    (ran : (Build.parse source).run s = .ok root s') :
    ∃ t, Text source.toList t ∧ s'.tree (some root) = .ok t ∧ s.size + t.size ≤ s.capacity := by
  have fine : complaint? source.toList = none := by
    cases e : complaint? source.toList with
    | none => rfl
    | some report =>
      rw [Build.parse, e] at ran
      cases ran
  obtain ⟨t, p⟩ := complaint?_eq_none_iff.1 fine
  rcases run_parse_of_text p s with ⟨room, root', s'', ran', tree⟩ | ⟨-, s'', ran'⟩
  · cases ran.symm.trans ran'
    exact ⟨t, p, tree, room⟩
  · cases ran.symm.trans ran'

/-- A text is the text of no two expressions. -/
theorem Grammar.Text.unique {text : List Char} {t t' : Tree Kind} (p : Text text t)
    (p' : Text text t') : t = t' := by
  -- Both trees are what is read into a store with room for either.
  let s : Store := { capacity := t.size + t'.size }
  have room : s.size + t.size ≤ s.capacity := by simp [s, Store.size]
  have room' : s.size + t'.size ≤ s.capacity := by simp [s, Store.size]
  rcases read_of_text allocated p s with ⟨-, h, notes, ran, -, held⟩ | ⟨short, -⟩
  · rcases read_of_text allocated p' s with ⟨-, h', notes', ran', -, held'⟩ | ⟨short, -⟩
    · cases ran.symm.trans ran'
      exact held.unique held'
    · exact absurd room' short
  · exact absurd room short

/-- A text is read into a store exactly if it is an expression and there is room for its nodes. What is
then found below the handle is the tree that the text stands for. -/
theorem parse_accepts_exactly (source : String) (s : Store) :
    ((∃ root s', (Build.parse source).run s = .ok root s') ↔
      ∃ t, Text source.toList t ∧ s.size + t.size ≤ s.capacity) ∧
    ∀ t, (∃ root s', (Build.parse source).run s = .ok root s' ∧ s'.tree (some root) = .ok t) ↔
      Text source.toList t ∧ s.size + t.size ≤ s.capacity := by
  have reads {t} (p : Text source.toList t) (room : s.size + t.size ≤ s.capacity) :
      ∃ root s', (Build.parse source).run s = .ok root s' ∧ s'.tree (some root) = .ok t :=
    (run_parse_of_text p s).elim And.right fun short => absurd room short.1
  refine ⟨⟨?_, ?_⟩, fun t => ⟨?_, fun ⟨p, room⟩ => reads p room⟩⟩
  · rintro ⟨root, s', ran⟩
    obtain ⟨t, p, -, room⟩ := text_of_run_parse ran
    exact ⟨t, p, room⟩
  · rintro ⟨t, p, room⟩
    obtain ⟨root, s', ran, -⟩ := reads p room
    exact ⟨root, s', ran⟩
  · rintro ⟨root, s', ran, tree⟩
    obtain ⟨t', p, tree', room⟩ := text_of_run_parse ran
    cases tree.symm.trans tree'
    exact ⟨p, room⟩

end ExprOpt
