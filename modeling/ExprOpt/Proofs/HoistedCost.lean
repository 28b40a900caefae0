import ExprOpt.Proofs.Substitution
import Mathlib.Tactic.LinearCombination

/-!
# What hoisting costs

How many nodes hoisting takes can be told beforehand: a copy of the tree, with a single node in each place of
the subtree that is hoisted, and three nodes for the binding. The places do not overlap, because a tree does
not occur within itself, so all of them count (`Tree.size_without`). If there is less room than that, then the
store is filled up and nothing else has happened (`hoist_accounts`).
-/

namespace ExprOpt

variable {s s' : Store} {root r : Handle} {hit : Hit} {t d : Tree Kind}

/-- The tree that computes `d` first has `d` in it once more, and a binding. -/
lemma Tree.size_hoisted (d t : Tree Kind) : (hoisted d t).size = (t.without d).size + 3 + d.size := by
  simp only [hoisted, bound, size]
  omega

namespace Build

/-- What hoisting returns is the tree that computes the repeated subtree first. -/
lemma Hoists.unfolds (hoists : Hoists s root t r s') (found : Duplicate.largest s root = .ok (some hit))
    (ud : s.Unfolds (some hit.handle) d) : s'.Unfolds (some r) (.hoisted d t) := by
  cases hoists with
  | nothing none => cases found.symm.trans none
  | parts found' ud' ext atName atBinding atRoot ur _ =>
    cases found.symm.trans found'
    cases ud.unique ud'
    exact .node atRoot (.node atBinding (.node atName .nil .nil) (ud.extend ext)) ur

/-- Hoisting takes a copy of the tree without the repeated subtree, and a binding. -/
lemma hoist_takes (u : s.Unfolds (some root) t) (found : Duplicate.largest s root = .ok (some hit))
    (ud : s.Unfolds (some hit.handle) d) : (hoist root).Takes s ((t.without d).size + 3) := by
  refine Ensures.inspect_bind found (.kinds_bind ud (.kinds_bind u ?_))
  show Takes _ s ((t.without d).size + (1 + (1 + 1)))
  exact (copyWithout_takes d t s).bind fun rest _ => (Takes.alloc _).bind fun name _ =>
    (Takes.alloc _).bind fun binding _ => .alloc _

end Build

/-- If something is repeated below a root of a store without dangling handles and cycles, then hoisting takes
a certain number of nodes: those of the tree, less all but one at each place of the repeated subtree `d`, and
three more. If there is room for so many, then exactly so many are appended, and the tree that is returned has
`d` in addition to them. If not, then hoisting fails for lack of room after it has filled the store up, and
since nothing but that has changed, the tree below the root is what it was. -/
theorem hoist_accounts (closed : s.Closed) (acyclic : s.Acyclic) (allocated : root.index < s.size)
    (found : Duplicate.largest s root = .ok (some hit)) :
    ∃ (t d : Tree Kind) (m : Nat), s.tree (some root) = .ok t ∧ s.tree (some hit.handle) = .ok d ∧
      (m : ℤ) = t.size - t.subtrees.count d * (d.size - 1) + 3 ∧
      (m ≤ s.free → ∃ r new, (Build.hoist root).run s = .ok r (s.append new) ∧ new.size = m ∧
        (s.append new).treeSize (some r) = .ok (m + d.size)) ∧
      (s.free < m → ∃ new, (Build.hoist root).run s = .error (.outOfNodes s.capacity) (s.append new) ∧
        new.size = s.free ∧ (s.append new).tree (some root) = .ok t) := by
  obtain ⟨t, u⟩ := Store.Grounded.of_closed_acyclic closed acyclic root allocated
  obtain ⟨d, ud, -⟩ := u.subtree (Duplicate.reaches_of_largest found)
  have takes := Build.hoist_takes u found ud
  refine ⟨t, d, (t.without d).size + 3, Store.tree_eq_ok_iff.2 u, Store.tree_eq_ok_iff.2 ud, ?_, ?_, ?_⟩
  · have total : ((t.without d).size : ℤ) + t.subtrees.count d * d.size = t.size + t.subtrees.count d := by
      exact_mod_cast Tree.size_without d t
    push_cast
    linear_combination total
  · intro room
    obtain ⟨r, new, ran, count⟩ := takes.exists_ok room
    refine ⟨r, new, ran, count, ?_⟩
    rw [Store.treeSize_eq (((Build.hoist_hoists u).of_ok ran).unfolds found ud), Tree.size_hoisted]
  · intro short
    obtain ⟨new, ran, count⟩ := takes.exists_error short
    refine ⟨new, ran, count, Store.tree_eq_ok_iff.2 (u.extend ?_)⟩
    exact (Store.Appends.append count.le).extend

/-- The sum that stands in three places of a tree of eleven nodes is hoisted with eight more nodes. With room for
seven it is not, and those seven are all that is added. -/
theorem hoist_accounts_threeSums :
    (∃ r new, (Build.hoist ⟨5⟩).run { threeSums with capacity := 14 } =
        .ok r (Store.append { threeSums with capacity := 14 } new) ∧ new.size = 8 ∧
      (Store.append { threeSums with capacity := 14 } new).treeSize (some r) = .ok 11) ∧
    ∃ new, (Build.hoist ⟨5⟩).run { threeSums with capacity := 13 } =
        .error (.outOfNodes 13) (Store.append { threeSums with capacity := 13 } new) ∧ new.size = 7 := by
  constructor
  · have ground : ({ threeSums with capacity := 14 } : Store).Grounded := by decide
    obtain ⟨closed, acyclic⟩ := ground.closed_acyclic
    obtain ⟨t, d, m, tree, sum, count, enough, -⟩ :=
      @hoist_accounts _ ⟨5⟩ ⟨⟨2⟩, 3⟩ closed acyclic (by decide) (by decide +kernel)
    cases tree
    cases sum
    have eight : (m : ℤ) = 8 := count.trans (by decide +kernel)
    cases Int.ofNat_inj.1 eight
    exact enough (by decide)
  · have ground : ({ threeSums with capacity := 13 } : Store).Grounded := by decide
    obtain ⟨closed, acyclic⟩ := ground.closed_acyclic
    obtain ⟨t, d, m, tree, sum, count, -, short⟩ :=
      @hoist_accounts _ ⟨5⟩ ⟨⟨2⟩, 3⟩ closed acyclic (by decide) (by decide +kernel)
    cases tree
    cases sum
    have eight : (m : ℤ) = 8 := count.trans (by decide +kernel)
    cases Int.ofNat_inj.1 eight
    obtain ⟨new, ran, full, -⟩ := short (by decide)
    exact ⟨new, ran, full⟩

end ExprOpt
