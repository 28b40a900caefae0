import ExprOpt.Proofs.HoistedNodes
import ExprOpt.Proofs.Repeats

/-!
# Undoing a hoisting

What stands for a hoisted subtree can be replaced by it. In the tree, the name stands exactly where the
subtree stood, so putting the subtree back gives the tree from before (`substitute_without`), and there is
no copy of it left (`not_subtree_without`). In the store, `Build.Hoists` says which nodes hoisting has
added and how many.
-/

namespace ExprOpt

namespace Tree

variable {d t : Tree Kind} {x : Char}

/-- A tree that is a variable. -/
def named (x : Char) : Tree Kind := .node (.var x) .nil .nil

/-- The tree with `d` in place of every leaf that is the variable. -/
def substitute : Tree Kind → Char → Tree Kind → Tree Kind
  | .nil, _, _ => .nil
  | .node k l r, x, d =>
    if .node k l r = named x then d else .node k (l.substitute x d) (r.substitute x d)

instance (x : Char) : (t : Tree Kind) → Decidable (t.Mentions x)
  | .nil => .isFalse id
  | .node _ l r =>
    have := instDecidableMentions x l
    have := instDecidableMentions x r
    inferInstanceAs (Decidable (_ ∨ _ ∨ _))

/-- A node that does not mention a variable does not become one by having other children. -/
lemma ne_named {k : Kind} {l r : Tree Kind} (unused : ¬ (node k l r).Mentions x) (l' r' : Tree Kind) :
    node k l' r' ≠ named x := by
  intro e
  injection e with kind
  exact unused (.inl kind)

/-- What a subtree mentions the tree mentions. -/
lemma Subtree.mentions (sub : Subtree d t) (m : d.Mentions x) : t.Mentions x := by
  induction sub with
  | refl => exact m
  | left _ ih => exact .inr (.inl ih)
  | right _ ih => exact .inr (.inr ih)

/-- Putting the subtree back gives the tree, if the name was not in use. -/
lemma substitute_without (unused : ¬ t.Mentions hoistedName) :
    (t.without d).substitute hoistedName d = t := by
  induction t with
  | nil => rfl
  | node k l r ihl ihr =>
    rw [without]
    split
    · rw [substitute]
      exact ‹node k l r = d›.symm
    · rw [substitute, if_neg (ne_named unused _ _), ihl fun m => unused (.inr (.inl m)),
        ihr fun m => unused (.inr (.inr m))]

/-- Where no name has come in, nothing was replaced. -/
lemma without_eq_self (unused : ¬ (t.without d).Mentions hoistedName) : t.without d = t := by
  induction t with
  | nil => rfl
  | node k l r ihl ihr =>
    rw [without] at unused ⊢
    split at unused
    · exact absurd (.inl rfl) unused
    · rw [if_neg ‹_›, ihl fun m => unused (.inr (.inl m)), ihr fun m => unused (.inr (.inr m))]

/-- No copy of the hoisted subtree is left. -/
lemma not_subtree_without (ne : d ≠ .nil) (unused : ¬ d.Mentions hoistedName) :
    ¬ Subtree d (t.without d) := by
  induction t with
  | nil => exact fun sub => ne sub.eq_nil
  | node k l r ihl ihr =>
    rw [without]
    split
    · intro sub
      cases sub with
      | refl => exact unused (.inl rfl)
      | left sub => exact ne sub.eq_nil
      | right sub => exact ne sub.eq_nil
    · next other =>
      generalize e : node k (l.without d) (r.without d) = t
      intro sub
      cases sub with
      | refl =>
        -- The copy has no name in it, so it was there before and should have been replaced.
        rw [← e] at unused
        rw [without_eq_self fun m => unused (.inr (.inl m)),
          without_eq_self fun m => unused (.inr (.inr m))] at e
        exact other e
      | left sub =>
        injection e with _ left
        exact ihl (left ▸ sub)
      | right sub =>
        injection e with _ _ right
        exact ihr (right ▸ sub)

/-- The name stands as often as the hoisted subtree has stood. -/
lemma count_named_without (unused : ¬ t.Mentions hoistedName) :
    (t.without d).subtrees.count (named hoistedName) = t.subtrees.count d := by
  induction t with
  | nil => rfl
  | node k l r ihl ihr =>
    rw [without]
    split
    · next e =>
      rw [← e, count_subtrees_self]
      exact count_subtrees_self _ _ _
    · next other =>
      rw [subtrees, subtrees, List.count_cons_of_ne (ne_named unused _ _),
        List.count_cons_of_ne other, List.count_append, List.count_append,
        ihl fun m => unused (.inr (.inl m)), ihr fun m => unused (.inr (.inr m))]

/-- Every subtree that is replaced leaves a single node. -/
lemma size_without (d t : Tree Kind) :
    (t.without d).size + t.subtrees.count d * d.size = t.size + t.subtrees.count d := by
  induction t with
  | nil => simp [without, size, subtrees]
  | node k l r ihl ihr =>
    rw [without]
    split
    · next e =>
      rw [← e, count_subtrees_self]
      simp only [size]
      omega
    · next other =>
      rw [subtrees, List.count_cons_of_ne other, List.count_append, Nat.add_mul]
      simp only [size]
      omega

end Tree

namespace Duplicate

variable {s : Store} {root : Handle} {c : Tree Cell} {hit : Hit}

/-- What is found to be repeated stands at two positions at least. -/
lemma Repeated.two_le_count {h : Handle} {size : Nat} (rep : Repeated s root h size)
    (cs : s.Cells (some root) c) (path : s.Reaches root h) :
    ∃ d, s.Unfolds (some h) d ∧ d.size = size ∧ 2 ≤ (c.map Cell.kind).subtrees.count d := by
  obtain ⟨d, ud, sized, g, reached, ne, ug⟩ := rep.again
  obtain ⟨p, top⟩ := Tree.exists_path_of_mem (cs.mem_handles_iff.2 path)
  obtain ⟨q, top'⟩ := Tree.exists_path_of_mem (cs.mem_handles_iff.2 reached)
  have apart : p ≠ q := by
    rintro rfl
    exact ne (Option.some.inj (top'.symm.trans top))
  have here : (c.map Cell.kind).down p = d := by
    rw [Tree.map_down, (cs.down top).unfolds.unique ud]
  have there : (c.map Cell.kind).down q = d := by
    rw [Tree.map_down, (cs.down top').unfolds.unique ug]
  have some : d ≠ .nil := by
    rintro rfl
    cases ud
  refine ⟨d, ud, sized, ?_⟩
  exact Tree.two_le_countP apart (here ▸ some) (there ▸ some) (beq_iff_eq.2 here) (beq_iff_eq.2 there)

/-- What the search finds is repeated. -/
lemma repeated_of_largest (cs : s.Cells (some root) c) (found : largest s root = .ok (some hit)) :
    Repeated s root hit.handle hit.size := by
  obtain ⟨best, found', leads⟩ := largest_leads cs
  cases found.symm.trans found'
  generalize c.handles = seen at leads
  cases leads with
  | first rep => exact rep

end Duplicate

namespace Build

variable {s : Store} {root : Handle} {t : Tree Kind}

/-- What hoisting from a root with the tree `t` leads to: the root itself if nothing is repeated below
it, or a sequence that binds the name to what is repeated, above a copy of the tree without it. -/
inductive Hoists (s : Store) (root : Handle) (t : Tree Kind) : Handle → Store → Prop where
  | nothing :
    Duplicate.largest s root = .ok none →
    Hoists s root t root s
  | parts {hit d name binding rest r s'} :
    Duplicate.largest s root = .ok (some hit) →
    s.Unfolds (some hit.handle) d →
    s.Extends s' →
    s'.node? name = some (.var hoistedName) →
    s'.node? binding = some (.binary .assign name hit.handle) →
    s'.node? r = some (.binary .seq binding rest) →
    s'.Unfolds (some rest) (t.without d) →
    s'.size = s.size + (t.without d).size + 3 →
    Hoists s root t r s'

/-- A new node is found under its handle, and all others as before. -/
lemma alloc_found (n : Node) : (alloc n).Ensures s
    (fun h s' => s.Extends s' ∧ s'.node? h = some n ∧ s'.size = s.size + 1) (fun _ _ => True) :=
  .alloc (fun _ => ⟨Store.extends_push, Store.node?_push_end, Store.size_push⟩) fun _ => trivial

/-- Hoisting takes out what the search finds, and changes nothing if it finds nothing. -/
theorem hoist_hoists (u : s.Unfolds (some root) t) :
    (hoist root).Ensures s (fun r s' => Hoists s root t r s') (fun _ _ => True) := by
  obtain ⟨o, largest⟩ := Duplicate.largest_ok u
  refine .inspect_bind largest ?_
  cases o with
  | none => exact .pure (.nothing largest)
  | some hit =>
    obtain ⟨d, ud, -⟩ := u.subtree (Duplicate.reaches_of_largest largest)
    refine (kinds_ensures hit.handle).bind ?_
    intro d' s₀ kinds
    obtain ⟨same, ud'⟩ := kinds
    cases same
    cases ud.unique ud'
    refine (kinds_ensures root).bind ?_
    intro t' s₀ kinds
    obtain ⟨same, u'⟩ := kinds
    cases same
    cases u.unique u'
    refine ((copyWithout_ensures d t).and (copyWithout_takes d t s)).weaken (fun _ _ => id)
      (fun _ _ _ => trivial) |>.bind ?_
    intro copy s₁ copied
    obtain ⟨⟨ext₁, ur⟩, -, new, count, grown⟩ := copied
    have size₁ : s₁.size = s.size + new.size := by rw [grown, Store.size_append]
    -- The tree is not empty, and at its root there is a node or the name.
    obtain ⟨rest, rfl⟩ : ∃ rest, copy = some rest := by
      obtain ⟨n, l, r, -, -, -, rfl⟩ := u.inv
      cases copy with
      | some rest => exact ⟨rest, rfl⟩
      | none =>
        have empty := ur.nil_inv
        rw [Tree.without] at empty
        split at empty <;> cases empty
    refine (alloc_found _).bind fun name s₂ found => ?_
    obtain ⟨ext₂, atName, size₂⟩ := found
    refine (alloc_found _).bind fun binding s₃ found => ?_
    obtain ⟨ext₃, atBinding, size₃⟩ := found
    refine (alloc_found _).weaken ?_ fun _ _ => id
    intro r s₄ found
    obtain ⟨ext₄, atRoot, size₄⟩ := found
    have ext := ext₂.trans (ext₃.trans ext₄)
    refine .parts largest ud (ext₁.trans ext) ?_ (ext₄ _ _ atBinding) atRoot (ur.extend ext) ?_
    · exact ext₄ _ _ (ext₃ _ _ atName)
    · rw [size₄, size₃, size₂, size₁, count]

end Build

/-- In a store without dangling handles and cycles, a hoisting from a root whose tree does not mention
the name either finds nothing repeated and changes nothing, or leads to a sequence that binds the name to
the node that was found, whose tree stays what it is. In what comes after the binding no copy of that tree
is left, the name stands at two places at least, and putting the tree back in those places gives the tree
from before. -/
theorem hoist_undone {s s' : Store} {root r : Handle} (closed : s.Closed) (acyclic : s.Acyclic)
    (allocated : root.index < s.size) (ran : (Build.hoist root).run s = .ok r s') :
    ∃ t, s.tree (some root) = .ok t ∧ (¬ t.Mentions hoistedName →
      (Duplicate.largest s root = .ok none ∧ r = root ∧ s' = s) ∨
      ∃ hit d name binding rest u, Duplicate.largest s root = .ok (some hit) ∧
        s'.node? r = some (.binary .seq binding rest) ∧
        s'.node? binding = some (.binary .assign name hit.handle) ∧
        s'.node? name = some (.var hoistedName) ∧
        s.tree (some hit.handle) = .ok d ∧ s'.tree (some hit.handle) = .ok d ∧
        s'.tree (some rest) = .ok u ∧ ¬ Tree.Subtree d u ∧
        2 ≤ u.subtrees.count (Tree.named hoistedName) ∧ u.substitute hoistedName d = t) := by
  obtain ⟨t, u⟩ := Store.Grounded.of_closed_acyclic closed acyclic root allocated
  refine ⟨t, Store.tree_eq_ok_iff.2 u, fun unused => ?_⟩
  cases (Build.hoist_hoists u).of_ok ran with
  | nothing largest => exact .inl ⟨largest, rfl, rfl⟩
  | @parts hit d name binding rest _ _ largest ud ext atName atBinding atRoot ur _ =>
    obtain ⟨c, cs, rfl⟩ := u.cells
    have path := Duplicate.reaches_of_largest largest
    obtain ⟨d', ud', -, twice⟩ := (Duplicate.repeated_of_largest cs largest).two_le_count cs path
    cases ud.unique ud'
    obtain ⟨d', ud', sub⟩ := u.subtree path
    cases ud.unique ud'
    have ne : d ≠ .nil := by
      rintro rfl
      cases ud
    refine .inr ⟨hit, d, name, binding, rest, _, largest, atRoot, atBinding, atName,
      Store.tree_eq_ok_iff.2 ud, Store.tree_eq_ok_iff.2 (ud.extend ext), Store.tree_eq_ok_iff.2 ur,
      Tree.not_subtree_without ne fun m => unused (sub.mentions m), ?_, Tree.substitute_without unused⟩
    rw [Tree.count_named_without unused]
    exact twice

/-- A store with `(x + y) * (x + y) - (x + y)` at 5, in which the sum has two nodes and the first of them
stands in two places. -/
def threeSums : Store where
  nodes := #[.var 'x', .var 'y', .binary .add ⟨0⟩ ⟨1⟩, .binary .add ⟨0⟩ ⟨1⟩, .binary .mul ⟨2⟩ ⟨3⟩,
    .binary .sub ⟨4⟩ ⟨2⟩]
  capacity := 16

/-- The sum is hoisted, and it can be put back in all three places. -/
theorem hoist_undone_threeSums : ∃ t r s', threeSums.tree (some ⟨5⟩) = .ok t ∧
    (Build.hoist ⟨5⟩).run threeSums = .ok r s' ∧
    ∃ binding rest u d, s'.node? r = some (.binary .seq binding rest) ∧
      s'.tree (some rest) = .ok u ∧ threeSums.tree (some ⟨2⟩) = .ok d ∧
      ¬ Tree.Subtree d u ∧ u.substitute hoistedName d = t := by
  have ground : threeSums.Grounded := by decide
  obtain ⟨closed, acyclic⟩ := ground.closed_acyclic
  have found : Duplicate.largest threeSums ⟨5⟩ = .ok (some ⟨⟨2⟩, 3⟩) := by decide +kernel
  obtain ⟨r, s', ran⟩ : ∃ r s', (Build.hoist ⟨5⟩).run threeSums = .ok r s' := ⟨_, _, rfl⟩
  obtain ⟨t, tree, undone⟩ := hoist_undone closed acyclic (by decide) ran
  have unused : ¬ t.Mentions hoistedName := by
    cases tree
    decide
  rcases undone unused with ⟨nothing, -⟩ | ⟨hit, d, name, binding, rest, u, some, root, -, -, dup, -, below,
    free, -, back⟩
  · cases found.symm.trans nothing
  · cases found.symm.trans some
    exact ⟨t, r, s', tree, ran, binding, rest, u, d, root, below, dup, free, back⟩

end ExprOpt
