import ExprOpt.Proofs.FoldedTree
import ExprOpt.Proofs.Positions
import ExprOpt.Proofs.SimplifiedTree
import ExprOpt.Proofs.Sweeping.Form

/-!
# What a sweep shares

A sweep may let the same leaf stand at several positions of a tree, but no operator: if every operator of
a tree stands at one position (`Tree.Unshared`), then so does every operator of the swept tree
(`sweep_unshared`). While one part of the tree is swept, the others keep their nodes, for all that a
sweep changes in the store are operators of its own tree (`Store.Renews`).
-/

namespace ExprOpt

namespace Tree

/-- Whether an operator with the given handle is at the root of a tree. -/
def isOperator (g : Handle) : Tree Cell → Bool
  | .nil => false
  | .node cell _ _ => !cell.kind.isLeaf && cell.handle = g

/-- The number of positions at which an operator stands. -/
def uses (c : Tree Cell) (g : Handle) : Nat := c.subtrees.countP (isOperator g)

/-- No operator stands at two positions. -/
def Unshared (c : Tree Cell) : Prop := ∀ g, c.uses g ≤ 1

/-- Nothing stands in the empty tree. -/
@[simp] lemma uses_nil (g : Handle) : (nil : Tree Cell).uses g = 0 := rfl

/-- The uses of an operator are those in both children, and one more at the root if it stands there. -/
lemma uses_node (cell : Cell) (l r : Tree Cell) (g : Handle) : (node cell l r).uses g =
    l.uses g + r.uses g + if cell.kind.isLeaf = false ∧ cell.handle = g then 1 else 0 := by
  rw [uses, subtrees, List.countP_cons, List.countP_append]
  simp [isOperator, uses]

/-- An operator stands at no more positions than its handle. -/
lemma uses_le_count (c : Tree Cell) (g : Handle) : c.uses g ≤ c.handles.count g := by
  induction c with
  | nil => exact le_rfl
  | node cell l r ihl ihr =>
    rw [uses_node, handles, List.count_cons, List.count_append]
    refine Nat.add_le_add (Nat.add_le_add ihl ihr) ?_
    split_ifs <;> simp_all

/-- Nothing is shared where no handle is listed twice. -/
lemma unshared_of_nodup {c : Tree Cell} (nodup : c.handles.Nodup) : c.Unshared :=
  fun g => (c.uses_le_count g).trans (List.nodup_iff_count_le_one.1 nodup g)

/-- An operator of an unshared tree has a position of its own. -/
lemma Unshared.path_unique {c : Tree Cell} {g : Handle} {p q : List Side} (unshared : c.Unshared)
    (there : (c.down p).isOperator g) (there' : (c.down q).isOperator g) : p = q := by
  have some {path} (there : (c.down path).isOperator g) : c.down path ≠ nil := by
    intro e
    rw [e] at there
    cases there
  by_contra ne
  have twice : 2 ≤ c.uses g := two_le_countP ne (some there) (some there') there there'
  exact absurd (unshared g) (Nat.not_le.2 twice)

/-- The operator at the root of an unshared tree does not stand below itself. -/
lemma Unshared.uses_below {cell : Cell} {f : Side → Tree Cell}
    (unshared : (node cell (f .left) (f .right)).Unshared) (op : cell.kind.isLeaf = false) (i : Side) :
    (f i).uses cell.handle = 0 := by
  have once := unshared cell.handle
  rw [uses_node, if_pos ⟨op, rfl⟩] at once
  cases i with
  | left => omega
  | right => omega

end Tree

namespace Store

variable {s s' s'' : Store} {o : Option Handle} {c c' c'' : Tree Cell} {g h : Handle}

/-- What is used is in the store. -/
lemma Cells.index_lt_of_uses (cs : s.Cells o c) (used : c.uses g ≠ 0) : g.index < s.size := by
  refine cs.index_lt g (List.count_pos_iff.1 ?_)
  exact (Nat.pos_of_ne_zero used).trans_le (c.uses_le_count g)

/-- A handle that is still to be allocated is not used. -/
lemma Cells.uses_eq_zero (cs : s.Cells o c) (new : s.size ≤ g.index) : c.uses g = 0 := by
  by_contra used
  exact Nat.not_lt.2 new (cs.index_lt_of_uses used)

/-- The tree stays if all of its operators and all leaves do. -/
lemma Cells.keep (cs : s.Cells o c) (same : ∀ g n, s.node? g = some n →
    n.kind.isLeaf = true ∨ c.uses g ≠ 0 → s'.node? g = some n) : s'.Cells o c := by
  induction cs with
  | nil => exact .nil
  | @node h n l r found cl cr ihl ihr =>
    refine .node (same h n found ?_) (ihl ?_) (ihr ?_)
    · cases leaf : n.kind.isLeaf with
      | true => exact .inl rfl
      | false =>
        right
        simp [Tree.uses_node, leaf]
    · intro g m found' part
      refine same g m found' (part.imp_right fun used => ?_)
      rw [Tree.uses_node]
      omega
    · intro g m found' part
      refine same g m found' (part.imp_right fun used => ?_)
      rw [Tree.uses_node]
      omega

/-- A tree has become another one. Operators of the new tree that were there before stand at no more
positions than they did, the others at one. Nothing has changed but operators of the old tree. -/
structure Renews (s : Store) (c : Tree Cell) (s' : Store) (c' : Tree Cell) : Prop where
  size_le : s.size ≤ s'.size
  old : ∀ g, g.index < s.size → c'.uses g ≤ c.uses g
  new : ∀ g, s.size ≤ g.index → c'.uses g ≤ 1
  frame : ∀ g n, s.node? g = some n → n.kind.isLeaf = true ∨ c.uses g = 0 → s'.node? g = some n

namespace Renews

/-- A tree that is left alone is renewed as itself. -/
lemma refl (cs : s.Cells o c) : s.Renews c s c where
  size_le := le_rfl
  old _ _ := le_rfl
  new _ ge := (cs.uses_eq_zero ge).trans_le (Nat.zero_le _)
  frame _ _ found _ := found

/-- A tree may be renewed again and again. -/
lemma trans (a : s.Renews c s' c') (b : s'.Renews c' s'' c'') : s.Renews c s'' c'' where
  size_le := a.size_le.trans b.size_le
  old g lt := (b.old g (lt.trans_le a.size_le)).trans (a.old g lt)
  new g ge := by
    rcases Nat.lt_or_ge g.index s'.size with lt | ge'
    · exact (b.old g lt).trans (a.new g ge)
    · exact b.new g ge'
  frame g n found part := by
    refine b.frame g n (a.frame g n found part) (part.imp_right fun unused => ?_)
    exact Nat.eq_zero_of_le_zero ((a.old g (index_lt_of_node? found)).trans unused.le)

/-- A renewed tree shares no operators if the tree before did not. -/
lemma unshared (r : s.Renews c s' c') (unshared : c.Unshared) : c'.Unshared := by
  intro g
  rcases Nat.lt_or_ge g.index s.size with lt | ge
  · exact (r.old g lt).trans (unshared g)
  · exact r.new g ge

/-- A tree that has no operator in common with one that is renewed stays. -/
lemma keep {x : Tree Cell} (r : s.Renews c s' c') (xs : s.Cells o x)
    (apart : ∀ g, x.uses g ≠ 0 → c.uses g = 0) : s'.Cells o x :=
  xs.keep fun g n found part => r.frame g n found (part.imp_right (apart g))

end Renews

/-- The operator at the root of a tree is neither a leaf nor outside of the tree. -/
lemma Cells.ne_of_part {n m : Node} (cs : s.Cells (some h) c) (found : s.node? h = some n)
    (op : n.kind.isLeaf = false) (part : m.kind.isLeaf = true ∨ c.uses g = 0)
    (found' : s.node? g = some m) : h ≠ g := by
  rintro rfl
  cases Option.some.inj (found.symm.trans found')
  obtain ⟨_, l, r, found', -, -, rfl⟩ := cs.inv
  cases Option.some.inj (found.symm.trans found')
  rcases part with leaf | unused
  · cases op.symm.trans leaf
  · rw [Tree.uses_node, if_pos ⟨op, rfl⟩] at unused
    cases unused

/-- Writing to an operator leaves trees alone that it does not stand in. -/
lemma Cells.modifyNode {f : Node → Node} {n : Node} (cs : s.Cells o c) (found : s.node? h = some n)
    (op : n.kind.isLeaf = false) (unused : c.uses h = 0) : (s.modifyNode h f).Cells o c := by
  refine cs.keep fun g m found' part => ?_
  rw [node?_modifyNode, if_neg, found']
  rintro rfl
  cases Option.some.inj (found.symm.trans found')
  rcases part with leaf | used
  · cases op.symm.trans leaf
  · exact used unused

end Store

/-- What an edit puts in the place of a node with the given trees below it takes its operators from
there, each at most as often as it stands there. -/
def Edit.Spares (s : Store) (l r : Tree Cell) : Edit → Prop
  | .keep => True
  | .swap => True
  | .reuse h => ∃ c, s.Cells (some h) c ∧ ∀ g, c.uses g ≤ l.uses g + r.uses g
  | .replace m => ∃ l' r', s.Cells m.left l' ∧ s.Cells m.right r' ∧
      ∀ g, l'.uses g + r'.uses g ≤ l.uses g + r.uses g

/-- A choice of edits that share no operators in a well-formed store. -/
def Sparing (edit : Store → Node → Edit) : Prop :=
  ∀ (s : Store) (n : Node) (l r : Tree Cell), s.WellFormed → s.Cells n.left l → s.Cells n.right r →
    (edit s n).Spares s l r

section

variable {edit : Store → Node → Edit}

/-- A node with a child is an operator. -/
lemma Node.WellFormed.isLeaf_eq {n : Node} {side : Side} {d : Handle} (w : n.WellFormed)
    (slot : n.slot side = some d) : n.kind.isLeaf = false := by
  rw [Node.WellFormed] at w
  cases kind : n.kind with
  | op op => rfl
  | const v =>
    cases side <;> simp_all [Kind.admits, Node.slot]
  | var x =>
    cases side <;> simp_all [Kind.admits, Node.slot]

/-- Sweeps of unshared trees renew them. -/
def Renewing (edit : Store → Node → Edit) (depth : Nat) : Prop :=
  ∀ h s c, s.WellFormed → s.Cells (some h) c → c.Unshared →
    (sweepWithin edit depth h).Ensures s (fun r s' => ∃ c', s'.Cells (some r) c' ∧ s.Renews c s' c')
      (fun _ _ => True)

/-- Putting the renewed child into its slot renews the tree of the node. -/
lemma Store.Cells.renew_slot {s s₁ : Store} {h d₁ : Handle} {n : Node} {f : Side → Tree Cell}
    {d' : Tree Cell} {side : Side} (found : s.node? h = some n) (op : n.kind.isLeaf = false)
    (cs : ∀ i, s.Cells (n.slot i) (f i))
    (unshared : (Tree.node ⟨h, n.kind⟩ (f .left) (f .right)).Unshared)
    (ds : s₁.Cells (some d₁) d') (renews : s.Renews (f side) s₁ d') :
    ∃ c', (s₁.modifyNode h (·.withSlot side (some d₁))).Cells (some h) c' ∧
      s.Renews (.node ⟨h, n.kind⟩ (f .left) (f .right))
        (s₁.modifyNode h (·.withSlot side (some d₁))) c' := by
  have lt := index_lt_of_node? found
  have parts (g : Handle) (f : Side → Tree Cell) :
      (Tree.node ⟨h, n.kind⟩ (f .left) (f .right)).uses g =
        (f .left).uses g + (f .right).uses g + if h = g then 1 else 0 := by
    simp [Tree.uses_node, op]
  have below := unshared.uses_below op
  have apart (i : Side) (ne : i ≠ side) (g : Handle) (used : (f i).uses g ≠ 0) :
      (f side).uses g = 0 := by
    have once := unshared g
    rw [parts] at once
    cases i <;> cases side <;> first | exact absurd rfl ne | omega
  have found₁ : s₁.node? h = some n := renews.frame h n found (.inr (below side))
  have found' : (s₁.modifyNode h (·.withSlot side (some d₁))).node? h =
      some (n.withSlot side (some d₁)) := by
    rw [node?_modifyNode, if_pos rfl, found₁]
    rfl
  have cells (i : Side) : (s₁.modifyNode h (·.withSlot side (some d₁))).Cells
      ((n.withSlot side (some d₁)).slot i) (Function.update f side d' i) := by
    by_cases eq : i = side
    · subst eq
      rw [Node.slot_withSlot_self, Function.update_self]
      exact ds.modifyNode found₁ op (Nat.eq_zero_of_le_zero ((renews.old h lt).trans (below i).le))
    · rw [Node.slot_withSlot_of_ne eq, Function.update_of_ne eq]
      exact (renews.keep (cs i) (apart i eq)).modifyNode found₁ op (below i)
  have whole := Cells.node found (cs .left) (cs .right)
  have tree := Cells.node found' (cells .left) (cells .right)
  rw [Node.kind_withSlot] at tree
  refine ⟨_, tree, ?_⟩
  constructor
  · rw [size_modifyNode]
    exact renews.size_le
  · intro g lt
    have le := renews.old g lt
    rw [parts, parts]
    cases side <;> simp [Function.update] <;> omega
  · intro g ge
    have one := renews.new g ge
    have left : (f .left).uses g = 0 := (cs .left).uses_eq_zero ge
    have right : (f .right).uses g = 0 := (cs .right).uses_eq_zero ge
    have other : h ≠ g := by
      rintro rfl
      omega
    rw [parts, if_neg other]
    cases side <;> simp [Function.update, left, right] <;> omega
  · intro g m found' part
    rw [node?_modifyNode, if_neg (whole.ne_of_part found op part found')]
    refine renews.frame g m found' (part.imp_right fun unused => ?_)
    rw [parts] at unused
    cases side <;> omega

/-- Dealing with a child slot renews the tree, if sweeping the child does. -/
lemma sweepSlot_renews {s : Store} {h : Handle} {c : Tree Cell} {depth : Nat}
    (ih : Renewing edit depth) (side : Side) (w : s.WellFormed) (cs : s.Cells (some h) c)
    (unshared : c.Unshared) :
    (sweepSlot edit depth h side).Ensures s (fun _ s' => ∃ c', s'.Cells (some h) c' ∧ s.Renews c s' c')
      (fun _ _ => True) := by
  obtain ⟨n, l, r, found, cl, cr, rfl⟩ := cs.inv
  refine .node_bind found ?_
  cases slot : n.slot side with
  | none => exact .pure ⟨_, cs, .refl cs⟩
  | some d =>
    have op := (w h n found).isLeaf_eq slot
    have slots (i : Side) : s.Cells (n.slot i) (Side.pick l r i) := by
      cases i with
      | left => exact cl
      | right => exact cr
    have part : (Side.pick l r side).Unshared := by
      intro g
      refine le_trans ?_ (unshared g)
      rw [Tree.uses_node]
      cases side <;> simp only [Side.pick] <;> omega
    refine .bind (ih d s _ w (slot ▸ slots side) part) ?_
    intro d₁ s₁ swept
    obtain ⟨d', ds, renews⟩ := swept
    have below := @Tree.Unshared.uses_below ⟨h, n.kind⟩ (Side.pick l r) unshared op side
    exact .modifyNode (renews.frame h n found (.inr below))
      (Store.Cells.renew_slot found op slots unshared ds renews)

/-- An edit renews the tree of a node whose children have been dealt with. -/
lemma Edit.perform_renews {s : Store} {h : Handle} {n : Node} {l r : Tree Cell} {ed : Edit}
    (w : s.WellFormed) (found : s.node? h = some n) (cl : s.Cells n.left l) (cr : s.Cells n.right r)
    (unshared : (Tree.node ⟨h, n.kind⟩ l r).Unshared) (tidy : ed.Tidy n) (spares : ed.Spares s l r) :
    (ed.perform h).Ensures s
      (fun r' s' => ∃ c', s'.Cells (some r') c' ∧ s.Renews (.node ⟨h, n.kind⟩ l r) s' c')
      (fun _ _ => True) := by
  have cs := Store.Cells.node found cl cr
  cases ed with
  | keep => exact .pure ⟨_, cs, .refl cs⟩
  | reuse child =>
    obtain ⟨c, cc, le⟩ := spares
    refine .pure ⟨c, cc, le_rfl, ?_, ?_, fun _ _ found _ => found⟩
    · intro g _
      rw [Tree.uses_node]
      exact (le g).trans (Nat.le_add_right _ _)
    · intro g ge
      rw [cc.uses_eq_zero ge]
      exact Nat.zero_le _
  | replace m =>
    obtain ⟨l', r', cl', cr', le⟩ := spares
    refine .alloc (fun _ => ⟨_, .node Store.node?_push_end (cl'.extend Store.extends_push)
      (cr'.extend Store.extends_push), ?_⟩) fun _ => trivial
    constructor
    · rw [Store.size_push]
      exact Nat.le_succ _
    · intro g lt
      have other : ¬ (⟨s.size⟩ : Handle) = g := by
        rintro rfl
        exact Nat.lt_irrefl _ lt
      rw [Tree.uses_node, Tree.uses_node, if_neg (other ·.2)]
      exact (le g).trans (Nat.le_add_right _ _)
    · intro g ge
      rw [Tree.uses_node, cl'.uses_eq_zero ge, cr'.uses_eq_zero ge]
      split_ifs <;> simp
    · exact fun g n found _ => Store.extends_push g n found
  | swap =>
    obtain ⟨d, left⟩ := Option.isSome_iff_exists.1 tidy.1
    have op := @Node.WellFormed.isLeaf_eq n .left d (w h n found) left
    have below := @Tree.Unshared.uses_below ⟨h, n.kind⟩ (Side.pick l r) unshared op
    refine .bind (.modifyNode (Q := fun _ s' => ∃ c', s'.Cells (some h) c' ∧
      s.Renews (.node ⟨h, n.kind⟩ l r) s' c') found ?_) fun _ _ post => .pure post
    have found' : (s.modifyNode h fun n => { n with left := n.right, right := n.left }).node? h =
        some { n with left := n.right, right := n.left } := by
      rw [Store.node?_modifyNode, if_pos rfl, found]
      rfl
    refine ⟨_, .node found' (cr.modifyNode found op (below .right))
      (cl.modifyNode found op (below .left)), ?_⟩
    constructor
    · rw [Store.size_modifyNode]
    · intro g _
      rw [Tree.uses_node, Tree.uses_node, Nat.add_comm (r.uses g)]
    · intro g ge
      rw [Tree.uses_node, cl.uses_eq_zero ge, cr.uses_eq_zero ge]
      split_ifs <;> simp
    · intro g m found' part
      rw [Store.node?_modifyNode, if_neg (cs.ne_of_part found op part found'), found']

/-- A sweep by sparing edits renews unshared trees, by induction on its depth. -/
lemma sweepWithin_renews (tidy : Tidy edit) (sparing : Sparing edit) (depth : Nat) :
    Renewing edit depth := by
  induction depth with
  | zero => exact fun _ _ _ _ _ _ => trivial
  | succ depth ih =>
    intro h s c w cs unshared
    have reshapes := sweepWithin_reshapes tidy depth
    rw [sweepWithin_succ]
    refine .bind (((sweepSlot_renews ih .left w cs unshared).and
      (sweepSlot_reshapes h .left reshapes)).weaken (fun _ _ => id) fun _ _ _ => trivial) ?_
    intro _ s₁ ⟨⟨c₁, cs₁, renews₁⟩, reshapes₁⟩
    have w₁ := reshapes₁.keeps_wellFormed w
    have unshared₁ := renews₁.unshared unshared
    refine .bind (((sweepSlot_renews ih .right w₁ cs₁ unshared₁).and
      (sweepSlot_reshapes h .right reshapes)).weaken (fun _ _ => id) fun _ _ _ => trivial) ?_
    intro _ s₂ ⟨⟨c₂, cs₂, renews₂⟩, reshapes₂⟩
    have w₂ := reshapes₂.keeps_wellFormed w₁
    have unshared₂ := renews₂.unshared unshared₁
    obtain ⟨n, l, r, found, cl, cr, rfl⟩ := cs₂.inv
    refine .node_bind found (.get_bind ?_)
    refine (Edit.perform_renews w₂ found cl cr unshared₂ (tidy s₂ n)
      (sparing s₂ n l r w₂ cl cr)).weaken ?_ fun _ _ => id
    intro x s' ⟨c', cs', renews'⟩
    exact ⟨c', cs', (renews₁.trans renews₂).trans renews'⟩

/-- A sweep of an unshared tree leaves an unshared tree. -/
theorem sweep_unshared (tidy : Tidy edit) (sparing : Sparing edit) {s : Store} {h : Handle}
    {c : Tree Cell} (w : s.WellFormed) (cs : s.Cells (some h) c) (unshared : c.Unshared) :
    (sweep edit h).Ensures s (fun r s' => ∃ c', s'.Cells (some r) c' ∧ c'.Unshared)
      (fun _ _ => True) := by
  refine .get_bind ((sweepWithin_renews tidy sparing _ h s c w cs unshared).weaken ?_ fun _ _ => id)
  intro r s' ⟨c', cs', renews⟩
  exact ⟨c', cs', renews.unshared unshared⟩

end

/-- Folding puts in one of the operands or a constant. -/
lemma Folding.sparing : Sparing Folding.edit := by
  intro s n l r _ cl cr
  have child {o : Option Handle} {c : Tree Cell} (cs : s.Cells o c)
      (le : ∀ g, c.uses g ≤ l.uses g + r.uses g) : (Edit.child o).Spares s l r := by
    cases o with
    | none => trivial
    | some h => exact ⟨c, cs, le⟩
  obtain ⟨v, e⟩ := Folding.exists_verdict s n
  rw [e]
  cases v with
  | unchanged => trivial
  | leftOperand => exact child cl fun g => Nat.le_add_right _ _
  | rightOperand => exact child cr fun g => Nat.le_add_left _ _
  | constant v => exact ⟨.nil, .nil, .nil, .nil, fun g => Nat.zero_le _⟩

namespace Peephole

variable {s : Store} {h x : Handle} {c l r : Tree Cell}

/-- A leaf of a well-formed store brings in no operator. -/
lemma uses_of_isLeaf (w : s.WellFormed) (cs : s.Cells (some h) c) (leaf : isLeaf s h) (g : Handle) :
    c.uses g = 0 := by
  obtain ⟨n, l, r, found, cl, cr, rfl⟩ := cs.inv
  have leaf : n.kind.isLeaf = true := by simpa [isLeaf, found] using leaf
  have empty {side : Side} : n.slot side = none := by
    cases slot : n.slot side with
    | none => rfl
    | some d => cases leaf.symm.trans ((w h n found).isLeaf_eq slot)
  have left : n.left = none := @empty .left
  have right : n.right = none := @empty .right
  rw [left] at cl
  rw [right] at cr
  cases cl.nil_inv
  cases cr.nil_inv
  simp [Tree.uses_node, leaf]

/-- The operand of a negation brings in no other operators. -/
lemma uses_of_negated (cs : s.Cells (some h) c) (neg : negated? s h = some x) :
    ∃ d, s.Cells (some x) d ∧ ∀ g, d.uses g ≤ c.uses g := by
  obtain ⟨n, l, r, found, cl, cr, rfl⟩ := cs.inv
  simp only [negated?, found, Option.ite_none_right_eq_some] at neg
  refine ⟨l, neg.2 ▸ cl, fun g => ?_⟩
  rw [Tree.uses_node]
  omega

/-- The only operand that simplification uses twice is a leaf. -/
lemma binary_spares {hl hr : Handle} (w : s.WellFormed) (op : Op) (cl : s.Cells (some hl) l)
    (cr : s.Cells (some hr) r) : (binary s op hl hr).Spares s l r := by
  cases op with
  | div => trivial
  | assign => trivial
  | seq => trivial
  | sub =>
    simp only [binary]
    split
    · exact ⟨r, .nil, cr, .nil, fun g => Nat.le_add_left _ _⟩
    · trivial
  | mul =>
    simp only [binary]
    split
    · trivial
    · split
      · next double =>
        have none := uses_of_isLeaf w cl (Bool.and_eq_true_iff.1 double).1
        exact ⟨l, l, cl, cl, fun g => by rw [none g]; exact Nat.zero_le _⟩
      · trivial
  | add =>
    simp only [binary]
    split
    · trivial
    · cases neg : negated? s hr with
      | none => trivial
      | some x =>
        obtain ⟨d, cd, le⟩ := uses_of_negated cr neg
        exact ⟨l, d, cl, cd, fun g => Nat.add_le_add_left (le g) _⟩

/-- Simplification shares no operators. It doubles only leaves. -/
lemma sparing : Sparing edit := by
  intro s n l r w cl cr
  unfold edit
  split
  · next op hl hr _ left right =>
    rw [left] at cl
    rw [right] at cr
    exact binary_spares w op cl cr
  · trivial

end Peephole

end ExprOpt
