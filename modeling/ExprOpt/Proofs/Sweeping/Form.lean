import ExprOpt.Folding
import ExprOpt.Peephole
import ExprOpt.Proofs.Appending

/-!
# What a sweep does to the form of a store

A sweep changes which children a node has, but not what the node is and whether it has them: every node
keeps its kind, and a slot that is filled stays filled and one that is empty stays empty. The nodes that
a sweep adds are well-formed, and there are no more of them than there is room for (`Store.Reshapes`).
This needs no assumption about the store; the edits only have to be `Tidy`.
-/

namespace ExprOpt

namespace Store

variable {s s' s'' : Store}

/-- Nodes have been added, as long as there was room, and child slots have been overwritten that were in
use. -/
structure Reshapes (s s' : Store) : Prop extends s.Widens s' where
  old : ∀ g n, s.node? g = some n → ∃ n', s'.node? g = some n' ∧ n'.kind = n.kind ∧
    ∀ side, (n'.slot side).isSome = (n.slot side).isSome
  new : s'.WellFormedFrom s.size

namespace Reshapes

/-- A store that is left alone keeps its form. -/
lemma refl : s.Reshapes s where
  toWidens := .refl
  old _ n found := ⟨n, found, rfl, fun _ => rfl⟩
  new := .base

/-- A store may be reshaped again and again. -/
lemma trans (a : s.Reshapes s') (b : s'.Reshapes s'') : s.Reshapes s'' where
  toWidens := a.toWidens.trans b.toWidens
  old g n found := by
    obtain ⟨n', found', kind', slots'⟩ := a.old g n found
    obtain ⟨n'', found'', kind'', slots''⟩ := b.old g n' found'
    exact ⟨n'', found'', kind''.trans kind', fun side => (slots'' side).trans (slots' side)⟩
  new g n le found := by
    rcases Nat.lt_or_ge g.index s'.size with lt | ge
    · -- The node was there in between, and it had the same form.
      obtain ⟨m, found'⟩ := exists_node? lt
      obtain ⟨n', found'', kind, slots⟩ := b.old g m found'
      cases Option.some.inj (found.symm.trans found'')
      exact (a.new g m le found').congr kind slots
    · exact b.new g n ge found

/-- A well-formed node may be added. -/
lemma push {n : Node} (room : s.size < s.capacity) (w : n.WellFormed) : s.Reshapes (s.push n) where
  toWidens := .push room
  old g m found := ⟨m, extends_push g m found, rfl, fun _ => rfl⟩
  new := WellFormedFrom.base.push w

/-- A write that leaves a node its kind, and its slots as full or empty as they are. -/
lemma write {h : Handle} {f : Node → Node} (kind : ∀ n, (f n).kind = n.kind)
    (slots : ∀ n, s.node? h = some n → ∀ side, ((f n).slot side).isSome = (n.slot side).isSome) :
    s.Reshapes (s.modifyNode h f) where
  toWidens := .modifyNode h f
  old g n found := by
    rw [node?_modifyNode]
    split
    · subst g
      exact ⟨f n, by rw [found]; rfl, kind n, slots n found⟩
    · exact ⟨n, found, rfl, fun _ => rfl⟩
  new g n le found := by
    have lt := index_lt_of_node? found
    rw [size_modifyNode] at lt
    omega

/-- A well-formed store that is reshaped stays well-formed. -/
lemma keeps_wellFormed (r : s.Reshapes s') (w : s.WellFormed) : s'.WellFormed := by
  intro g n found
  rcases Nat.lt_or_ge g.index s.size with lt | ge
  · obtain ⟨m, found'⟩ := exists_node? lt
    obtain ⟨n', found'', kind, slots⟩ := r.old g m found'
    cases Option.some.inj (found.symm.trans found'')
    exact (w g m found').congr kind slots
  · exact r.new g n ge found

end Reshapes

end Store

/-- Children change places only if there are two, and a node that is put in the place of another one is
well-formed. -/
def Edit.Tidy (n : Node) : Edit → Prop
  | .keep => True
  | .swap => n.left.isSome ∧ n.right.isSome
  | .reuse _ => True
  | .replace m => m.WellFormed

/-- A choice of tidy edits. -/
def Tidy (edit : Store → Node → Edit) : Prop := ∀ s n, (edit s n).Tidy n

variable {edit : Store → Node → Edit}

/-- Carrying out a tidy edit reshapes the store, whether there is room for it or not. -/
lemma Edit.perform_reshapes {s : Store} {h : Handle} {n : Node} {ed : Edit} (found : s.node? h = some n)
    (tidy : ed.Tidy n) :
    (ed.perform h).Ensures s (fun _ s' => s.Reshapes s') (fun _ s' => s.Reshapes s') := by
  cases ed with
  | keep => exact .pure .refl
  | reuse child => exact .pure .refl
  | replace m => exact .alloc (fun room => .push room tidy) fun _ => .refl
  | swap =>
    refine .bind (.modifyNode (Q := fun _ s' => s.Reshapes s') found ?_) fun _ _ post => .pure post
    refine .write (fun _ => rfl) fun m found' side => ?_
    cases Option.some.inj (found.symm.trans found')
    cases side with
    | left => exact tidy.2.trans tidy.1.symm
    | right => exact tidy.1.trans tidy.2.symm

/-- Dealing with a child slot fills it if it was filled before. -/
lemma sweepSlot_reshapes {s : Store} {depth : Nat} (h : Handle) (side : Side)
    (ih : ∀ c s, (sweepWithin edit depth c).Ensures s (fun _ s' => s.Reshapes s')
      (fun _ s' => s.Reshapes s')) :
    (sweepSlot edit depth h side).Ensures s (fun _ s' => s.Reshapes s') (fun _ s' => s.Reshapes s') := by
  refine .bind (.node (Q := fun n s' => s' = s ∧ s.node? h = some n) (fun n found => ⟨rfl, found⟩)
    fun _ => .refl) ?_
  rintro n _ ⟨rfl, found⟩
  cases e : n.slot side with
  | none => exact .pure .refl
  | some c =>
    refine .bind (ih c _) ?_
    intro c' s₁ reshaped
    obtain ⟨n₁, found₁, -, slots₁⟩ := reshaped.old h n found
    refine .modifyNode found₁ (reshaped.trans (.write (fun _ => Node.kind_withSlot) ?_))
    intro m found' side'
    cases Option.some.inj (found₁.symm.trans found')
    by_cases eq : side' = side
    · subst eq
      rw [Node.slot_withSlot_self, slots₁, e]
      rfl
    · rw [Node.slot_withSlot_of_ne eq]

/-- A sweep by tidy edits reshapes the store, by induction on its depth. -/
lemma sweepWithin_reshapes (tidy : Tidy edit) (depth : Nat) :
    ∀ h s, (sweepWithin edit depth h).Ensures s (fun _ s' => s.Reshapes s')
      (fun _ s' => s.Reshapes s') := by
  induction depth with
  | zero => exact fun _ s => Store.Reshapes.refl
  | succ depth ih =>
    intro h s
    rw [sweepWithin_succ]
    refine .bind (sweepSlot_reshapes h .left ih) fun _ s₁ first => ?_
    refine .bind ((sweepSlot_reshapes h .right ih).weaken (fun _ _ => first.trans)
      (fun _ _ => first.trans)) fun _ s₂ second => ?_
    refine .bind (.node (Q := fun n s' => s' = s₂ ∧ s₂.node? h = some n)
      (fun n found => ⟨rfl, found⟩) fun _ => second) ?_
    rintro n s₂ ⟨rfl, found⟩
    exact .get_bind ((Edit.perform_reshapes found (tidy _ n)).weaken (fun _ _ => second.trans)
      (fun _ _ => second.trans))

/-- A sweep keeps the form of all nodes, whether it succeeds or not. -/
theorem sweep_reshapes (tidy : Tidy edit) (h : Handle) (s : Store) :
    (sweep edit h).Ensures s (fun _ s' => s.Reshapes s') (fun _ s' => s.Reshapes s') :=
  .get_bind (sweepWithin_reshapes tidy _ h s)

/-- All that folding puts in is constants. -/
lemma Folding.tidy : Tidy Folding.edit := by
  intro s n
  have child (o : Option Handle) : (Edit.child o).Tidy n := by
    cases o with
    | none => trivial
    | some h => trivial
  unfold Folding.edit
  split
  · dsimp only
    split
    · trivial
    · exact child _
    · exact child _
    · exact Node.wellFormed_const _
  · trivial

/-- All that simplification puts in is operators with their operands. -/
lemma Peephole.binary_tidy {n : Node} (s : Store) (op : Op) (l r : Handle)
    (both : n.left.isSome ∧ n.right.isSome) : (Peephole.binary s op l r).Tidy n := by
  cases op with
  | add =>
    simp only [Peephole.binary]
    split
    · exact both
    · split
      · exact Node.wellFormed_binary _ _ _
      · trivial
  | sub =>
    simp only [Peephole.binary]
    split
    · exact Node.wellFormed_negation _
    · trivial
  | mul =>
    simp only [Peephole.binary]
    split
    · exact both
    · split
      · exact Node.wellFormed_binary _ _ _
      · trivial
  | div => trivial
  | assign => trivial
  | seq => trivial

/-- Simplification makes only well-formed nodes. -/
lemma Peephole.tidy : Tidy Peephole.edit := by
  intro s n
  unfold Peephole.edit
  split
  · rename_i op l r _ left right
    exact binary_tidy s op l r (by rw [left, right]; exact ⟨rfl, rfl⟩)
  · trivial

end ExprOpt
