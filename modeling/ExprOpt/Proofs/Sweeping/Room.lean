import ExprOpt.Proofs.Queries
import ExprOpt.Proofs.Sweeping.Trees

/-!
# The room that a computation takes

How many nodes a computation allocates does not depend on how many there is room for. It ends with
certain nodes if they fit, and it runs out of nodes if they do not (`Build.EndsWith`). For a sweep this is
not obvious, because its levels are counted against the capacity and because later parts of it work on
what earlier ones have written; but every level that it comes to is within the height of the tree
(`sweepWithin_endsWith`).
-/

namespace ExprOpt

namespace Build

variable {α β : Type} {a : α} {b : Build α} {nodes nodes' : Array Node} {capacity : Nat}

/-- Starting from some nodes, the computation ends with others if the capacity allows for them, and fails
for lack of room otherwise. -/
structure EndsWith (b : Build α) (capacity : Nat) (nodes : Array Node) (a : α) (nodes' : Array Node) :
    Prop where
  grows : nodes.size ≤ nodes'.size
  fits : nodes'.size ≤ capacity → b.run ⟨nodes, capacity⟩ = .ok a ⟨nodes', capacity⟩
  short : nodes.size ≤ capacity → capacity < nodes'.size →
    ∃ s, b.run ⟨nodes, capacity⟩ = .error (.outOfNodes capacity) s

namespace EndsWith

/-- A computation that allocates nothing. -/
lemma of_run (ran : b.run ⟨nodes, capacity⟩ = .ok a ⟨nodes', capacity⟩)
    (size : nodes'.size = nodes.size) : b.EndsWith capacity nodes a nodes' where
  grows := size.ge
  fits _ := ran
  short le lt := by omega

/-- A computation that does nothing needs no room. -/
lemma pure : (pure a : Build α).EndsWith capacity nodes a nodes := of_run rfl rfl

/-- Allocation needs room for one node, which it puts at the end. -/
lemma alloc (n : Node) : (alloc n).EndsWith capacity nodes ⟨nodes.size⟩ (nodes.push n) where
  grows := by simp
  fits le := by
    have room : nodes.size < capacity := by
      rw [Array.size_push] at le
      exact le
    rw [run_alloc, if_pos (by exact room)]
    rfl
  short _ lt := by
    have full : ¬ nodes.size < capacity := by
      rw [Array.size_push] at lt
      omega
    rw [run_alloc, if_neg (by exact full)]
    exact ⟨_, rfl⟩

/-- The nodes of two computations are those of the second, which starts where the first one ends. -/
lemma bind {f : α → Build β} {b' : β} {nodes'' : Array Node} (first : b.EndsWith capacity nodes a nodes')
    (second : (f a).EndsWith capacity nodes' b' nodes'') :
    (b >>= f).EndsWith capacity nodes b' nodes'' where
  grows := first.grows.trans second.grows
  fits le := by
    rw [EStateM.run_bind, first.fits (second.grows.trans le)]
    exact second.fits le
  short le lt := by
    rw [EStateM.run_bind]
    rcases Nat.lt_or_ge capacity nodes'.size with lt' | ge
    · obtain ⟨s, ran⟩ := first.short le lt'
      rw [ran]
      exact ⟨s, rfl⟩
    · rw [first.fits ge]
      exact second.short ge lt

/-- Using the result in another way needs no more room. -/
lemma map {f : α → β} (ends : b.EndsWith capacity nodes a nodes') :
    (f <$> b).EndsWith capacity nodes (f a) nodes' := by
  rw [← bind_pure_comp]
  exact ends.bind .pure

/-- A look at the store needs no room. -/
lemma get_bind {f : Store → Build α} (rest : (f ⟨nodes, capacity⟩).EndsWith capacity nodes a nodes') :
    (get >>= f).EndsWith capacity nodes a nodes' where
  grows := rest.grows
  fits := rest.fits
  short := rest.short

/-- Reading the store needs no room. -/
lemma inspect {read : Store → Except Error α} (found : read ⟨nodes, capacity⟩ = .ok a) :
    (inspect read).EndsWith capacity nodes a nodes := by
  refine of_run ?_ rfl
  rw [run_inspect, found]

/-- Reading a node needs no room. -/
lemma node {h : Handle} {n : Node} (found : nodes[h.index]? = some n) :
    (node h).EndsWith capacity nodes n nodes := by
  have found' : Store.node? ⟨nodes, capacity⟩ h = some n := found
  refine of_run ?_ rfl
  rw [run_node, found']

/-- Overwriting a node needs no room. -/
lemma modifyNode {h : Handle} {n : Node} {f : Node → Node} (found : nodes[h.index]? = some n) :
    (modifyNode h f).EndsWith capacity nodes () (nodes.modify h.index f) := by
  have found' : Store.node? ⟨nodes, capacity⟩ h = some n := found
  refine of_run ?_ Array.size_modify
  rw [run_modifyNode, found']
  rfl

end EndsWith

end Build

variable {edit : Store → Node → Edit} {rule : TreeRule} {nodes : Array Node} {c : Nat}

/-- The edits do not look at the capacity. -/
def Blind (edit : Store → Node → Edit) : Prop :=
  ∀ nodes c c' n, edit ⟨nodes, c⟩ n = edit ⟨nodes, c'⟩ n

/-- Sweeps of trees up to some height end with nodes that depend neither on the capacity nor on the
levels that are allowed for. -/
def SweepsAlike (edit : Store → Node → Edit) (bound : Nat) : Prop :=
  ∀ nodes c h t, Store.Unfolds ⟨nodes, c⟩ (some h) t → t.height ≤ bound →
    ∃ r nodes', ∀ capacity depth, t.height ≤ depth →
      (sweepWithin edit depth h).EndsWith capacity nodes r nodes'

/-- An edit ends with nodes that do not depend on the capacity. -/
lemma Edit.perform_endsWith (ed : Edit) {h : Handle} {n : Node} (found : nodes[h.index]? = some n) :
    ∃ r nodes', ∀ capacity, (ed.perform h).EndsWith capacity nodes r nodes' := by
  cases ed with
  | keep => exact ⟨h, nodes, fun _ => .pure⟩
  | reuse child => exact ⟨child, nodes, fun _ => .pure⟩
  | replace m => exact ⟨_, _, fun _ => .alloc m⟩
  | swap => exact ⟨h, _, fun _ => .bind (.modifyNode found) .pure⟩

/-- Dealing with a child slot ends with nodes that do not depend on the capacity, if sweeping the child
does. -/
lemma sweepSlot_endsWith {bound : Nat} {h : Handle} {n : Node} {f : Side → Tree Kind}
    (imp : Implements edit rule) (ih : SweepsAlike edit bound) (side : Side)
    (found : Store.node? ⟨nodes, c⟩ h = some n)
    (u : ∀ i, Store.Unfolds ⟨nodes, c⟩ (n.slot i) (f i)) (le : (f side).height ≤ bound) :
    ∃ nodes', (∀ capacity depth, (f side).height ≤ depth →
        (sweepSlot edit depth h side).EndsWith capacity nodes () nodes') ∧
      SlotSwept rule side n.kind f h ⟨nodes, nodes'.size⟩ ⟨nodes', nodes'.size⟩ := by
  suffices ends : ∃ nodes', ∀ capacity depth, (f side).height ≤ depth →
      (sweepSlot edit depth h side).EndsWith capacity nodes () nodes' by
    obtain ⟨nodes', ends⟩ := ends
    have swept : (sweepSlot edit _ h side).Ensures ⟨nodes, nodes'.size⟩ _ _ :=
      sweepSlot_evolves imp (sweepWithin_evolves imp (f side).height) side found
        (fun i => (u i).recap) le_rfl
    exact ⟨nodes', ends, swept.of_ok ((ends _ _ le_rfl).fits le_rfl)⟩
  cases e : n.slot side with
  | none =>
    refine ⟨nodes, fun capacity depth _ => .bind (.node found) ?_⟩
    rw [e]
    exact .pure
  | some child =>
    obtain ⟨r, nodes₁, ends⟩ := ih nodes c child (f side) (e ▸ u side) le
    -- The child does not lead back to the node, so the node is still there.
    have out : ¬ Store.Reaches ⟨nodes, nodes₁.size⟩ child h :=
      (Store.Unfolds.of_slots found fun i => (u i).recap).not_reaches
        (Store.child_iff.2 ⟨n, side, found, e⟩)
    have frame : (sweepWithin edit (f side).height child).Ensures ⟨nodes, nodes₁.size⟩ _ _ :=
      sweepWithin_frame imp.loc found out
    obtain ⟨-, found₁⟩ := frame.of_ok ((ends _ _ le_rfl).fits le_rfl)
    refine ⟨nodes₁.modify h.index (·.withSlot side (some r)), fun capacity depth deep => ?_⟩
    refine .bind (.node found) ?_
    rw [e]
    exact .bind (ends capacity depth deep) (.modifyNode found₁)

/-- Sweeping ends with nodes that depend neither on the capacity nor on the levels allowed for. -/
lemma sweepWithin_endsWith (imp : Implements edit rule) (blind : Blind edit) (bound : Nat) :
    SweepsAlike edit bound := by
  induction bound with
  | zero =>
    intro nodes c h t u le
    obtain ⟨n, l, r, _, _, _, rfl⟩ := u.inv
    simp only [Tree.height] at le
    omega
  | succ bound ih =>
    intro nodes c h t u le
    obtain ⟨n, l, r, found, ul, ur, rfl⟩ := u.inv
    simp only [Tree.height] at le ⊢
    have uf : ∀ i, Store.Unfolds ⟨nodes, c⟩ (n.slot i) (Side.pick l r i) := by
      intro i
      cases i with
      | left => exact ul
      | right => exact ur
    obtain ⟨nodes₁, ends₁, -, -, n₁, f₁, found₁, -, u₁, -, adv₁⟩ :=
      sweepSlot_endsWith imp ih .left found uf (by simp only [Side.pick]; omega)
    have lower : (f₁ .right).height ≤ r.height := (adv₁ .right).height_le imp.stable
    obtain ⟨nodes₂, ends₂, -, -, n₂, f₂, found₂, -, u₂, -, -⟩ :=
      sweepSlot_endsWith imp ih .right found₁ u₁ (by omega)
    obtain ⟨x, nodes₃, ends₃⟩ := (edit ⟨nodes₂, 0⟩ n₂).perform_endsWith found₂
    refine ⟨x, nodes₃, fun capacity depth deep => ?_⟩
    obtain ⟨depth, rfl⟩ : ∃ d, depth = d + 1 := ⟨depth - 1, by omega⟩
    rw [sweepWithin_succ]
    refine .bind (ends₁ capacity depth (by simp only [Side.pick]; omega)) ?_
    refine .bind (ends₂ capacity depth (by omega)) ?_
    refine .bind (.node found₂) (.get_bind ?_)
    rw [blind nodes₂ capacity 0]
    exact ends₃ capacity

/-- The outcome of a sweep does not depend on the capacity, as long as there is one. -/
theorem sweep_endsWith (imp : Implements edit rule) (blind : Blind edit) {h : Handle} {t : Tree Kind}
    (u : Store.Unfolds ⟨nodes, c⟩ (some h) t) :
    ∃ r nodes', Store.Unfolds ⟨nodes', c⟩ (some r) (t.sweep rule) ∧
      ∀ capacity, (sweep edit h).EndsWith capacity nodes r nodes' := by
  obtain ⟨r, nodes', ends⟩ := sweepWithin_endsWith imp blind t.height nodes c h t u le_rfl
  have all (capacity : Nat) : (sweep edit h).EndsWith capacity nodes r nodes' := by
    refine .get_bind (ends capacity _ ?_)
    have height : t.height ≤ nodes.size := u.height_le
    simp only [Store.bound, Store.size]
    omega
  have ample : Store.Unfolds ⟨nodes, nodes'.size⟩ (some h) t := u.recap
  obtain ⟨-, -, u'⟩ := (sweep_evolves imp ample).of_ok ((all _).fits le_rfl)
  exact ⟨r, nodes', u'.recap, all⟩

end ExprOpt
