import ExprOpt.Sweep
import ExprOpt.Proofs.Building

/-!
# What a sweep can touch

A sweep never leaves a region of the store that is closed under going to a child and to new nodes
(`sweepWithin_confined`). The smallest such region around a handle consists of what can be reached
from it, so the nodes out of its reach stay what they were (`sweepWithin_frame`).
-/

namespace ExprOpt

/-- The two child slots of a node. -/
inductive Side where
  | left
  | right
  deriving DecidableEq

/-- The one of two things that belongs to a side. -/
def Side.pick {α : Type} (l r : α) : Side → α
  | .left => l
  | .right => r

namespace Node

/-- What a child slot holds. -/
def slot (n : Node) : Side → Option Handle
  | .left => n.left
  | .right => n.right

/-- The node with a child slot overwritten. -/
def withSlot (n : Node) (side : Side) (child : Option Handle) : Node :=
  match side with
  | .left => { n with left := child }
  | .right => { n with right := child }

/-- Setting a slot keeps the kind of the node. -/
@[simp] lemma kind_withSlot {n : Node} {side child} : (n.withSlot side child).kind = n.kind := by
  cases side <;> rfl

/-- An overwritten slot holds what was written. -/
@[simp] lemma slot_withSlot_self {n : Node} {side child} :
    (n.withSlot side child).slot side = child := by
  cases side <;> rfl

/-- The other slot holds what it held. -/
lemma slot_withSlot_of_ne {n : Node} {side side' child} (ne : side' ≠ side) :
    (n.withSlot side child).slot side' = n.slot side' := by
  cases side <;> cases side' <;> first | rfl | exact absurd rfl ne

end Node

/-- The part of a sweep that deals with one child slot. -/
def sweepSlot (edit : Store → Node → Edit) (depth : Nat) (h : Handle) (side : Side) : Build Unit := do
  forChild ((← Build.node h).slot side) fun c => do
    let c' ← sweepWithin edit depth c
    Build.modifyNode h (·.withSlot side c')

/-- A sweep deals with the left child, then with the right one, then with the node itself. -/
lemma sweepWithin_succ (edit : Store → Node → Edit) (depth : Nat) (h : Handle) :
    sweepWithin edit (depth + 1) h = (do
      sweepSlot edit depth h .left
      sweepSlot edit depth h .right
      let n ← Build.node h
      (edit (← get) n).perform h) := by
  simp only [sweepWithin, sweepSlot, bind_assoc]
  rfl

namespace Store

/-- A child stands in one of the two slots. -/
lemma child_iff {s : Store} {h c} :
    s.Child h c ↔ ∃ n side, s.node? h = some n ∧ n.slot side = some c := by
  constructor
  · rintro ⟨n, found, e | e⟩
    · exact ⟨n, .left, found, e⟩
    · exact ⟨n, .right, found, e⟩
  · rintro ⟨n, side, found, e⟩
    cases side with
    | left => exact ⟨n, found, .inl e⟩
    | right => exact ⟨n, found, .inr e⟩

/-- A set of handles that is closed under going to a child and holds every handle that is still to be
allocated. -/
structure Region (P : Handle → Prop) (s : Store) : Prop where
  child : ∀ g c, P g → s.Child g c → P c
  fresh : ∀ g, s.size ≤ g.index → P g

/-- One store came out of another by appending nodes and by writing child slots of nodes in `P`. -/
structure Confined (P : Handle → Prop) (s s' : Store) : Prop where
  capacity : s'.capacity = s.capacity
  size_le : s.size ≤ s'.size
  kind : ∀ g n, s.node? g = some n → ∃ n', s'.node? g = some n' ∧ n'.kind = n.kind
  outside : ∀ g, ¬ P g → s'.node? g = s.node? g
  region : s'.Region P

/-- The child in a slot of a node in the region is in the region. -/
lemma Region.slot {P : Handle → Prop} {s : Store} {h n c} (rg : s.Region P) (side : Side)
    (mem : P h) (found : s.node? h = some n) (e : n.slot side = some c) : P c :=
  rg.child h c mem (child_iff.2 ⟨n, side, found, e⟩)

/-- Nothing has been written yet. -/
lemma Confined.refl {P : Handle → Prop} {s : Store} (rg : s.Region P) : s.Confined P s where
  capacity := rfl
  size_le := le_rfl
  kind _ n found := ⟨n, found, rfl⟩
  outside _ _ := rfl
  region := rg

/-- What is written in two steps is confined if both steps are. -/
lemma Confined.trans {P : Handle → Prop} {s s' s'' : Store} (c : s.Confined P s')
    (c' : s'.Confined P s'') : s.Confined P s'' where
  capacity := c'.capacity.trans c.capacity
  size_le := c.size_le.trans c'.size_le
  kind g n found := by
    obtain ⟨n', found', e⟩ := c.kind g n found
    obtain ⟨n'', found'', e'⟩ := c'.kind g n' found'
    exact ⟨n'', found'', e'.trans e⟩
  outside g out := (c'.outside g out).trans (c.outside g out)
  region := c'.region

/-- A write that keeps the kind of a node in the region and fills its slots from the region. -/
lemma Confined.write {P : Handle → Prop} {s : Store} {h f} (rg : s.Region P) (mem : P h)
    (kind : ∀ n, (f n).kind = n.kind)
    (slots : ∀ n side c, s.node? h = some n → (f n).slot side = some c → P c) :
    s.Confined P (s.modifyNode h f) where
  capacity := rfl
  size_le := (size_modifyNode s h f).ge
  kind g n found := by
    by_cases e : h = g
    · exact ⟨f n, by rw [node?_modifyNode, if_pos e, found]; rfl, kind n⟩
    · exact ⟨n, by rw [node?_modifyNode, if_neg e, found], rfl⟩
  outside g out := by
    rw [node?_modifyNode, if_neg]
    rintro rfl
    exact out mem
  region := {
    child := by
      intro g c pg ch
      obtain ⟨n, side, found, e⟩ := child_iff.1 ch
      rw [node?_modifyNode] at found
      by_cases eq : h = g
      · rw [if_pos eq] at found
        obtain ⟨n₀, found₀, rfl⟩ := Option.map_eq_some_iff.1 found
        exact slots n₀ side c (eq ▸ found₀) e
      · rw [if_neg eq] at found
        exact rg.slot side pg found e
    fresh := by
      intro g le
      rw [size_modifyNode] at le
      exact rg.fresh g le }

/-- An allocation whose children are in the region. -/
lemma Confined.push {P : Handle → Prop} {s : Store} {n} (rg : s.Region P)
    (slots : ∀ side c, n.slot side = some c → P c) : s.Confined P (s.push n) where
  capacity := rfl
  size_le := by rw [size_push]; omega
  kind g m found := ⟨m, extends_push g m found, rfl⟩
  outside g out := by
    rw [node?_push, if_neg]
    intro e
    exact out (rg.fresh g e.ge)
  region := {
    child := by
      intro g c pg ch
      obtain ⟨m, side, found, e⟩ := child_iff.1 ch
      rw [node?_push] at found
      by_cases eq : g.index = s.size
      · rw [if_pos eq] at found
        cases found
        exact slots side c e
      · rw [if_neg eq] at found
        exact rg.slot side pg found e
    fresh := by
      intro g le
      rw [size_push] at le
      exact rg.fresh g (by omega) }

/-- What can be reached from a handle is a region, together with all that is not allocated yet. -/
lemma region_reaches (s : Store) (h : Handle) :
    s.Region fun g => s.Reaches h g ∨ s.size ≤ g.index where
  child := by
    intro g c mem ch
    rcases mem with path | le
    · exact .inl (path.tail ch)
    · obtain ⟨n, found, _⟩ := ch
      have := index_lt_of_node? found
      omega
  fresh g le := .inr le

end Store

/-- An edit that brings only handles of `P` into play. -/
def Edit.Within (P : Handle → Prop) : Edit → Prop
  | .keep => True
  | .swap => True
  | .reuse h => P h
  | .replace n => ∀ side c, n.slot side = some c → P c

/-- A choice of edits that never brings in a handle from outside a region. -/
def Local (edit : Store → Node → Edit) : Prop :=
  ∀ (P : Handle → Prop) (s : Store) (n : Node), s.Region P →
    (∀ side c, n.slot side = some c → P c) → (edit s n).Within P

variable {edit : Store → Node → Edit} {P : Handle → Prop}

/-- An edit stays in the region. -/
lemma Edit.perform_confined {s : Store} {h n} {ed : Edit} (rg : s.Region P) (mem : P h)
    (found : s.node? h = some n) (within : ed.Within P) :
    (ed.perform h).Ensures s (fun r s' => s.Confined P s' ∧ P r) (fun _ s' => s.Confined P s') := by
  cases ed with
  | keep => exact .pure ⟨.refl rg, mem⟩
  | reuse c => exact .pure ⟨.refl rg, within⟩
  | replace m =>
    refine .alloc (fun _ => ⟨.push rg within, ?_⟩) (fun _ => .refl rg)
    exact rg.fresh _ le_rfl
  | swap =>
    refine .bind (.modifyNode (Q := fun _ s' => s.Confined P s') found ?_) ?_
    · refine .write rg mem (fun _ => rfl) ?_
      intro m side c found' e
      cases side with
      | left => exact rg.slot .right mem found' e
      | right => exact rg.slot .left mem found' e
    · intro _ s' conf
      exact .pure ⟨conf, mem⟩

/-- Dealing with a child slot stays in the region if sweeping the child does. -/
lemma sweepSlot_confined {s : Store} {depth h} (side : Side) (rg : s.Region P) (mem : P h)
    (ih : ∀ c s, s.Region P → P c → (sweepWithin edit depth c).Ensures s
      (fun r s' => s.Confined P s' ∧ P r) (fun _ s' => s.Confined P s')) :
    (sweepSlot edit depth h side).Ensures s (fun _ s' => s.Confined P s')
      (fun _ s' => s.Confined P s') := by
  refine .bind (.node (Q := fun n s' => s' = s ∧ s.node? h = some n) ?_ ?_) ?_
  · exact fun n found => ⟨rfl, found⟩
  · exact fun _ => .refl rg
  rintro n _ ⟨rfl, found⟩
  cases e : n.slot side with
  | none => exact .pure (.refl rg)
  | some c =>
    refine .bind (ih c _ rg (rg.slot side mem found e)) ?_
    rintro c' s₁ ⟨conf, mem'⟩
    obtain ⟨n₁, found₁, _⟩ := conf.kind h n found
    refine .modifyNode found₁ (conf.trans (.write conf.region mem (fun _ => Node.kind_withSlot) ?_))
    intro m side' d found' e'
    by_cases eq : side' = side
    · subst eq
      rw [Node.slot_withSlot_self] at e'
      cases e'
      exact mem'
    · rw [Node.slot_withSlot_of_ne eq] at e'
      exact conf.region.slot side' mem found' e'

/-- A sweep never leaves a region, whether it succeeds or fails. -/
lemma sweepWithin_confined (loc : Local edit) (depth : Nat) :
    ∀ h s, s.Region P → P h → (sweepWithin edit depth h).Ensures s
      (fun r s' => s.Confined P s' ∧ P r) (fun _ s' => s.Confined P s') := by
  induction depth with
  | zero => exact fun _ _ rg _ => Store.Confined.refl rg
  | succ depth ih =>
    intro h s rg mem
    rw [sweepWithin_succ]
    refine .bind (sweepSlot_confined .left rg mem ih) ?_
    intro _ s₁ conf₁
    refine .bind ((sweepSlot_confined .right conf₁.region mem ih).weaken
      (fun _ _ => conf₁.trans) (fun _ _ => conf₁.trans)) ?_
    intro _ s₂ conf₂
    refine .bind (.node (Q := fun n s' => s' = s₂ ∧ s₂.node? h = some n) ?_ ?_) ?_
    · exact fun n found => ⟨rfl, found⟩
    · exact fun _ => conf₂
    rintro n s₂ ⟨rfl, found⟩
    refine .get_bind ?_
    have within := loc P _ n conf₂.region fun side c e => conf₂.region.slot side mem found e
    refine (Edit.perform_confined conf₂.region mem found within).weaken ?_ ?_
    · exact fun r s' post => ⟨conf₂.trans post.1, post.2⟩
    · exact fun e s' post => conf₂.trans post

/-- A sweep writes no node that cannot be reached from where it starts. -/
lemma sweepWithin_frame (loc : Local edit) {s : Store} {depth h g n} (found : s.node? g = some n)
    (out : ¬ s.Reaches h g) :
    (sweepWithin edit depth h).Ensures s
      (fun _ s' => s'.capacity = s.capacity ∧ s'.node? g = some n)
      (fun _ s' => s'.capacity = s.capacity ∧ s'.node? g = some n) := by
  have apart : ¬ (s.Reaches h g ∨ s.size ≤ g.index) := by
    rintro (path | le)
    · exact out path
    · exact absurd (Store.index_lt_of_node? found) (by omega)
  refine (sweepWithin_confined loc depth h s (s.region_reaches h) (.inl .refl)).weaken ?_ ?_
  · exact fun _ s' post => ⟨post.1.capacity, (post.1.outside g apart).trans found⟩
  · exact fun _ s' post => ⟨post.capacity, (post.outside g apart).trans found⟩

end ExprOpt
