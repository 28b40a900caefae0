import ExprOpt.Proofs.Sweeping.Confinement

/-!
# Adding to a store

A computation that only allocates leaves all nodes alone and adds new ones while there is room
(`Store.Appends`). If moreover every new node has the children that its kind asks for, and has them
among the nodes before it (`Store.Stacks`), then a store without cycles and dangling handles stays one,
because a walk into the old nodes is as long as it was and a walk through new ones goes down.

The number of nodes that a computation allocates may be known beforehand (`Build.Takes`). Then it fails
exactly if there is not enough room, and it fills the store up before it does.
-/

namespace ExprOpt

/-- Whether a node of this kind may have the given children. A leaf has none, and an operator has both
unless it is a negation. -/
def Kind.admits (k : Kind) (left right : Bool) : Bool :=
  match k with
  | .op o => left && (right || o = .sub)
  | .const _ => !left && !right
  | .var _ => !left && !right

/-- The node has the children that its kind asks for. -/
def Node.WellFormed (n : Node) : Prop := n.kind.admits n.left.isSome n.right.isSome

instance (n : Node) : Decidable n.WellFormed := inferInstanceAs (Decidable (_ = true))

/-- All children of the node stand below an index. -/
def Node.Tops (n : Node) (i : Nat) : Prop := ∀ side c, n.slot side = some c → c.index < i

namespace Node

/-- A constant has no children. -/
lemma wellFormed_const (v : Int64) : (const v).WellFormed := rfl

/-- A variable has no children. -/
lemma wellFormed_var (x : Char) : (var x).WellFormed := rfl

/-- A binary node has both of its children. -/
lemma wellFormed_binary (op : Op) (l r : Handle) : (binary op l r).WellFormed := rfl

/-- A negation is a subtraction with a left child alone, which is admitted. -/
lemma wellFormed_negation (h : Handle) : (negation h).WellFormed := rfl

/-- A constant stands above nothing, so it can stand anywhere. -/
lemma tops_const (v : Int64) (i : Nat) : (const v).Tops i := by
  intro side c e
  cases side <;> cases e

/-- A variable stands above nothing, so it can stand anywhere. -/
lemma tops_var (x : Char) (i : Nat) : (var x).Tops i := by
  intro side c e
  cases side <;> cases e

/-- A binary node can stand behind both of its operands. -/
lemma tops_binary {op : Op} {l r : Handle} {i : Nat} (left : l.index < i) (right : r.index < i) :
    (binary op l r).Tops i := by
  intro side c e
  cases side with
  | left =>
    cases e
    exact left
  | right =>
    cases e
    exact right

/-- A negation can stand behind its operand. -/
lemma tops_negation {h : Handle} {i : Nat} (lt : h.index < i) : (negation h).Tops i := by
  intro side c e
  cases side with
  | left =>
    cases e
    exact lt
  | right => cases e

/-- Which children a node may have depends on its kind, not on where they are. -/
lemma WellFormed.congr {n n' : Node} (w : n.WellFormed) (kind : n'.kind = n.kind)
    (slots : ∀ side, (n'.slot side).isSome = (n.slot side).isSome) : n'.WellFormed := by
  have left : n'.left.isSome = n.left.isSome := slots .left
  have right : n'.right.isSome = n.right.isSome := slots .right
  rw [WellFormed, kind, left, right]
  exact w

end Node

namespace Store

/-- All nodes are well-formed. -/
def WellFormed (s : Store) : Prop := ∀ g n, s.node? g = some n → n.WellFormed

/-- Whether all nodes are well-formed can be decided by going through them. -/
instance (s : Store) : Decidable s.WellFormed :=
  decidable_of_iff (∀ n ∈ s.nodes, n.WellFormed) <| by
    constructor
    · exact fun all g n found => all n (Array.mem_of_getElem? found)
    · intro fine n mem
      obtain ⟨i, there⟩ := Array.getElem?_of_mem mem
      exact fine ⟨i⟩ n there

/-- The number of nodes that there is room for. -/
def free (s : Store) : Nat := s.capacity - s.size

/-- The store with more nodes. -/
def append (s : Store) (new : Array Node) : Store := { s with nodes := s.nodes ++ new }

/-- All nodes from `base` on are well-formed. -/
def WellFormedFrom (s : Store) (base : Nat) : Prop :=
  ∀ g n, base ≤ g.index → s.node? g = some n → n.WellFormed

/-- The capacity is the same, and there are no fewer nodes, nor more than there is room for. -/
structure Widens (s s' : Store) : Prop where
  capacity : s'.capacity = s.capacity
  size_ge : s.size ≤ s'.size
  size_le : s'.size ≤ s.bound

/-- Nodes were appended, as long as there was room. -/
structure Appends (s s' : Store) : Prop extends s.Widens s' where
  nodes : ∃ new, s'.nodes = s.nodes ++ new

/-- Nodes were appended that are well-formed and whose children stand before them. -/
structure Stacks (s s' : Store) : Prop extends s.Appends s' where
  wellFormed : s'.WellFormedFrom s.size
  before : ∀ g n, s.size ≤ g.index → s'.node? g = some n → n.Tops g.index

variable {s s' s'' : Store}

/-- The new nodes are counted behind the old ones. -/
@[simp] lemma size_append (s : Store) (new : Array Node) : (s.append new).size = s.size + new.size := by
  simp [append, size]

/-- Nodes may be appended at once or one part after the other. -/
lemma append_append (s : Store) (new new' : Array Node) :
    (s.append new).append new' = s.append (new ++ new') := by
  simp [append, Array.append_assoc]

/-- Every new node takes up room. -/
lemma free_append (s : Store) (new : Array Node) : (s.append new).free = s.free - new.size := by
  rw [free, free, size_append]
  show s.capacity - (s.size + new.size) = _
  exact Nat.sub_add_eq _ _ _

namespace WellFormedFrom

/-- There is no node yet from the size of the store on. -/
lemma base : s.WellFormedFrom s.size := by
  intro g n le found
  exact absurd (index_lt_of_node? found) (by omega)

/-- A well-formed node can be added at the end. -/
lemma push {base : Nat} {n : Node} (fine : s.WellFormedFrom base) (w : n.WellFormed) :
    (s.push n).WellFormedFrom base := by
  intro g m le found
  rw [node?_push] at found
  split at found
  · cases found
    exact w
  · exact fine g m le found

end WellFormedFrom

namespace Widens

/-- A store that is left alone has grown by nothing. -/
lemma refl : s.Widens s := ⟨rfl, le_rfl, Nat.le_max_right _ _⟩

/-- One growth may follow another. -/
lemma trans (a : s.Widens s') (b : s'.Widens s'') : s.Widens s'' where
  capacity := b.capacity.trans a.capacity
  size_ge := a.size_ge.trans b.size_ge
  size_le := by
    have first := a.size_le
    have second := b.size_le
    simp only [bound, a.capacity] at first second ⊢
    omega

/-- Where there is room for a node, the store grows within its capacity. -/
lemma push {n : Node} (room : s.size < s.capacity) : s.Widens (s.push n) where
  capacity := rfl
  size_ge := by
    rw [size_push]
    exact Nat.le_succ _
  size_le := by
    simp only [size_push, bound]
    omega

/-- A change of a node is no growth at all. -/
lemma modifyNode (h : Handle) (f : Node → Node) : s.Widens (s.modifyNode h f) where
  capacity := rfl
  size_ge := (size_modifyNode s h f).ge
  size_le := by
    rw [size_modifyNode]
    exact Nat.le_max_right _ _

end Widens

namespace Appends

/-- Appending nothing leaves the store as it is. -/
lemma refl : s.Appends s := ⟨.refl, #[], by simp⟩

/-- What is appended in two steps has been appended. -/
lemma trans (a : s.Appends s') (b : s'.Appends s'') : s.Appends s'' where
  toWidens := a.toWidens.trans b.toWidens
  nodes := by
    obtain ⟨new, e⟩ := a.nodes
    obtain ⟨new', e'⟩ := b.nodes
    exact ⟨new ++ new', by rw [e', e, Array.append_assoc]⟩

/-- A node is appended where there is room for it. -/
lemma push {n : Node} (room : s.size < s.capacity) : s.Appends (s.push n) :=
  ⟨.push room, #[n], by simp [Store.push]⟩

/-- Appended nodes change none of those that are there. -/
lemma extend (a : s.Appends s') : s.Extends s' := by
  intro g n found
  obtain ⟨new, e⟩ := a.nodes
  have lt : g.index < s.nodes.size := index_lt_of_node? found
  show s'.nodes[g.index]? = some n
  rw [e, Array.getElem?_append_left lt]
  exact found

/-- The capacity stays, so the nodes determine the store. -/
lemma eq_of_nodes {nodes : Array Node} (a : s.Appends s') (e : s'.nodes = nodes) :
    s' = { s with nodes } := by
  cases s'
  cases a.capacity
  cases e
  rfl

/-- Any nodes that fit can be appended. -/
lemma append {new : Array Node} (fits : new.size ≤ s.free) : s.Appends (s.append new) where
  capacity := rfl
  size_ge := by
    rw [size_append]
    exact Nat.le_add_right _ _
  size_le := by
    simp only [size_append, free, bound] at fits ⊢
    omega
  nodes := ⟨new, rfl⟩

/-- Nothing can be appended to a full store. -/
lemma eq_of_full (a : s.Appends s') (full : s.capacity ≤ s.size) : s' = s := by
  obtain ⟨new, e⟩ := a.nodes
  have le := a.size_le
  have empty : new = #[] := by
    apply Array.eq_empty_of_size_eq_zero
    simp only [size, bound, e, Array.size_append] at le full
    omega
  exact a.eq_of_nodes (by rw [e, empty, Array.append_empty])

end Appends

namespace Stacks

/-- A store that is left alone has nothing new on top. -/
lemma refl : s.Stacks s where
  toAppends := .refl
  wellFormed := .base
  before g n le found := absurd (index_lt_of_node? found) (by omega)

/-- What is stacked on top may itself be built upon. -/
lemma trans (a : s.Stacks s') (b : s'.Stacks s'') : s.Stacks s'' := by
  -- A node of the last store was appended last or is already in the middle one.
  have middle : ∀ g n, s''.node? g = some n → s'.size ≤ g.index ∨ s'.node? g = some n := by
    intro g n found
    rcases Nat.lt_or_ge g.index s'.size with lt | ge
    · obtain ⟨m, found'⟩ := exists_node? lt
      cases Option.some.inj (found.symm.trans (b.extend g m found'))
      exact .inr found'
    · exact .inl ge
  constructor
  · exact a.toAppends.trans b.toAppends
  · intro g n le found
    rcases middle g n found with ge | found'
    · exact b.wellFormed g n ge found
    · exact a.wellFormed g n le found'
  · intro g n le found
    rcases middle g n found with ge | found'
    · exact b.before g n ge found
    · exact a.before g n le found'

/-- A well-formed node above older ones is stacked on top of them. -/
lemma push {n : Node} (room : s.size < s.capacity) (w : n.WellFormed) (tops : n.Tops s.size) :
    s.Stacks (s.push n) := by
  -- There is only one new node.
  have new : ∀ g m, s.size ≤ g.index → (s.push n).node? g = some m → g.index = s.size ∧ m = n := by
    intro g m le found
    have lt := index_lt_of_node? found
    rw [size_push] at lt
    have last : g.index = s.size := by omega
    rw [node?_push, if_pos last] at found
    exact ⟨last, (Option.some.inj found).symm⟩
  constructor
  · exact .push room
  · exact WellFormedFrom.base.push w
  · intro g m le found
    obtain ⟨last, rfl⟩ := new g m le found
    rw [last]
    exact tops

/-- Stacking up well-formed nodes keeps a store well-formed. -/
lemma keeps_wellFormed (st : s.Stacks s') (w : s.WellFormed) : s'.WellFormed := by
  intro g n found
  rcases Nat.lt_or_ge g.index s.size with lt | ge
  · obtain ⟨m, found'⟩ := exists_node? lt
    cases Option.some.inj (found.symm.trans (st.extend g m found'))
    exact w g n found'
  · exact st.wellFormed g n ge found

/-- Stacking up nodes makes no cycle and leaves nothing dangling. -/
lemma keeps_grounded (st : s.Stacks s') (ground : s.Grounded) : s'.Grounded := by
  suffices all : ∀ i, ∀ h : Handle, h.index = i → h.index < s'.size → ∃ t, s'.Unfolds (some h) t from
    fun h lt => all h.index h rfl lt
  intro i
  induction i using Nat.strong_induction_on with
  | _ i ih =>
    intro h e lt
    rcases Nat.lt_or_ge h.index s.size with old | new
    · obtain ⟨t, u⟩ := ground h old
      exact ⟨t, u.extend st.extend⟩
    · obtain ⟨n, found⟩ := exists_node? lt
      have slot : ∀ side, ∃ t, s'.Unfolds (n.slot side) t := by
        intro side
        cases child : n.slot side with
        | none => exact ⟨.nil, .nil⟩
        | some c =>
          have lower := st.before h n new found side c child
          exact ih c.index (by omega) c rfl (by omega)
      obtain ⟨l, ul⟩ := slot .left
      obtain ⟨r, ur⟩ := slot .right
      exact ⟨_, .node found ul ur⟩

end Stacks

end Store

namespace Build

variable {α β : Type} {s : Store}

/-- The computation only appends, whether it succeeds or fails. -/
def Appending (b : Build α) : Prop :=
  ∀ s, b.Ensures s (fun _ s' => s.Appends s') (fun _ s' => s.Appends s')

namespace Appending

/-- A computation that does nothing appends nothing. -/
lemma pure (a : α) : (pure a : Build α).Appending := fun _ => .pure .refl

/-- Reading the store appends nothing, whether it succeeds or not. -/
lemma inspect (read : Store → Except Error α) : (inspect read).Appending :=
  fun _ => .inspect (fun _ _ => .refl) fun _ _ => .refl

/-- Allocation appends one node, or none if the store is full. -/
lemma alloc (n : Node) : (alloc n).Appending :=
  fun _ => .alloc (fun room => .push room) fun _ => .refl

/-- A sequence appends what its parts append. -/
lemma bind {b : Build α} {f : α → Build β} (first : b.Appending) (second : ∀ a, (f a).Appending) :
    (b >>= f).Appending :=
  fun s => (first s).bind fun a s' appends =>
    (second a s').weaken (fun _ _ => appends.trans) (fun _ _ => appends.trans)

/-- Using the result in another way appends nothing more. -/
lemma map {b : Build α} (f : α → β) (first : b.Appending) : (f <$> b).Appending :=
  fun s => .map (R := fun _ s' => s.Appends s') (first s)

end Appending

/-- The computation appends so many nodes if there is room for them. Otherwise it fails, after it has
appended as many as there is room for. -/
def Takes (b : Build α) (s : Store) (count : Nat) : Prop :=
  b.Ensures s
    (fun _ s' => count ≤ s.free ∧ ∃ new : Array Node, new.size = count ∧ s' = s.append new)
    (fun e s' => s.free < count ∧ e = .outOfNodes s.capacity ∧
      ∃ new : Array Node, new.size = s.free ∧ s' = s.append new)

namespace Takes

variable {b : Build α} {m k : Nat}

/-- A computation that does nothing takes no node. -/
lemma pure {a : α} : (pure a : Build α).Takes s 0 :=
  Ensures.pure ⟨Nat.zero_le _, #[], rfl, by simp [Store.append]⟩

/-- Allocation takes one node. -/
lemma alloc (n : Node) : (alloc n).Takes s 1 := by
  refine Ensures.alloc (fun room => ⟨Nat.sub_pos_of_lt room, #[n], rfl, ?_⟩) fun full => ?_
  · simp [Store.push, Store.append]
  · have none : s.free = 0 := Nat.sub_eq_zero_of_le full
    exact ⟨by rw [none]; exact Nat.one_pos, rfl, #[], none.symm, by simp [Store.append]⟩

/-- The nodes of two computations add up. -/
lemma bind {f : α → Build β} (first : b.Takes s m)
    (second : ∀ a new, (f a).Takes (s.append new) k) : (b >>= f).Takes s (m + k) := by
  refine Ensures.bind (first.weaken (fun _ _ => id) ?_) ?_
  · intro e s' ⟨short, failed⟩
    exact ⟨short.trans_le (Nat.le_add_right _ _), failed⟩
  · intro a s' ⟨room, new, count, same⟩
    subst same
    refine (second a new).weaken ?_ ?_
    · intro c s' ⟨room', new', count', same⟩
      rw [Store.free_append, count] at room'
      refine ⟨by omega, new ++ new', ?_, ?_⟩
      · rw [Array.size_append, count, count']
      · rw [same, Store.append_append]
    · intro e s' ⟨short, full, new', count', same⟩
      rw [Store.free_append, count] at short count'
      refine ⟨by omega, full, new ++ new', ?_, ?_⟩
      · rw [Array.size_append, count, count', Nat.add_sub_cancel' room]
      · rw [same, Store.append_append]

/-- Using the result in another way takes no more nodes. -/
lemma map {f : α → β} (takes : b.Takes s m) : (f <$> b).Takes s m := Ensures.map takes

/-- There is nothing else in the way of success but room. -/
lemma exists_ok (takes : b.Takes s m) (room : m ≤ s.free) :
    ∃ a new, b.run s = .ok a (s.append new) ∧ new.size = m := by
  rw [Takes, Ensures] at takes
  cases ran : b.run s with
  | ok a s' =>
    rw [ran] at takes
    obtain ⟨-, new, count, rfl⟩ := takes
    exact ⟨a, new, rfl, count⟩
  | error e s' =>
    rw [ran] at takes
    exact absurd room takes.1.not_ge

/-- Where there is not enough room the computation fails, and the store is full then. -/
lemma exists_error (takes : b.Takes s m) (short : s.free < m) :
    ∃ new, b.run s = .error (.outOfNodes s.capacity) (s.append new) ∧ new.size = s.free := by
  rw [Takes, Ensures] at takes
  cases ran : b.run s with
  | ok a s' =>
    rw [ran] at takes
    exact absurd short takes.1.not_gt
  | error e s' =>
    rw [ran] at takes
    obtain ⟨-, rfl, new, count, rfl⟩ := takes
    exact ⟨new, rfl, count⟩

end Takes

/-- A computation whose nodes can be counted beforehand only appends. -/
lemma Appending.of_takes {b : Build α} {m : Nat} (takes : ∀ s, b.Takes s m) : b.Appending := by
  intro s
  refine (takes s).weaken ?_ ?_
  · intro a s' ⟨room, new, count, same⟩
    rw [same]
    exact .append (count.trans_le room)
  · intro e s' ⟨_, _, new, count, same⟩
    rw [same]
    exact .append count.le

/-- An allocation above nodes that are there stacks up. -/
lemma alloc_stacks {n : Node} (w : n.WellFormed) (tops : n.Tops s.size) :
    (alloc n).Ensures s (fun h s' => s.Stacks s' ∧ h.index < s'.size)
      (fun e s' => s.Stacks s' ∧ e = .outOfNodes s.capacity) := by
  refine .alloc (fun room => ⟨.push room w tops, ?_⟩) fun _ => ⟨.refl, rfl⟩
  rw [Store.size_push]
  exact Nat.lt_succ_self _

/-- A failure of what goes on from a stack is one of the whole. -/
lemma Ensures.from_stack {b : Build α} {s' : Store} {Q : α → Store → Prop} (below : s.Stacks s')
    (en : b.Ensures s' Q (fun e s'' => s'.Stacks s'' ∧ e = .outOfNodes s'.capacity)) :
    b.Ensures s' Q (fun e s'' => s.Stacks s'' ∧ e = .outOfNodes s.capacity) := by
  refine en.weaken (fun _ _ => id) fun e s'' post => ?_
  exact ⟨below.trans post.1, below.capacity ▸ post.2⟩

end Build

end ExprOpt
