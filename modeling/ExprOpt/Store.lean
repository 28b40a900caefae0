import ExprOpt.Error

/-!
# The store

An append-only table of nodes with a limit on their number. The kind of a node is fixed when it is
allocated; only its child slots are written afterwards. Child slots may hold handles that nothing
has been allocated for yet.
-/

namespace ExprOpt

/-- The number of nodes that a store accepts unless another is asked for. -/
def defaultCapacity : Nat := 1024

/-- A table of nodes, addressed by handle in the order of allocation. -/
structure Store where
  nodes : Array Node := #[]
  capacity : Nat := defaultCapacity
  deriving DecidableEq, Repr, Inhabited

namespace Store

/-- The number of allocated nodes. -/
def size (s : Store) : Nat := s.nodes.size

/-- The node at a handle. -/
@[inline]
def node? (s : Store) (h : Handle) : Option Node := s.nodes[h.index]?

/-- The node at a handle, or the complaint that there is none. -/
@[inline]
def node (s : Store) (h : Handle) : Except Error Node :=
  match s.node? h with
  | some n => .ok n
  | none => .error (.dangling h)

/-- Changes the node at a handle; without a node there nothing happens. -/
def modifyNode (s : Store) (h : Handle) (f : Node → Node) : Store :=
  { s with nodes := s.nodes.modify h.index f }

/-- Changing a node adds none. -/
@[simp] theorem size_modifyNode (s : Store) (h : Handle) (f : Node → Node) :
    (s.modifyNode h f).size = s.size := by
  simp [modifyNode, size]

/-- A changed node is the result of the change, and every other node is what it was. -/
theorem node?_modifyNode (s : Store) (h g : Handle) (f : Node → Node) :
    (s.modifyNode h f).node? g = if h = g then (s.node? g).map f else s.node? g := by
  obtain ⟨i⟩ := h
  obtain ⟨j⟩ := g
  simp only [modifyNode, node?, Array.getElem?_modify, Handle.mk.injEq]

/-- The number of nodes that no path without a cycle exceeds, now or after further allocations. -/
def bound (s : Store) : Nat := max s.capacity s.size

end Store

/-- Computations that allocate nodes and write child slots. What was written before a failure
stays. -/
abbrev Build := EStateM Error Store

namespace Build

/-- Appends a node. -/
def alloc (n : Node) : Build Handle := do
  let s ← get
  if s.size < s.capacity then
    let h : Handle := ⟨s.size⟩
    set { s with nodes := s.nodes.push n }
    return h
  else
    throw (.outOfNodes s.capacity)

/-- Allocation appends to a store that has room, and leaves a full one alone. -/
theorem run_alloc (n : Node) (s : Store) :
    (alloc n).run s =
      if s.size < s.capacity then .ok ⟨s.size⟩ { s with nodes := s.nodes.push n }
      else .error (.outOfNodes s.capacity) s := by
  rw [alloc, EStateM.run_bind, EStateM.run_get]
  dsimp only
  split <;> rfl

/-- The outcome of a computation that reads the store and may fail. -/
def inspect {α : Type} (read : Store → Except Error α) : Build α := do
  match read (← get) with
  | .ok a => return a
  | .error e => throw e

/-- Reading leaves the store alone. -/
theorem run_inspect {α : Type} (read : Store → Except Error α) (s : Store) :
    (inspect read).run s =
      match read s with
      | .ok a => .ok a s
      | .error e => .error e s := by
  rw [inspect, EStateM.run_bind, EStateM.run_get]
  dsimp only
  cases read s <;> rfl

/-- The node at a handle. -/
def node (h : Handle) : Build Node := inspect (·.node h)

/-- Following a handle succeeds where there is a node. -/
theorem run_node (h : Handle) (s : Store) :
    (node h).run s =
      match s.node? h with
      | some n => .ok n s
      | none => .error (.dangling h) s := by
  rw [node, run_inspect, Store.node]
  cases s.node? h <;> rfl

/-- Changes the node at a handle. -/
def modifyNode (h : Handle) (f : Node → Node) : Build Unit := do
  let _ ← node h
  modify (·.modifyNode h f)

/-- A node is changed where there is one. -/
theorem run_modifyNode (h : Handle) (f : Node → Node) (s : Store) :
    (modifyNode h f).run s =
      match s.node? h with
      | some _ => .ok () (s.modifyNode h f)
      | none => .error (.dangling h) s := by
  rw [modifyNode, EStateM.run_bind, run_node]
  cases s.node? h <;> rfl

/-- Writes the left child slot. -/
def setLeft (h : Handle) (child : Option Handle) : Build Unit :=
  modifyNode h ({ · with left := child })

/-- Writes the right child slot. -/
def setRight (h : Handle) (child : Option Handle) : Build Unit :=
  modifyNode h ({ · with right := child })

end Build

end ExprOpt
