import ExprOpt.Grammar.Parsing
import ExprOpt.Proofs.Grammar.Composition

/-!
# Reading into a store that runs full

The same text is read into two stores that hold the same nodes, of which one may hold more than the
other. As long as the smaller one takes every node, both readings do the same. When it refuses a node,
the readings part: the refusal fails the rule that handed the node over, and alternatives are tried that
the other reading never comes to. But from then on the smaller store is full and stays what it is, and
the larger one only grows, so that what the smaller one holds is the beginning of what the larger one
holds (`Lockstep`).
-/

namespace ExprOpt.Grammar

variable {α β : Type}

/-- Nodes have been appended, and a refusal is not taken back. -/
structure Notes.Grows (notes notes' : Notes Store) : Prop where
  appends : notes.nodes.Appends notes'.nodes
  refused : notes.refused = true → notes'.refused = true

/-- The same notes, but for a larger capacity. -/
def Notes.Roomier (a b : Notes Store) : Prop :=
  ∃ capacity, a.nodes.capacity ≤ capacity ∧ b = { a with nodes := { a.nodes with capacity } }

/-- The first store has refused a node, and what it holds is the beginning of the second one. -/
structure Notes.Behind (a b : Notes Store) : Prop where
  refused : a.refused = true
  full : a.nodes.capacity ≤ a.nodes.size
  nodes : ∃ more, b.nodes.nodes = a.nodes.nodes ++ more

/-- The outcomes of two readings that differ in nothing but capacity, until the first one runs full. -/
inductive Lockstep : Option (α × Cursor) × Notes Store → Option (α × Cursor) × Notes Store → Prop where
  | together {result a b} :
    a.Roomier b →
    Lockstep (result, a) (result, b)
  | apart {result result' a b} :
    a.Behind b →
    Lockstep (result, a) (result', b)

/-- The rule only appends nodes. -/
def Rule.Grows (r : Rule Store α) : Prop :=
  ∀ (cursor : Cursor) (notes : Notes Store), notes.Grows (r.apply cursor notes).2

/-- The rule keeps readings of different capacity in lockstep. -/
def Rule.KeepsStep (r : Rule Store α) : Prop :=
  ∀ (cursor : Cursor) (a b : Notes Store), a.Roomier b → Lockstep (r.apply cursor a) (r.apply cursor b)

/-- A store takes a node by appending it. -/
lemma put_allocating (n : Node) (s : Store) : allocating.put n s =
    if s.size < s.capacity then some (⟨s.size⟩, s.push n) else none := by
  rw [allocating]
  dsimp only
  rw [Build.run_alloc]
  by_cases room : s.size < s.capacity
  · rw [if_pos room, if_pos room]
    rfl
  · rw [if_neg room, if_neg room]

/-- A node is appended if there is room for it, and refused otherwise. -/
lemma apply_emit_allocating (n : Node) (cursor : Cursor) (notes : Notes Store) :
    (Rule.emit allocating n).apply cursor notes =
      if notes.nodes.size < notes.nodes.capacity then
        (some (⟨notes.nodes.size⟩, cursor), { notes with nodes := notes.nodes.push n })
      else (none, { notes with refused := true }) := by
  rw [Rule.apply_emit, put_allocating]
  by_cases room : notes.nodes.size < notes.nodes.capacity
  · rw [if_pos room, if_pos room]
  · rw [if_neg room, if_neg room]

/-- Nothing has to be appended. -/
lemma Notes.Grows.refl (notes : Notes Store) : notes.Grows notes := ⟨.refl, id⟩

/-- Nodes may be appended again and again. -/
lemma Notes.Grows.trans {a b c : Notes Store} (ab : a.Grows b) (bc : b.Grows c) : a.Grows c :=
  ⟨ab.appends.trans bc.appends, bc.refused ∘ ab.refused⟩

/-- No rule takes a node back, whether it succeeds or not. -/
lemma pervasive_grows : Pervasive allocating fun _ r => r.Grows := by
  refine .of_steps (R := Notes.Grows) .refl (fun _ _ _ => .trans) (fun _ _ _ => ⟨.refl, id⟩) ?_
    fun _ _ _ => ⟨.refl, fun _ => rfl⟩
  intro notes n h nodes _ taken
  rw [put_allocating] at taken
  split at taken
  · cases taken
    exact ⟨.push ‹_›, id⟩
  · cases taken

namespace Notes.Behind

variable {a a' b b' : Notes Store}

/-- The store that is full stays as it is. -/
lemma left (behind : a.Behind b) (grows : a.Grows a') : a'.Behind b := by
  have same : a'.nodes = a.nodes := grows.appends.eq_of_full behind.full
  constructor
  · exact grows.refused behind.refused
  · rw [same]
    exact behind.full
  · rw [same]
    exact behind.nodes

/-- The other store may go on growing. -/
lemma right (behind : a.Behind b) (grows : b.Grows b') : a.Behind b' := by
  obtain ⟨more, e⟩ := behind.nodes
  obtain ⟨new, e'⟩ := grows.appends.nodes
  exact ⟨behind.refused, behind.full, more ++ new, by rw [e', e, Array.append_assoc]⟩

/-- The store that is full has been filled with the first of the nodes that the other one got. -/
lemma nodes_eq {s : Store} {new : Array Node} (behind : a.Behind b) (appends : s.Appends a.nodes)
    (all : b.nodes.nodes = s.nodes ++ new) :
    a.nodes = ⟨s.nodes ++ new.take (s.capacity - s.size), s.capacity⟩ := by
  obtain ⟨first, e⟩ := appends.nodes
  obtain ⟨more, e'⟩ := behind.nodes
  have whole : new = first ++ more := by
    rw [all, e, Array.append_assoc, Array.append_right_inj] at e'
    exact e'
  have total : a.nodes.size = s.size + first.size := by
    rw [Store.size, e, Array.size_append]
    rfl
  have width : first.size = s.capacity - s.size := by
    have le : a.nodes.size ≤ max s.capacity s.size := appends.size_le
    have full := behind.full
    rw [appends.capacity] at full
    omega
  apply appends.eq_of_nodes
  rw [e, whole, ← width]
  simp

end Notes.Behind

/-- A sequence keeps step. Where the readings have parted, each goes on by itself or ends. -/
lemma Rule.KeepsStep.bind {r : Rule Store α} {f : α → Rule Store β} (hr : r.KeepsStep)
    (hf : ∀ a, (f a).KeepsStep) (grows : ∀ a, (f a).Grows) : (r >>= f).KeepsStep := by
  intro cursor a b roomier
  have steps := hr cursor a b roomier
  rw [apply_bind, apply_bind]
  generalize r.apply cursor a = x at steps
  generalize r.apply cursor b = y at steps
  cases steps with
  | @together result a b roomier =>
    match result with
    | none => exact .together roomier
    | some (v, cursor) => exact hf v cursor a b roomier
  | @apart result result' a b behind =>
    match result, result' with
    | none, none => exact .apart behind
    | none, some (w, cursor') => exact .apart (behind.right (grows w cursor' b))
    | some (v, cursor), none => exact .apart (behind.left (grows v cursor a))
    | some (v, cursor), some (w, cursor') =>
      exact .apart ((behind.left (grows v cursor a)).right (grows w cursor' b))

/-- An alternative keeps step. Where the readings have parted, one of them may try the second rule and
the other not. -/
lemma Rule.KeepsStep.orElse {r t : Rule Store α} (hr : r.KeepsStep) (ht : t.KeepsStep)
    (grows : t.Grows) : (r <|> t).KeepsStep := by
  intro cursor a b roomier
  have steps := hr cursor a b roomier
  rw [apply_orElse, apply_orElse]
  generalize r.apply cursor a = x at steps
  generalize r.apply cursor b = y at steps
  cases steps with
  | @together result a b roomier =>
    match result with
    | none => exact ht cursor a b roomier
    | some result => exact .together roomier
  | @apart result result' a b behind =>
    match result, result' with
    | none, none => exact .apart ((behind.left (grows cursor a)).right (grows cursor b))
    | none, some result' => exact .apart (behind.left (grows cursor a))
    | some result, none => exact .apart (behind.right (grows cursor b))
    | some result, some result' => exact .apart behind

/-- Either both stores take a node, or the first one refuses it and is full. -/
lemma Rule.KeepsStep.emit (n : Node) : (emit allocating n).KeepsStep := by
  rintro cursor a _ ⟨capacity, le, rfl⟩
  rw [apply_emit_allocating, apply_emit_allocating]
  by_cases room : a.nodes.size < a.nodes.capacity
  · have room' : a.nodes.size < capacity := by omega
    rw [if_pos room, if_pos (by exact room')]
    exact .together ⟨capacity, le, rfl⟩
  · rw [if_neg room]
    have full : a.nodes.capacity ≤ a.nodes.size := by omega
    split
    · exact .apart ⟨rfl, full, #[n], by simp [Store.push]⟩
    · exact .apart ⟨rfl, full, #[], by simp⟩

/-- All rules keep readings of different capacity in lockstep. -/
lemma pervasive_keepsStep : Pervasive allocating fun _ r => r.Grows ∧ r.KeepsStep where
  pure a := ⟨pervasive_grows.pure a, fun _ _ _ roomier => .together roomier⟩
  failure := ⟨pervasive_grows.failure, fun _ _ _ roomier => .together roomier⟩
  bind hr hf := ⟨pervasive_grows.bind hr.1 fun a => (hf a).1, hr.2.bind (fun a => (hf a).2) fun a => (hf a).1⟩
  orElse hr ht := ⟨pervasive_grows.orElse hr.1 ht.1, hr.2.orElse ht.2 ht.1⟩
  look := ⟨pervasive_grows.look, fun _ _ _ roomier => .together roomier⟩
  move cursor := ⟨pervasive_grows.move cursor, fun _ _ _ roomier => .together roomier⟩
  note what := by
    refine ⟨pervasive_grows.note what, ?_⟩
    rintro cursor a _ ⟨capacity, le, rfl⟩
    exact .together ⟨capacity, le, rfl⟩
  descend := by
    refine ⟨pervasive_grows.descend, ?_⟩
    rintro cursor a _ ⟨capacity, le, rfl⟩
    rw [apply_descend, apply_descend]
    by_cases shallow : a.depth < nestingLimit
    · rw [if_pos shallow, if_pos shallow]
      exact .together ⟨capacity, le, rfl⟩
    · rw [if_neg shallow, if_neg shallow]
      exact .together ⟨capacity, le, rfl⟩
  ascend := by
    refine ⟨pervasive_grows.ascend, ?_⟩
    rintro cursor a _ ⟨capacity, le, rfl⟩
    exact .together ⟨capacity, le, rfl⟩
  emit n w := ⟨pervasive_grows.emit n w, .emit n⟩

/-- Reading a whole text only appends nodes. -/
lemma read_grows (text : List Char) (s : Store) : s.Appends (read allocating text s).2.nodes :=
  (pervasive_grows.expression ⟨0, text⟩ { nodes := s }).appends

/-- A store in which a text found no room holds the beginning of what a larger one would hold. -/
theorem read_lockstep (text : List Char) (nodes : Array Node) {capacity capacity' : Nat}
    (le : capacity ≤ capacity') :
    ((read allocating text ⟨nodes, capacity⟩).1 = (read allocating text ⟨nodes, capacity'⟩).1 ∧
      (read allocating text ⟨nodes, capacity⟩).2.Roomier (read allocating text ⟨nodes, capacity'⟩).2) ∨
    (read allocating text ⟨nodes, capacity⟩).2.Behind (read allocating text ⟨nodes, capacity'⟩).2 := by
  have steps := pervasive_keepsStep.expression.2 ⟨0, text⟩ { nodes := ⟨nodes, capacity⟩ }
    { nodes := ⟨nodes, capacity'⟩ } ⟨capacity', le, rfl⟩
  simp only [read]
  generalize Rule.apply (expression allocating) ⟨0, text⟩ { nodes := ⟨nodes, capacity⟩ } = x at steps
  generalize Rule.apply (expression allocating) ⟨0, text⟩ { nodes := ⟨nodes, capacity'⟩ } = y at steps
  cases steps with
  | together roomier => exact .inl ⟨rfl, roomier⟩
  | apart behind => exact .inr behind

end ExprOpt.Grammar
