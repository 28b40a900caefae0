import ExprOpt.Session
import ExprOpt.Proofs.FoldedTree
import ExprOpt.Proofs.Grammar.Outcomes
import ExprOpt.Proofs.HoistedNodes
import ExprOpt.Proofs.SimplifiedTree
import ExprOpt.Proofs.Sweeping.Form

/-!
# What a session does to its store

Whatever is asked of a store, and whether or not it succeeds: nodes are only ever added, up to the
capacity, and all keep their kinds. A child slot of a node that is there already is overwritten by a
command that names it, or by a sweep from a handle that the node can be reached from
(`Command.step_ages`). Nothing is assumed about the handles; they may dangle and lead in circles.
-/

namespace ExprOpt

namespace Store

variable {s s' s'' : Store} {touched : Handle → Side → Prop}

/-- Nodes have been added, as long as there was room, and of those before only the slots in `touched`
have been overwritten. -/
structure Ages (touched : Handle → Side → Prop) (s s' : Store) : Prop extends s.Widens s' where
  node : ∀ g n, s.node? g = some n → ∃ n', s'.node? g = some n' ∧ n'.kind = n.kind ∧
    ∀ side, n'.slot side = n.slot side ∨ touched g side

namespace Ages

/-- A store that is left alone has not aged. -/
lemma refl : s.Ages touched s where
  toWidens := .refl
  node _ n found := ⟨n, found, rfl, fun _ => .inl rfl⟩

/-- A store may age again and again. -/
lemma trans (a : s.Ages touched s') (b : s'.Ages touched s'') : s.Ages touched s'' where
  toWidens := a.toWidens.trans b.toWidens
  node g n found := by
    obtain ⟨n', found', kind', slots'⟩ := a.node g n found
    obtain ⟨n'', found'', kind'', slots''⟩ := b.node g n' found'
    refine ⟨n'', found'', kind''.trans kind', fun side => ?_⟩
    rcases slots'' side with same | mem
    · rw [same]
      exact slots' side
    · exact .inr mem

/-- More slots may be said to have been touched. -/
lemma weaken {touched' : Handle → Side → Prop} (a : s.Ages touched s')
    (le : ∀ g side, touched g side → touched' g side) : s.Ages touched' s' where
  toWidens := a.toWidens
  node g n found := by
    obtain ⟨n', found', kind, slots⟩ := a.node g n found
    exact ⟨n', found', kind, fun side => (slots side).imp id (le g side)⟩

/-- Where nodes are only appended no slot is touched. -/
lemma of_appends (a : s.Appends s') : s.Ages touched s' where
  toWidens := a.toWidens
  node g n found := ⟨n, a.extend g n found, rfl, fun _ => .inl rfl⟩

/-- One slot of one node is overwritten. -/
lemma withSlot (h : Handle) (side : Side) (child : Option Handle) :
    s.Ages (fun g i => g = h ∧ i = side) (s.modifyNode h (·.withSlot side child)) where
  toWidens := .modifyNode h _
  node g n found := by
    rw [node?_modifyNode]
    split
    · subst g
      refine ⟨n.withSlot side child, by rw [found]; rfl, Node.kind_withSlot, fun i => ?_⟩
      rcases eq_or_ne i side with eq | ne
      · exact .inr ⟨rfl, eq⟩
      · exact .inl (Node.slot_withSlot_of_ne ne)
    · exact ⟨n, found, rfl, fun _ => .inl rfl⟩

/-- A sweep overwrites no slot out of its reach. -/
lemma of_sweep {h : Handle} (reshapes : s.Reshapes s')
    (confined : s.Confined (fun g => s.Reaches h g ∨ s.size ≤ g.index) s') :
    s.Ages (fun g _ => s.Reaches h g) s' where
  toWidens := reshapes.toWidens
  node g n found := by
    rcases Classical.em (s.Reaches h g) with path | out
    · obtain ⟨n', found', kind, -⟩ := reshapes.old g n found
      exact ⟨n', found', kind, fun _ => .inr path⟩
    · have apart : ¬ (s.Reaches h g ∨ s.size ≤ g.index) := by
        rintro (path | le)
        · exact out path
        · exact absurd (index_lt_of_node? found) (by omega)
      exact ⟨n, (confined.outside g apart).trans found, rfl, fun _ => .inl rfl⟩

end Ages

end Store

/-- A sweep touches only nodes that can be reached from its root, whether it succeeds or not. -/
lemma sweep_ages {edit : Store → Node → Edit} (loc : Local edit) (tidy : Tidy edit) (h : Handle)
    (s : Store) : (sweep edit h).Ensures s (fun _ s' => s.Ages (fun g _ => s.Reaches h g) s')
      (fun _ s' => s.Ages (fun g _ => s.Reaches h g) s') := by
  have confined : (sweep edit h).Ensures s _ _ :=
    .get_bind (sweepWithin_confined loc _ h s (s.region_reaches h) (.inl .refl))
  exact ((sweep_reshapes tidy h s).and confined).weaken (fun _ _ post => .of_sweep post.1 post.2.1)
    fun _ _ post => .of_sweep post.1 post.2

namespace Command

/-- What a command may overwrite of the nodes of a store: a slot that it names, or any slot that can be
reached from where it sweeps. -/
def Overwrites (s : Store) (c : Command) (g : Handle) (side : Side) : Prop :=
  match c with
  | .setLeft h _ => g = h ∧ side = .left
  | .setRight h _ => g = h ∧ side = .right
  | .pass .fold h => s.Reaches h g
  | .pass .simplify h => s.Reaches h g
  | _ => False

variable {s : Store} {c : Command}

/-- What a run ensures of the store in any case holds of the store after the step. -/
lemma step_of_ensures {P : Store → Prop}
    (en : c.run.Ensures s (fun _ s' => P s') (fun _ s' => P s')) : P (c.step s).store := by
  rw [Build.Ensures] at en
  rw [step]
  cases ran : c.run.run s with
  | ok answer s' =>
    rw [ran] at en
    exact en
  | error e s' =>
    rw [ran] at en
    exact en

/-- A query leaves the store as it is. -/
lemma query_ages {α : Type} (read : Store → Except Error α) (answer : α → Answer)
    {touched : Handle → Side → Prop} :
    (query read answer).Ensures s (fun _ s' => s.Ages touched s') (fun _ s' => s.Ages touched s') :=
  .map (.inspect (fun _ _ => .refl) fun _ _ => .refl)

/-- A command that only appends touches no slot. -/
lemma appending_ages {α : Type} {b : Build α} (appending : b.Appending) (f : α → Answer)
    {touched : Handle → Side → Prop} :
    (f <$> b).Ensures s (fun _ s' => s.Ages touched s') (fun _ s' => s.Ages touched s') :=
  .map ((appending s).weaken (fun _ _ => .of_appends) fun _ _ => .of_appends)

/-- Setting a slot touches that slot alone. -/
lemma withSlot_ages (h : Handle) (side : Side) (child : Option Handle) :
    (Build.modifyNode h (·.withSlot side child) >>= fun _ => pure Answer.done).Ensures s
      (fun _ s' => s.Ages (fun g i => g = h ∧ i = side) s')
      (fun _ s' => s.Ages (fun g i => g = h ∧ i = side) s') := by
  rw [Build.Ensures, EStateM.run_bind, Build.run_modifyNode]
  cases s.node? h with
  | none => exact .refl
  | some n => exact .withSlot h side child

/-- A step adds nodes and overwrites what its command may overwrite, whether it succeeds or fails. -/
theorem step_ages (s : Store) (c : Command) :
    s.Ages (c.Overwrites s) (c.step s).store := by
  apply step_of_ensures
  cases c with
  | parse source =>
    exact .map ((Build.parse_stacks source s).weaken (fun _ _ post => .of_appends post.1.toAppends)
      fun _ _ post => .of_appends post.1.toAppends)
  | alloc n => exact appending_ages (.alloc n) _
  | setLeft h child => exact withSlot_ages h .left child
  | setRight h child => exact withSlot_ages h .right child
  | pass p h =>
    cases p with
    | fold => exact .map (sweep_ages Folding.isLocal Folding.tidy h s)
    | simplify => exact .map (sweep_ages Peephole.isLocal Peephole.tidy h s)
    | hoist => exact appending_ages (Build.hoist_appending h) _
  | kind h => exact query_ages _ _
  | const h => exact query_ages _ _
  | left h => exact query_ages _ _
  | right h => exact query_ages _ _
  | isLeaf h => exact query_ages _ _
  | isNegation h => exact query_ages _ _
  | alike a b => exact query_ages _ _
  | treeSize h => exact query_ages _ _
  | isEmpty => exact query_ages _ _
  | capacity => exact query_ages _ _
  | occurs x tree => exact query_ages _ _
  | largestDuplicate h => exact query_ages _ _
  | outline h => exact query_ages _ _
  | picture h => exact query_ages _ _
  | nodes => exact query_ages _ _

end Command

/-- The store after commands have been carried out one after the other, each on what the one before has
left. -/
def Store.after (s : Store) (commands : List Command) : Store :=
  commands.foldl (fun s c => (c.step s).store) s

/-- A session ages its store. -/
lemma Store.after_ages (s : Store) (commands : List Command) :
    s.Ages (fun _ _ => True) (s.after commands) := by
  induction commands generalizing s with
  | nil => exact .refl
  | cons c commands ih =>
    have first : s.Ages (fun _ _ => True) (c.step s).store :=
      (c.step_ages s).weaken fun _ _ _ => trivial
    exact first.trans (ih (c.step s).store)

/-- At any time of any session the capacity is what it was at the start, and there are no more nodes than
that. Whatever comes later, there are no fewer nodes, and those that are there keep their kinds. And
whatever comes next, the child slots of a node that is there change only if the command names them or
sweeps what can be reached from its handle, the node among it. -/
theorem session_append_only (capacity : Nat) (before : List Command) :
    let s := Store.after { capacity } before
    s.capacity = capacity ∧ s.size ≤ capacity ∧
    (∀ later, s.size ≤ (s.after later).size ∧ (s.after later).size ≤ capacity ∧
      ∀ g n, s.node? g = some n → ∃ n', (s.after later).node? g = some n' ∧ n'.kind = n.kind) ∧
    ∀ (c : Command) g n, s.node? g = some n → ∃ n', (c.step s).store.node? g = some n' ∧
      ∀ side, n'.slot side ≠ n.slot side → c.Overwrites s g side := by
  intro s
  have past : Store.Ages (fun _ _ => True) { capacity } s := Store.after_ages { capacity } before
  have same : s.capacity = capacity := past.capacity
  have fits : s.size ≤ capacity := by
    have le := past.size_le
    simp only [Store.bound, Store.size, Array.size_empty] at le ⊢
    omega
  refine ⟨same, fits, fun later => ?_, fun c g n found => ?_⟩
  · have future := s.after_ages later
    refine ⟨future.size_ge, ?_, fun g n found => ?_⟩
    · have le := future.size_le
      simp only [Store.bound] at le
      omega
    · obtain ⟨n', found', kind, -⟩ := future.node g n found
      exact ⟨n', found', kind⟩
  · obtain ⟨n', found', -, slots⟩ := (c.step_ages s).node g n found
    exact ⟨n', found', fun side ne => (slots side).resolve_left ne⟩

end ExprOpt
