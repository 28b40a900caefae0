import ExprOpt.Proofs.OrderlySessions
import ExprOpt.Proofs.Queries

/-!
# Handles that are alike

Handles are compared by a walk down both of them at once, which ends at the first difference. Where
nothing dangles and nothing is below itself, whatever its shape and however it is shared, the walk tells
whether the same tree is below both (`alike_eq`). So likeness has the properties of equality. It does not
hold between a node and what is below it, because the tree of a node is higher than those below it
(`Unfolds.transGen`), and it does not change when nodes are added, because no tree does (`alike_extend`).
-/

namespace ExprOpt

/-- Computations that only append do so one after the other. -/
lemma Build.Appending.mapM {α β : Type} {f : α → Build β} (each : ∀ a, (f a).Appending) (as : List α) :
    (as.mapM f).Appending := by
  induction as with
  | nil => exact .pure []
  | cons a as ih =>
    rw [List.mapM_cons]
    exact (each a).bind fun b => ih.bind fun bs => .pure (b :: bs)

namespace Store

variable {s s' : Store} {a b : Option Handle} {t u : Tree Kind}

/-- The tree below a node is higher than those of all nodes that are properly below it. -/
lemma Unfolds.transGen {h g : Handle} (path : Relation.TransGen s.Child h g) (uh : s.Unfolds (some h) t) :
    ∃ d, s.Unfolds (some g) d ∧ d.height < t.height := by
  obtain ⟨c, child, rest⟩ := Relation.TransGen.head'_iff.1 path
  obtain ⟨tc, uc, lower⟩ := uh.child child
  obtain ⟨d, ug, le⟩ := uc.reaches rest
  exact ⟨d, ug, le.trans_lt lower⟩

/-- Handles are found alike exactly if they unfold to the same tree. -/
lemma alike_eq_true_iff (ua : s.Unfolds a t) (ub : s.Unfolds b u) : s.alike a b = .ok true ↔ t = u := by
  rw [alike_eq ua ub, Except.ok.injEq, decide_eq_true_iff]

/-- More nodes make no difference between handles that were there before. -/
lemma alike_extend (e : s.Extends s') (ua : s.Unfolds a t) (ub : s.Unfolds b u) :
    s'.alike a b = s.alike a b := by
  rw [alike_eq ua ub, alike_eq (ua.extend e) (ub.extend e)]

/-- Being alike is an equivalence on the handles of a store. -/
lemma Grounded.alike_equivalence (ground : s.Grounded) :
    Equivalence fun a b : { o // s.Holds o } => s.alike a b = .ok true := by
  have tree (o : { o // s.Holds o }) : ∃ t, s.Unfolds o t := ground.unfolds o.2
  choose tree unfolds using tree
  have same (a b : { o // s.Holds o }) : s.alike a b = .ok true ↔ tree a = tree b :=
    alike_eq_true_iff (unfolds a) (unfolds b)
  simp only [same]
  exact ⟨fun _ => rfl, Eq.symm, Eq.trans⟩

end Store

/-- In a store without dangling handles and cycles, any two handles can be compared, and they are alike
exactly if the trees below them are the same. So being alike is an equivalence, nodes that are alike have
equally many nodes below them, no node is like one that is properly below it, and whatever is allocated
later, until the store is full or not, handles that are there compare as before. -/
theorem alike_iff_same_tree {s : Store} (closed : s.Closed) (acyclic : s.Acyclic) :
    (∀ a b, s.Holds a → s.Holds b → ∃ t u, s.tree a = .ok t ∧ s.tree b = .ok u ∧
      s.alike a b = .ok (decide (t = u))) ∧
    (Equivalence fun a b : { o // s.Holds o } => s.alike a b = .ok true) ∧
    (∀ a b, s.Holds a → s.Holds b → s.alike a b = .ok true →
      ∃ k, s.treeSize a = .ok k ∧ s.treeSize b = .ok k) ∧
    (∀ h g, Relation.TransGen s.Child h g → s.alike (some h) (some g) = .ok false) ∧
    ∀ a b, s.Holds a → s.Holds b → ∀ new : List Node,
      (new.mapM Build.alloc).Ensures s (fun _ s' => s'.alike a b = s.alike a b)
        (fun _ s' => s'.alike a b = s.alike a b) := by
  have ground : s.Grounded := .of_closed_acyclic closed acyclic
  refine ⟨?_, ground.alike_equivalence, ?_, ?_, ?_⟩
  · intro a b ha hb
    obtain ⟨t, ua⟩ := ground.unfolds ha
    obtain ⟨u, ub⟩ := ground.unfolds hb
    exact ⟨t, u, Store.tree_eq_ok_iff.2 ua, Store.tree_eq_ok_iff.2 ub, Store.alike_eq ua ub⟩
  · intro a b ha hb alike
    obtain ⟨t, ua⟩ := ground.unfolds ha
    obtain ⟨u, ub⟩ := ground.unfolds hb
    obtain rfl : t = u := (Store.alike_eq_true_iff ua ub).1 alike
    exact ⟨t.size, Store.treeSize_eq ua, Store.treeSize_eq ub⟩
  · intro h g path
    obtain ⟨c, ⟨n, found, -⟩, -⟩ := Relation.TransGen.head'_iff.1 path
    obtain ⟨t, uh⟩ := ground h (Store.index_lt_of_node? found)
    obtain ⟨d, ug, lower⟩ := Store.Unfolds.transGen path uh
    have other : t ≠ d := by
      rintro rfl
      exact lower.false
    rw [Store.alike_eq uh ug, decide_eq_false other]
  · intro a b ha hb new
    obtain ⟨t, ua⟩ := ground.unfolds ha
    obtain ⟨u, ub⟩ := ground.unfolds hb
    exact (Build.Appending.mapM .alloc new s).weaken
      (fun _ _ appends => Store.alike_extend appends.extend ua ub)
      (fun _ _ appends => Store.alike_extend appends.extend ua ub)

/-- A constant with two children at 2 and another one at 5. Below the first there is one node twice, below
the second there are two, and each of these has a right child only. -/
def oddShapes : Store where
  nodes := #[.var 'x', ⟨.op .mul, none, some ⟨0⟩⟩, ⟨.const 3, some ⟨1⟩, some ⟨1⟩⟩, .var 'x',
    ⟨.op .mul, none, some ⟨3⟩⟩, ⟨.const 3, some ⟨1⟩, some ⟨4⟩⟩]
  capacity := 7

/-- The constants are alike, and still are when further nodes have been asked for, some of which find no
room. -/
theorem alike_iff_same_tree_oddShapes : oddShapes.alike (some ⟨2⟩) (some ⟨5⟩) = .ok true ∧
    (∃ k, oddShapes.treeSize (some ⟨2⟩) = .ok k ∧ oddShapes.treeSize (some ⟨5⟩) = .ok k) ∧
    oddShapes.alike (some ⟨5⟩) (some ⟨1⟩) = .ok false ∧
    ∀ new : List Node, (new.mapM Build.alloc).Ensures oddShapes
      (fun _ s' => s'.alike (some ⟨2⟩) (some ⟨5⟩) = .ok true)
      (fun _ s' => s'.alike (some ⟨2⟩) (some ⟨5⟩) = .ok true) := by
  have ground : oddShapes.Grounded := by decide
  obtain ⟨closed, acyclic⟩ := ground.closed_acyclic
  obtain ⟨-, -, sizes, below, later⟩ := @alike_iff_same_tree oddShapes closed acyclic
  have first : oddShapes.Holds (some ⟨2⟩) := fun _ e => by cases e; decide
  have second : oddShapes.Holds (some ⟨5⟩) := fun _ e => by cases e; decide
  have alike : oddShapes.alike (some ⟨2⟩) (some ⟨5⟩) = .ok true := by decide
  refine ⟨alike, sizes _ _ first second alike, below ⟨5⟩ ⟨1⟩ (.single ⟨_, rfl, .inl rfl⟩), fun new => ?_⟩
  have kept := later _ _ first second new
  rw [alike] at kept
  exact kept

end ExprOpt
