import ExprOpt.Proofs.Sweeping.Cost

/-!
# Sweeps that find nothing to do

A sweep writes every child slot that it comes to, also where it has nothing to edit. What it writes there
is the child that stands there already, so the store stays as it is, and as it allocates nothing it needs
no room (`sweep_of_atRest`).

There is nothing to edit below a handle if the rule leaves the tree there alone (`Settled.atRest`), which
is the case after a sweep. So a pass that carries out a rule is done after one run (`Store.Done`).
-/

namespace ExprOpt

/-- No node that can be reached from a handle calls for an edit. -/
def Store.AtRest (edit : Store → Node → Edit) (s : Store) (h : Handle) : Prop :=
  ∀ g n, s.Reaches h g → s.node? g = some n → edit s n = .keep

/-- A pass has nothing left to do below a handle. No node that can be reached from it is one that the pass
is for, and a further run returns the handle and leaves the store exactly as it is, however little room
there is. -/
structure Store.Done (pass : Handle → Build Handle) (Redex : Store → Node → Prop) (s : Store)
    (h : Handle) : Prop where
  normal : ∀ g n, s.Reaches h g → s.node? g = some n → ¬ Redex s n
  rerun : ∀ capacity, (pass h).run { s with capacity } = .ok h { s with capacity }

section

variable {edit : Store → Node → Edit} {rule : TreeRule} {s : Store} {h : Handle} {n : Node}

/-- A node that is there is read, and the store stays as it is. -/
lemma Build.run_node_of_some (found : s.node? h = some n) : (Build.node h).run s = .ok n s := by
  rw [run_node, found]

/-- A sweep follows the handle that it starts from. -/
lemma index_lt_of_sweep {r : Handle} {s' : Store} (ran : (sweep edit h).run s = .ok r s') :
    h.index < s.size := by
  by_contra out
  have missing : s.node? h = none := by
    rw [← Option.not_isSome_iff_eq_none, Store.isSome_node?_iff]
    exact out
  rw [sweep, Build.run_bind_of_ok (EStateM.run_get s), sweepWithin_succ, sweepSlot, bind_assoc,
    EStateM.run_bind, Build.run_node, missing] at ran
  cases ran

/-- A sweep that succeeds in a store without dangling handles and cycles returns the swept tree. -/
lemma sweep_swept {r : Handle} {s' : Store} (imp : Implements edit rule) (closed : s.Closed)
    (acyclic : s.Acyclic) (ran : (sweep edit h).run s = .ok r s') :
    ∃ t, s.Unfolds (some h) t ∧ s'.Unfolds (some r) (t.sweep rule) := by
  obtain ⟨t, u⟩ := Store.Grounded.of_closed_acyclic closed acyclic h (index_lt_of_sweep ran)
  obtain ⟨_, _, u'⟩ := (sweep_evolves imp u).of_ok ran
  exact ⟨t, u, u'⟩

/-- Writing what is there already changes nothing. -/
lemma Store.modifyNode_eq_self {f : Node → Node} (found : s.node? h = some n) (same : f n = n) :
    s.modifyNode h f = s := by
  obtain ⟨nodes, capacity⟩ := s
  have there : nodes[h.index]? = some n := found
  rw [modifyNode, Store.mk.injEq]
  refine ⟨Array.ext_getElem? fun i => ?_, rfl⟩
  rw [Array.getElem?_modify]
  split_ifs with here
  · rw [← here, there, Option.map_some, same]
  · rfl

/-- Writing back what stands in a slot changes nothing. -/
lemma Node.withSlot_eq_self {side : Side} {child : Option Handle} (e : n.slot side = child) :
    n.withSlot side child = n := by
  subst e
  cases side <;> rfl

/-- What can be reached from a child can be reached from its parent. -/
lemma Store.AtRest.child {c : Handle} (rest : s.AtRest edit h) (child : s.Child h c) :
    s.AtRest edit c :=
  fun g m path found => rest g m (.head child path) found

/-- Dealing with a child slot changes nothing if sweeping the child does not. -/
lemma sweepSlot_of_atRest {depth : Nat} {side : Side} (found : s.node? h = some n)
    (below : ∀ c, n.slot side = some c → (sweepWithin edit depth c).run s = .ok c s) :
    (sweepSlot edit depth h side).run s = .ok () s := by
  rw [sweepSlot, Build.run_bind_of_ok (Build.run_node_of_some found)]
  cases slot : n.slot side with
  | none => rfl
  | some c =>
    rw [forChild, Build.run_bind_of_ok (below c slot), Build.run_modifyNode, found]
    dsimp only
    rw [Store.modifyNode_eq_self found (Node.withSlot_eq_self slot)]

/-- A sweep over nodes at rest leaves the store as it is, by induction on the tree. -/
lemma sweepWithin_of_atRest {o : Option Handle} {t : Tree Kind} {depth : Nat} (u : s.Unfolds o t)
    (e : o = some h) (rest : s.AtRest edit h) (deep : t.height ≤ depth) :
    (sweepWithin edit depth h).run s = .ok h s := by
  induction u generalizing h depth with
  | nil => cases e
  | @node g n l r found ul ur ihl ihr =>
    cases e
    cases depth with
    | zero => exact absurd deep (Nat.not_succ_le_zero _)
    | succ depth =>
      simp only [Tree.height] at deep
      have left : (sweepSlot edit depth g .left).run s = .ok () s := by
        refine sweepSlot_of_atRest found fun c slot => ?_
        exact ihl slot (rest.child ⟨n, found, .inl slot⟩) (by omega)
      have right : (sweepSlot edit depth g .right).run s = .ok () s := by
        refine sweepSlot_of_atRest found fun c slot => ?_
        exact ihr slot (rest.child ⟨n, found, .inr slot⟩) (by omega)
      rw [sweepWithin_succ, Build.run_bind_of_ok left, Build.run_bind_of_ok right,
        Build.run_bind_of_ok (Build.run_node_of_some found), Build.run_bind_of_ok (EStateM.run_get s),
        rest g n .refl found]
      rfl

/-- A sweep that has nothing to edit returns where it started and leaves the store as it is. -/
theorem sweep_of_atRest {t : Tree Kind} (u : s.Unfolds (some h) t) (rest : s.AtRest edit h) :
    (sweep edit h).run s = .ok h s := by
  rw [sweep, Build.run_bind_of_ok (EStateM.run_get s)]
  refine sweepWithin_of_atRest u rfl rest ?_
  have := u.height_le
  simp only [Store.bound]
  omega

/-- Every subtree of a settled tree is settled. -/
lemma Settled.of_subtree {d t : Tree Kind} (st : Settled rule t) (sub : Tree.Subtree d t) :
    Settled rule d := by
  induction sub with
  | refl => exact st
  | left _ ih =>
    cases st with
    | node sl _ _ => exact ih sl
  | right _ ih =>
    cases st with
    | node _ sr _ => exact ih sr

/-- There is nothing to edit below a handle whose tree the rule leaves alone. -/
lemma Settled.atRest {t : Tree Kind} (abstains : Abstains edit rule) (st : Settled rule t)
    (u : s.Unfolds (some h) t) : s.AtRest edit h := by
  intro g n path found
  obtain ⟨d, ud, sub⟩ := u.subtree path
  obtain ⟨m, l, r, found', ul, ur, rfl⟩ := ud.inv
  cases Option.some.inj (found.symm.trans found')
  cases st.of_subtree sub with
  | node _ _ same => exact abstains s n l r ul ur same

/-- A pass is done below a handle whose tree its rule leaves alone, if it edits every node that it is
for. -/
lemma Store.Done.of_settled {Redex : Store → Node → Prop} {t : Tree Kind}
    (abstains : Abstains edit rule) (edits : ∀ n, Redex s n → edit s n ≠ .keep) (st : Settled rule t)
    (u : s.Unfolds (some h) t) : s.Done (sweep edit) Redex h where
  normal g n path found redex := edits n redex (st.atRest abstains u g n path found)
  rerun _ := sweep_of_atRest u.recap (st.atRest abstains u.recap)

end

end ExprOpt
