import ExprOpt.Proofs.Queries

/-!
# The nodes that hoisting adds

Hoisting leaves all nodes alone and appends others, in any store (`hoist_appending`). It copies a tree that
it has unfolded beforehand, and could as well follow the handles and compare them in the store that it
appends to (`run_hoist_eq_replace`). In a well-formed store what it appends is well-formed too, and it
stands on nodes that were there before it (`hoist_stacks`).
-/

namespace ExprOpt

/-- Every node of the tree has the children that its kind asks for. -/
def Tree.WellFormed : Tree Kind → Prop
  | .nil => True
  | .node k l r => k.admits (!l.isNil) (!r.isNil) ∧ l.WellFormed ∧ r.WellFormed

namespace Store

variable {s : Store} {o : Option Handle} {t : Tree Kind}

/-- There is a handle exactly where the tree is not empty. -/
lemma Unfolds.isSome_eq (u : s.Unfolds o t) : o.isSome = !t.isNil := by
  cases u with
  | nil => rfl
  | node => rfl

/-- The trees of a well-formed store are well-formed. -/
lemma Unfolds.wellFormed (w : s.WellFormed) (u : s.Unfolds o t) : t.WellFormed := by
  induction u with
  | nil => trivial
  | @node h n l r found ul ur ihl ihr =>
    refine ⟨?_, ihl, ihr⟩
    rw [← ul.isSome_eq, ← ur.isSome_eq]
    exact w h n found

end Store

namespace Build

variable {s : Store} {t : Tree Kind}

/-- Unfolding a tree only reads. -/
lemma kinds_appending (h : Handle) : (kinds h).Appending := .map _ (.inspect _)

/-- The kinds below a handle are those of its tree. -/
lemma run_kinds {h : Handle} (u : s.Unfolds (some h) t) : (kinds h).run s = .ok t s := by
  obtain ⟨c, cs, rfl⟩ := u.cells
  have unfolded : (inspect (·.unfold (some h))).run s = .ok c s := by
    rw [run_inspect, Store.unfold_eq_ok_iff.2 cs]
  rw [kinds, ← bind_pure_comp, run_bind_of_ok unfolded]
  rfl

/-- A computation that begins with the kinds below a handle goes on with the tree there. -/
lemma Ensures.kinds_bind {α : Type} {h : Handle} {f : Tree Kind → Build α} {Q : α → Store → Prop}
    {E : Error → Store → Prop} (u : s.Unfolds (some h) t) (rest : (f t).Ensures s Q E) :
    (kinds h >>= f).Ensures s Q E := by
  rw [Ensures, run_bind_of_ok (run_kinds u)]
  exact rest

/-- A copy takes a node for each node of the tree that is copied. -/
lemma copyWithout_takes (d t : Tree Kind) (s : Store) : (copyWithout d t).Takes s (t.without d).size := by
  induction t generalizing s with
  | nil => exact .pure
  | node k l r ihl ihr =>
    rw [copyWithout, Tree.without]
    split
    · exact .map (.alloc _)
    · rw [show (Tree.node k (l.without d) (r.without d)).size =
          (l.without d).size + ((r.without d).size + 1) by simp only [Tree.size]; omega]
      exact (ihl s).bind fun left _ => (ihr _).bind fun right _ => .map (.alloc _)

/-- A copy leaves all older nodes alone. -/
lemma copyWithout_appending (d t : Tree Kind) : (copyWithout d t).Appending :=
  .of_takes (copyWithout_takes d t)

/-- Copies what is below a handle, down to `depth` levels, with the hoisted variable in place of every
handle that is alike `x`. Handles are compared in the store as it has grown by then. -/
def replaceWithin (x : Handle) : Nat → Option Handle → Build (Option Handle)
  | _, none => return none
  | 0, some _ => throw .cyclic
  | depth + 1, some h => do
    if ← inspect (·.alike (some x) (some h)) then
      some <$> alloc (.var hoistedName)
    else
      let n ← node h
      let left ← replaceWithin x depth n.left
      let right ← replaceWithin x depth n.right
      some <$> alloc { n with left, right }

/-- Copies what is below a handle. The levels are counted against the most that the store can hold. -/
def replace (x h : Handle) : Build (Option Handle) := do
  replaceWithin x ((← get).bound + 1) (some h)

/-- Two computations that run alike go on alike, if they are followed by what runs alike in the store
that the first one leaves. -/
lemma run_bind_congr {α β : Type} {b b' : Build α} {f f' : α → Build β} (first : b.run s = b'.run s)
    (second : ∀ a s', b'.run s = .ok a s' → (f a).run s' = (f' a).run s') :
    (b >>= f).run s = (b' >>= f').run s := by
  rw [EStateM.run_bind, EStateM.run_bind, first]
  cases ran : b'.run s with
  | ok a s' => exact second a s' ran
  | error e s' => rfl

/-- The nodes that a copy appends change no tree that was there before, so that handles are alike in the
grown store if and only if their trees were the same at the beginning. -/
lemma run_replaceWithin {s' : Store} {x : Handle} {o : Option Handle} {d : Tree Kind} {depth : Nat}
    (ux : s.Unfolds (some x) d) (u : s.Unfolds o t) (le : t.height ≤ depth) (e : s.Extends s') :
    (replaceWithin x depth o).run s' = (copyWithout d t).run s' := by
  induction u generalizing s' depth with
  | nil => cases depth <;> rfl
  | @node h n l r found ul ur ihl ihr =>
    cases depth with
    | zero => exact absurd le (by simp [Tree.height])
    | succ depth =>
      simp only [Tree.height] at le
      have same := Store.alike_eq (ux.extend e) ((Store.Unfolds.node found ul ur).extend e)
      have compared : (inspect (·.alike (some x) (some h))).run s' = .ok (decide (d = .node n.kind l r)) s' := by
        rw [run_inspect, same]
      have stands : (node h).run s' = .ok n s' := by rw [run_node, e h n found]
      rw [replaceWithin, run_bind_of_ok compared, copyWithout]
      by_cases hit : .node n.kind l r = d
      · rw [if_pos hit, if_pos (decide_eq_true hit.symm)]
      · rw [if_neg hit, if_neg (by simpa using Ne.symm hit), run_bind_of_ok stands]
        refine run_bind_congr (ihl (by omega) e) fun left s₁ ran₁ => ?_
        have e₁ := e.trans ((copyWithout_appending d l s').of_ok ran₁).extend
        exact run_bind_congr (ihr (by omega) e₁) fun right s₂ _ => rfl

/-- A copy that is made by following handles is the copy of the tree that was unfolded beforehand. -/
lemma run_replace {x h : Handle} {d : Tree Kind} (ux : s.Unfolds (some x) d)
    (u : s.Unfolds (some h) t) : (replace x h).run s = (copyWithout d t).run s := by
  have enough : t.height ≤ s.bound + 1 := by
    have := u.height_le
    simp only [Store.bound]
    omega
  rw [replace, EStateM.run_bind, EStateM.run_get]
  exact run_replaceWithin ux u enough .refl

/-- Hoisting makes its copy as if it followed handles and compared them on the way. -/
theorem run_hoist_eq_replace {root : Handle} (u : s.Unfolds (some root) t) :
    (hoist root).run s = (do
      match ← inspect (Duplicate.largest · root) with
      | none => return root
      | some hit =>
        let rest ← replace hit.handle root
        let name ← alloc (.var hoistedName)
        let binding ← alloc (.binary .assign name hit.handle)
        alloc { kind := .op .seq, left := some binding, right := rest }).run s := by
  obtain ⟨o, largest⟩ := Duplicate.largest_ok u
  have found : (inspect (Duplicate.largest · root)).run s = .ok o s := by rw [run_inspect, largest]
  rw [hoist, run_bind_of_ok found, run_bind_of_ok found]
  cases o with
  | none => rfl
  | some hit =>
    obtain ⟨d, ud, -⟩ := u.subtree (Duplicate.reaches_of_largest largest)
    dsimp only
    rw [run_bind_of_ok (run_kinds ud), run_bind_of_ok (run_kinds u)]
    exact run_bind_congr (run_replace ud u).symm fun rest s' _ => rfl

/-- Hoisting only appends, in any store and from any handle. -/
lemma hoist_appending (root : Handle) : (hoist root).Appending := by
  refine .bind (.inspect _) fun o => ?_
  cases o with
  | none => exact .pure root
  | some hit =>
    refine .bind (kinds_appending hit.handle) fun d => .bind (kinds_appending root) fun t => ?_
    exact .bind (copyWithout_appending d t) fun rest => .bind (.alloc _) fun name =>
      .bind (.alloc _) fun binding => .alloc _

/-- A copy of a well-formed tree is stacked up, and there is a root to it if there is one to the tree. -/
lemma copyWithout_stacks {d : Tree Kind} (w : t.WellFormed) :
    (copyWithout d t).Ensures s
      (fun o s' => s.Stacks s' ∧ o.isSome = !t.isNil ∧ ∀ h, o = some h → h.index < s'.size)
      (fun e s' => s.Stacks s' ∧ e = .outOfNodes s.capacity) := by
  induction t generalizing s with
  | nil =>
    refine .pure ⟨.refl, rfl, fun h e => ?_⟩
    cases e
  | node k l r ihl ihr =>
    obtain ⟨wk, wl, wr⟩ := w
    rw [copyWithout]
    split
    · refine .map ((alloc_stacks (Node.wellFormed_var _) (Node.tops_var _ _)).weaken ?_ fun _ _ => id)
      exact fun h s' post => ⟨post.1, rfl, fun _ e => Option.some.inj e ▸ post.2⟩
    · refine (ihl wl).bind ?_
      rintro left s₁ ⟨st₁, some₁, lt₁⟩
      refine ((ihr wr).from_stack st₁).bind ?_
      rintro right s₂ ⟨st₂, some₂, lt₂⟩
      have wn : (⟨k, left, right⟩ : Node).WellFormed := by
        rw [Node.WellFormed, some₁, some₂]
        exact wk
      have tops : (⟨k, left, right⟩ : Node).Tops s₂.size := by
        intro side c e
        cases side with
        | left => exact (lt₁ c e).trans_le st₂.size_ge
        | right => exact lt₂ c e
      have below := st₁.trans st₂
      refine .map (((alloc_stacks wn tops).from_stack below).weaken ?_ fun _ _ => id)
      exact fun h s' post => ⟨below.trans post.1, rfl, fun _ e => Option.some.inj e ▸ post.2⟩

/-- Hoisting from a handle of a well-formed store that unfolds stacks up well-formed nodes, and it fails
only for lack of room. -/
theorem hoist_stacks {root : Handle} (w : s.WellFormed) (u : s.Unfolds (some root) t) :
    (hoist root).Ensures s (fun r s' => s.Stacks s' ∧ r.index < s'.size)
      (fun e s' => s.Stacks s' ∧ e = .outOfNodes s.capacity) := by
  obtain ⟨o, largest⟩ := Duplicate.largest_ok u
  refine .inspect_bind largest ?_
  cases o with
  | none => exact .pure ⟨.refl, u.index_lt⟩
  | some hit =>
    obtain ⟨d, ud, -⟩ := u.subtree (Duplicate.reaches_of_largest largest)
    refine .kinds_bind ud (.kinds_bind u ?_)
    refine (copyWithout_stacks (u.wellFormed w)).bind ?_
    rintro rest s₁ ⟨st₁, some₁, lt₁⟩
    refine ((alloc_stacks (Node.wellFormed_var _) (Node.tops_var _ _)).from_stack st₁).bind ?_
    rintro name s₂ ⟨st₂, lt₂⟩
    have below₂ := st₁.trans st₂
    have there₂ := ud.index_lt.trans_le below₂.size_ge
    refine ((alloc_stacks (Node.wellFormed_binary _ _ _) (Node.tops_binary lt₂ there₂)).from_stack
      below₂).bind ?_
    rintro binding s₃ ⟨st₃, lt₃⟩
    have below₃ := below₂.trans st₃
    -- The tree below the root is not empty, so the copy has a root, too.
    have there : rest.isSome = true := by
      obtain ⟨n, l, r, -, -, -, rfl⟩ := u.inv
      exact some₁
    have wn : (⟨.op .seq, some binding, rest⟩ : Node).WellFormed := by
      rw [Node.WellFormed, there]
      rfl
    have tops : (⟨.op .seq, some binding, rest⟩ : Node).Tops s₃.size := by
      intro side c e
      cases side with
      | left =>
        cases e
        exact lt₃
      | right => exact (lt₁ c e).trans_le (st₂.trans st₃).size_ge
    refine ((alloc_stacks wn tops).from_stack below₃).weaken (fun r s' post => ?_) fun _ _ => id
    exact ⟨below₃.trans post.1, post.2⟩

end Build

end ExprOpt
