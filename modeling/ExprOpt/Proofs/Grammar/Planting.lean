import ExprOpt.Proofs.Cells
import ExprOpt.Proofs.Grammar.Refusal

/-!
# What a successful reading leaves in a store

A rule that succeeds has put trees of its own into the store. Nothing in them was there before, no node
stands in two of them or twice in one, and each stands above those below it (`Planted`). Rules are taken
to turn trees that have been planted into others: a number of roots is given, and the rule puts its own in
their place (`Rule.Plants`). What failing alternatives leave behind does no harm, as it is in none of the
trees.
-/

namespace ExprOpt

namespace Store

variable {s s' s'' : Store} {n : Node} {roots roots' hs : List Handle}

/-- The descending trees below a list of roots, with all handles in them. -/
inductive Forest (s : Store) : List Handle → List Handle → Prop where
  | nil :
    Forest s [] []
  | cons {root c roots hs} :
    s.Cells (some root) c →
    c.Descending →
    Forest s roots hs →
    Forest s (root :: roots) (c.handles ++ hs)

namespace Forest

/-- Two forests side by side are a forest. -/
lemma append {hs' : List Handle} (forest : s.Forest roots hs) (forest' : s.Forest roots' hs') :
    s.Forest (roots ++ roots') (hs ++ hs') := by
  induction forest with
  | nil => exact forest'
  | cons cs desc _ ih =>
    rw [List.append_assoc]
    exact .cons cs desc ih

/-- A forest can be parted between any of its roots. -/
lemma append_inv (forest : s.Forest (roots ++ roots') hs) :
    ∃ hs₁ hs₂, s.Forest roots hs₁ ∧ s.Forest roots' hs₂ ∧ hs = hs₁ ++ hs₂ := by
  induction roots generalizing hs with
  | nil => exact ⟨[], hs, .nil, forest, rfl⟩
  | cons root roots ih =>
    cases forest with
    | cons cs desc rest =>
      obtain ⟨hs₁, hs₂, left, right, rfl⟩ := ih rest
      exact ⟨_, hs₂, .cons cs desc left, right, (List.append_assoc _ _ _).symm⟩

/-- A forest is still there in an extension of the store. -/
lemma extend (forest : s.Forest roots hs) (e : s.Extends s') : s'.Forest roots hs := by
  induction forest with
  | nil => exact .nil
  | cons cs desc _ ih => exact .cons (cs.extend e) desc ih

/-- All nodes of a forest are in the store. -/
lemma index_lt (forest : s.Forest roots hs) : ∀ h ∈ hs, h.index < s.size := by
  induction forest with
  | nil => exact nofun
  | cons cs _ _ ih =>
    intro h mem
    rcases List.mem_append.1 mem with mem | mem
    · exact cs.index_lt h mem
    · exact ih h mem

/-- The tree in a slot, if that is what the forest consists of. -/
lemma slot {o : Option Handle} (forest : s.Forest o.toList hs) :
    ∃ c, s.Cells o c ∧ c.Descending ∧ hs = c.handles := by
  cases o with
  | none =>
    cases forest
    exact ⟨.nil, .nil, trivial, rfl⟩
  | some h =>
    cases forest with
    | @cons _ c _ _ cs desc rest =>
      cases rest
      exact ⟨c, cs, desc, List.append_nil _⟩

/-- A new node becomes the root over the trees in its slots. -/
lemma push (forest : s.Forest (n.left.toList ++ n.right.toList) hs) :
    (s.push n).Forest [⟨s.size⟩] (⟨s.size⟩ :: hs) := by
  obtain ⟨hs₁, hs₂, forestL, forestR, rfl⟩ := forest.append_inv
  obtain ⟨l, cl, dl, rfl⟩ := forestL.slot
  obtain ⟨r, cr, dr, rfl⟩ := forestR.slot
  have found : (s.push n).node? ⟨s.size⟩ = some n := by simp [node?_push]
  have tree := Cells.node found (cl.extend extends_push) (cr.extend extends_push)
  have desc : Tree.Descending (.node ⟨⟨s.size⟩, n.kind⟩ l r) := ⟨forest.index_lt, dl, dr⟩
  have single := Forest.cons tree desc .nil
  rw [List.append_nil] at single
  exact single

end Forest

/-- Below the roots stand trees of nodes that only the second store has, none of them twice. -/
def Planted (s s' : Store) (roots : List Handle) : Prop :=
  ∃ hs, s'.Forest roots hs ∧ hs.Nodup ∧ ∀ h ∈ hs, s.size ≤ h.index

namespace Planted

/-- What has been planted is still there in an extension of the store. -/
lemma extend (planted : s.Planted s' roots) (e : s'.Extends s'') : s.Planted s'' roots := by
  obtain ⟨hs, forest, nodup, new⟩ := planted
  exact ⟨hs, forest.extend e, nodup, new⟩

/-- A new node takes the place of the roots that it has below it. -/
lemma push {left right : List Handle}
    (planted : s.Planted s' (left ++ (n.left.toList ++ n.right.toList) ++ right))
    (le : s.size ≤ s'.size) : s.Planted (s'.push n) (left ++ [⟨s'.size⟩] ++ right) := by
  obtain ⟨hs, forest, nodup, new⟩ := planted
  obtain ⟨hs', hsR, forest', forestR, rfl⟩ := forest.append_inv
  obtain ⟨hsL, hsM, forestL, forestM, rfl⟩ := forest'.append_inv
  have perm : (hsL ++ (⟨s'.size⟩ :: hsM) ++ hsR).Perm (⟨s'.size⟩ :: (hsL ++ hsM ++ hsR)) := by
    rw [List.append_assoc, List.append_assoc]
    exact List.perm_middle
  refine ⟨hsL ++ (⟨s'.size⟩ :: hsM) ++ hsR, ?_, ?_, ?_⟩
  · exact ((forestL.extend extends_push).append forestM.push).append (forestR.extend extends_push)
  · have fresh : (⟨s'.size⟩ : Handle) ∉ hsL ++ hsM ++ hsR :=
      fun mem => Nat.lt_irrefl _ (forest.index_lt _ mem)
    exact perm.nodup_iff.2 (List.nodup_cons.2 ⟨fresh, nodup⟩)
  · intro h mem
    rcases List.mem_cons.1 (perm.mem_iff.1 mem) with rfl | mem
    · exact le
    · exact new h mem

end Planted

end Store

namespace Grammar

variable {α β : Type} {r t : Rule Store α} {given : List Handle} {roots : α → List Handle}

/-- If the rule succeeds then its roots stand where those given have been, whatever others there are to
the left and to the right. -/
def Rule.Plants (given : List Handle) (r : Rule Store α) (roots : α → List Handle) : Prop :=
  ∀ (s : Store) (left right : List Handle) (cursor cursor' : Cursor) (notes notes' : Notes Store) (a : α),
    s.size ≤ notes.nodes.size → s.Planted notes.nodes (left ++ given ++ right) →
    r.apply cursor notes = (some (a, cursor'), notes') →
    s.Planted notes'.nodes (left ++ roots a ++ right)

namespace Rule.Plants

/-- A constant rule leaves the roots as they are. -/
lemma pure (roots : α → List Handle) (a : α) : Plants (roots a) (pure a) roots := by
  intro s left right cursor cursor' notes notes' a' _ planted ran
  cases ran
  exact planted

/-- A rule that never succeeds plants whatever one likes. -/
lemma lack (what : Expected) : Plants given (Rule.lack what : Rule Store α) roots :=
  fun _ _ _ _ _ _ _ _ _ _ ran => nomatch ran

/-- In a sequence the second rule is given what the first one has planted. -/
lemma bind {f : α → Rule Store β} {roots' : β → List Handle} (grows : r.Grows)
    (hr : r.Plants given roots) (hf : ∀ a, (f a).Plants (roots a) roots') :
    (r >>= f).Plants given roots' := by
  intro s left right cursor cursor' notes notes' b le planted ran
  obtain ⟨a, between, notes'', first, second⟩ := apply_bind_eq_some.1 ran
  have ge : notes.nodes.size ≤ notes''.nodes.size := by
    have appends := (grows cursor notes).appends
    rw [first] at appends
    exact appends.size_ge
  exact hf a s left right between cursor' notes'' notes' b (le.trans ge)
    (hr s left right cursor between notes notes'' a le planted first) second

/-- An alternative that fails does not touch what has been planted. -/
lemma orElse (grows : r.Grows) (hr : r.Plants given roots) (ht : t.Plants given roots) :
    (r <|> t).Plants given roots := by
  intro s left right cursor cursor' notes notes' a le planted ran
  rw [apply_orElse] at ran
  rcases e : r.apply cursor notes with ⟨_ | result, notes''⟩ <;> rw [e] at ran
  · -- What the first rule has left behind is in none of the trees.
    have appends := (grows cursor notes).appends
    rw [e] at appends
    exact ht s left right cursor cursor' notes'' notes' a (le.trans appends.size_ge)
      (planted.extend appends.extend) ran
  · cases ran
    exact hr s left right cursor cursor' notes notes' a le planted e

/-- A rule that has nothing to plant keeps what is given. -/
lemma of_grows (grows : r.Grows) : r.Plants given fun _ => given := by
  intro s left right cursor cursor' notes notes' a _ planted ran
  have appends := (grows cursor notes).appends
  rw [ran] at appends
  exact planted.extend appends.extend

/-- Roots on both sides may be taken along. -/
lemma frame (left right : List Handle) (hr : r.Plants given roots) :
    r.Plants (left ++ given ++ right) fun a => left ++ roots a ++ right := by
  intro s left' right' cursor cursor' notes notes' a le planted ran
  have regroup (mid : List Handle) :
      left' ++ (left ++ mid ++ right) ++ right' = (left' ++ left) ++ mid ++ (right ++ right') := by
    simp only [List.append_assoc]
  rw [regroup] at planted ⊢
  exact hr s _ _ cursor cursor' notes notes' a le planted ran

/-- A node that is handed over takes the place of its operands. -/
lemma emit (n : Node) :
    (Rule.emit allocating n).Plants (n.left.toList ++ n.right.toList) fun h => [h] := by
  intro s left right cursor cursor' notes notes' h le planted ran
  rw [apply_emit_allocating] at ran
  split at ran
  · cases ran
    exact planted.push le
  · cases ran

/-! ### The rules of the grammar -/

/-- Something optional plants its roots, or none. -/
lemma optional (grows : r.Grows) (hr : r.Plants [] roots) :
    (Rule.optional r).Plants [] fun o => o.elim [] roots := by
  rw [Rule.optional, ← bind_pure_comp]
  refine orElse (pervasive_grows.bind grows fun a => pervasive_grows.pure _) (bind grows hr fun a => ?_)
    (pure (fun o => o.elim [] roots) none)
  exact pure (fun o => o.elim [] roots) (some a)

/-- The depth has nothing to do with what is planted. -/
lemma nested (grows : r.Grows) (hr : r.Plants [] roots) :
    (nested r).Plants [] fun o => o.elim [] roots := by
  refine bind pervasive_grows.descend (of_grows pervasive_grows.descend) fun _ => ?_
  refine bind (pervasive_grows.optional grows) (optional grows hr) fun o => ?_
  exact bind pervasive_grows.ascend (of_grows pervasive_grows.ascend)
    fun _ => pure (fun o => o.elim [] roots) o

/-- A variable is a tree of one node. -/
lemma letter : (letter allocating).Plants [] fun h => [h] :=
  bind (pervasive_grows.one _ _) (of_grows (pervasive_grows.one _ _)) fun c => emit (.var c)

/-- A constant is a tree of one node. -/
lemma number : (number allocating).Plants [] fun h => [h] := by
  refine bind (pervasive_grows.span _) (of_grows (pervasive_grows.span _)) fun digits => ?_
  refine bind (pervasive_grows.note _) (of_grows (pervasive_grows.note _)) fun _ => ?_
  split
  · exact fun _ _ _ _ _ _ _ _ _ _ ran => nomatch ran
  · split
    · exact emit (.const _)
    · exact lack _

variable {inner : Rule Store Handle}

/-- Parentheses plant what is inside them and nothing of their own. -/
lemma parenthesized (grows : inner.Grows) (hi : inner.Plants [] fun h => [h]) :
    (parenthesized inner).Plants [] fun h => [h] := by
  refine bind (pervasive_grows.symbol _ _) (of_grows (pervasive_grows.symbol _ _)) fun _ => ?_
  refine bind (pervasive_grows.nested grows) (nested grows hi) fun inside => ?_
  refine bind pervasive_grows.blanks (of_grows pervasive_grows.blanks) fun _ => ?_
  refine bind (pervasive_grows.symbol _ _) (of_grows (pervasive_grows.symbol _ _)) fun _ => ?_
  cases inside with
  | none => exact lack _
  | some h => exact pure (fun h => [h]) h

/-- A negation is planted over the tree of its operand. -/
lemma negated (grows : inner.Grows) (hi : inner.Plants [] fun h => [h]) :
    (negated allocating inner).Plants [] fun h => [h] := by
  refine bind (pervasive_grows.symbol _ _) (of_grows (pervasive_grows.symbol _ _)) fun _ => ?_
  refine bind (pervasive_grows.nested grows) (nested grows hi) fun inside => ?_
  cases inside with
  | none => exact lack _
  | some h => exact emit (.negation h)

/-- The operators of a series are planted over its operands, from left to right. -/
lemma link (first : Handle) (rest : List (Op × Handle)) :
    (link allocating first rest).Plants (first :: rest.map Prod.snd) fun h => [h] := by
  induction rest generalizing first with
  | nil => exact pure (fun h => [h]) first
  | cons next rest ih =>
    obtain ⟨op, right⟩ := next
    have operator := (emit (.binary op first right)).frame [] (rest.map Prod.snd)
    exact bind (pervasive_grows.emit _ (Node.wellFormed_binary op first right)) operator fun h => ih h

variable {op : Rule Store Op} {operand : Rule Store Handle}

/-- An item plants its operand. -/
lemma item (growsOp : op.Grows) (grows : operand.Grows) (hr : operand.Plants [] fun h => [h]) :
    (item op operand).Plants [] fun a => [a.2] := by
  refine bind pervasive_grows.blanks (of_grows pervasive_grows.blanks) fun _ => ?_
  refine bind growsOp (of_grows growsOp) fun o => ?_
  exact bind grows hr fun right => pure (fun a : Op × Handle => [a.2]) (o, right)

/-- A repetition plants a tree for each item, in their order. -/
lemma upTo {r : Rule Store (Op × Handle)} (grows : r.Grows) (hr : r.Plants [] fun a => [a.2])
    (count : Nat) : (Rule.upTo count r).Plants [] fun as => as.map Prod.snd := by
  induction count with
  | zero => exact pure (fun as : List (Op × Handle) => as.map Prod.snd) []
  | succ count ih =>
    have more (a : Op × Handle) : (do
        let as ← Rule.upTo count r
        return a :: as : Rule Store (List (Op × Handle))).Plants [a.2] fun as => as.map Prod.snd := by
      refine bind (pervasive_grows.upTo grows count) (ih.frame [a.2] []) fun as => ?_
      rw [List.append_nil]
      exact pure (fun as : List (Op × Handle) => as.map Prod.snd) (a :: as)
    refine orElse ?_ (bind grows hr more)
      (pure (fun as : List (Op × Handle) => as.map Prod.snd) [])
    exact pervasive_grows.bind grows fun a =>
      pervasive_grows.bind (pervasive_grows.upTo grows count) fun as => pervasive_grows.pure (a :: as)

/-- A series of trees is linked to a single one. -/
lemma series (growsOp : op.Grows) (grows : operand.Grows) (hr : operand.Plants [] fun h => [h]) :
    (series allocating op operand).Plants [] fun h => [h] := by
  have growsItem := pervasive_grows.item growsOp grows
  have items : (Rule.many (Grammar.item op operand)).Plants [] fun as => as.map Prod.snd :=
    bind pervasive_grows.look (of_grows pervasive_grows.look)
      fun cursor => upTo growsItem (item growsOp grows hr) _
  refine bind grows hr fun first => ?_
  refine bind (pervasive_grows.many growsItem) (items.frame [first] []) fun rest => ?_
  rw [List.append_nil]
  exact link first rest

/-- A sum plants one tree if factors do. -/
lemma sum {factor : Rule Store Handle} (grows : factor.Grows) (h : factor.Plants [] fun h => [h]) :
    (sum allocating factor).Plants [] fun h => [h] :=
  series pervasive_grows.either (pervasive_grows.product grows) (series pervasive_grows.either grows h)

/-- A factor plants one tree, by induction on the levels. -/
lemma factor (levels : Nat) : (factor allocating levels).Plants [] fun h => [h] := by
  induction levels with
  | zero => exact fun _ _ _ _ _ _ _ _ _ _ ran => nomatch ran
  | succ levels ih =>
    have grows := pervasive_grows.factor levels
    have growsSum := pervasive_grows.sum grows
    refine bind pervasive_grows.blanks (of_grows pervasive_grows.blanks) fun _ => ?_
    refine orElse pervasive_grows.letter letter ?_
    refine orElse pervasive_grows.number number ?_
    exact orElse (pervasive_grows.parenthesized growsSum) (parenthesized growsSum (sum grows ih))
      (negated grows ih)

/-- A whole text is planted as one tree. -/
lemma expression : (expression allocating).Plants [] fun h => [h] := by
  have grows := pervasive_grows.factor (nestingLimit + 1)
  refine bind (pervasive_grows.sum grows) (sum grows (factor _)) fun h => ?_
  refine bind pervasive_grows.blanks (of_grows pervasive_grows.blanks) fun _ => ?_
  exact bind pervasive_grows.done (of_grows pervasive_grows.done)
    fun _ => pure (fun h => [h]) h

end Rule.Plants

/-- What is read into a store is one tree of new nodes. -/
theorem read_planted {text : List Char} {s : Store} {h : Handle} {notes : Notes Store}
    (ran : read allocating text s = (some h, notes)) : s.Planted notes.nodes [h] := by
  rw [read] at ran
  rcases e : Rule.apply (expression allocating) ⟨0, text⟩ { nodes := s } with ⟨_ | ⟨h', cursor⟩, notes'⟩
  · rw [e] at ran
    cases ran
  · rw [e] at ran
    cases ran
    exact Rule.Plants.expression s [] [] ⟨0, text⟩ cursor { nodes := s } notes h' le_rfl
      ⟨[], .nil, List.nodup_nil, fun _ mem => absurd mem List.not_mem_nil⟩ e

end Grammar

end ExprOpt
