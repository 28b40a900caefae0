import ExprOpt.Proofs.CompiledRoom
import ExprOpt.Proofs.Substitution
import ExprOpt.Proofs.Sweeping.Sharing

/-!
# Repeated subtrees in a compilation

The search for a repeated subtree compares handles, so it would overlook a subtree that stands twice in
the tree and only once in the store. This does not happen in a compilation: what is read is not shared,
and the passes before the search share leaves only. So a compilation hoists a subtree if and only if the
tree holds one of more than two nodes at two positions, and what it hoists is the largest there is, or the
first of the largest in pre-order (`compile_hoists`).
-/

namespace ExprOpt

open Grammar

/-- The subtree at the position has more than two nodes, stands at another position, too, and is the
first of the largest subtrees that stand at several positions. -/
structure Tree.Foremost (t : Tree Kind) (p : List Side) : Prop where
  twice : ∃ q, q ≠ p ∧ t.down q = t.down p
  large : 2 < (t.down p).size
  largest : ∀ q q', q ≠ q' → t.down q = t.down q' → (t.down q).size ≤ (t.down p).size
  first : ∀ q q', Before q p → q ≠ q' → t.down q = t.down q' → (t.down q).size < (t.down p).size

section

variable {s : Store} {root h : Handle} {c : Tree Cell} {p q : List Side}

/-- A tree of some size has a root. -/
lemma Tree.exists_top? {c : Tree Cell} (large : 2 < c.size) : ∃ h, c.top? = some h := by
  cases c with
  | nil => cases large
  | node cell l r => exact ⟨cell.handle, rfl⟩

/-- A tree of more than two nodes has an operator at its root. -/
lemma Store.Cells.isOperator (w : s.WellFormed) (cs : s.Cells (some h) c) (large : 2 < c.size) :
    c.isOperator h := by
  obtain ⟨n, l, r, found, cl, cr, rfl⟩ := cs.inv
  have op : n.kind.isLeaf = false := by
    cases left : n.left with
    | some d => exact @Node.WellFormed.isLeaf_eq n .left d (w h n found) left
    | none =>
      cases right : n.right with
      | some d => exact @Node.WellFormed.isLeaf_eq n .right d (w h n found) right
      | none =>
        cases (left ▸ cl).nil_inv
        cases (right ▸ cr).nil_inv
        exact absurd large (Nat.not_lt.2 (Nat.le_succ 1))
  simp [Tree.isOperator, op]

/-- No tree stands properly within itself. -/
lemma Tree.eq_nil_of_down_eq {t : Tree Kind} (ne : t ≠ .nil) (e : t.down p = t) : p = [] := by
  cases t with
  | nil => exact absurd rfl ne
  | node k l r =>
    cases p with
    | nil => rfl
    | cons side p => exact absurd e Tree.down_ne_self

namespace Duplicate

/-- In an unshared tree, what stands at two positions has two handles, so that the search can find it. -/
lemma exists_repeated (w : s.WellFormed) (cs : s.Cells (some root) c) (unshared : c.Unshared)
    (ne : p ≠ q) (same : (c.map Cell.kind).down p = (c.map Cell.kind).down q)
    (large : 2 < ((c.map Cell.kind).down p).size) :
    ∃ h, (c.down p).top? = some h ∧ Repeated s root h ((c.map Cell.kind).down p).size := by
  have size (path : List Side) : (c.down path).size = ((c.map Cell.kind).down path).size := by
    rw [Tree.map_down, Tree.size_map]
  have large' := large
  rw [same] at large'
  obtain ⟨h, top⟩ := Tree.exists_top? ((size p).symm ▸ large)
  obtain ⟨g, top'⟩ := Tree.exists_top? ((size q).symm ▸ large')
  have here := cs.down top
  have there := cs.down top'
  have uh := here.unfolds
  have ug := there.unfolds
  rw [← Tree.map_down] at uh ug
  rw [← same] at ug
  refine ⟨h, top, ?_, large, _, uh, rfl, g, ?_, ?_, ug⟩
  · -- The root is the only position that holds the whole tree.
    rintro rfl
    have whole : (c.map Cell.kind).down p = c.map Cell.kind := uh.unique cs.unfolds
    have some : c.map Cell.kind ≠ .nil := by
      obtain ⟨n, l, r, -, -, -, rfl⟩ := cs.inv
      nofun
    have atRoot := Tree.eq_nil_of_down_eq some whole
    have atRoot' := Tree.eq_nil_of_down_eq some (same.symm.trans whole)
    exact ne (atRoot.trans atRoot'.symm)
  · exact cs.mem_handles_iff.1 (Tree.mem_handles_of_down top')
  · rintro rfl
    exact ne (unshared.path_unique (here.isOperator w ((size p).symm ▸ large))
      (there.isOperator w ((size q).symm ▸ large')))

/-- What the search takes for repeated stands at two positions. -/
lemma Repeated.positions {size : Nat} (rep : Repeated s root h size) (cs : s.Cells (some root) c)
    (top : (c.down p).top? = some h) : ((c.map Cell.kind).down p).size = size ∧
      ∃ q, q ≠ p ∧ (c.map Cell.kind).down q = (c.map Cell.kind).down p := by
  have uh := (cs.down top).unfolds
  rw [← Tree.map_down] at uh
  refine ⟨rep.size_eq uh, ?_⟩
  obtain ⟨d, ud, -, g, reached, ne, ug⟩ := rep.again
  cases uh.unique ud
  obtain ⟨q, top'⟩ := Tree.exists_path_of_mem (cs.mem_handles_iff.2 reached)
  refine ⟨q, ?_, ?_⟩
  · rintro rfl
    exact ne (Option.some.inj (top'.symm.trans top))
  · rw [Tree.map_down]
    exact (cs.down top').unfolds.unique ug

/-- In an unshared tree nothing of more than two nodes stands at two positions if the search finds
nothing. -/
lemma size_le_of_largest (w : s.WellFormed) (cs : s.Cells (some root) c) (unshared : c.Unshared)
    (found : largest s root = .ok none) (ne : p ≠ q)
    (same : (c.map Cell.kind).down p = (c.map Cell.kind).down q) :
    ((c.map Cell.kind).down p).size ≤ 2 := by
  obtain ⟨best, found', leads⟩ := largest_leads cs
  cases found.symm.trans found'
  by_contra large
  obtain ⟨h, top, rep⟩ := exists_repeated w cs unshared ne same (Nat.lt_of_not_le large)
  exact leads.not_repeated (Tree.mem_handles_of_down top) rep

/-- What the search finds in an unshared tree is the first of the largest subtrees at several
positions. -/
lemma foremost_of_largest {hit : Hit} (w : s.WellFormed) (cs : s.Cells (some root) c)
    (unshared : c.Unshared) (found : largest s root = .ok (some hit)) :
    ∃ p, (c.down p).top? = some hit.handle ∧ (c.map Cell.kind).Foremost p := by
  obtain ⟨best, found', leads⟩ := largest_leads cs
  cases found.symm.trans found'
  obtain ⟨rep, p, top, earlier⟩ := leads.exists_path
  obtain ⟨size, twice⟩ := rep.positions cs top
  refine ⟨p, top, twice, size ▸ rep.large, ?_, ?_⟩
  · intro q q' ne same
    rw [size]
    rcases Nat.lt_or_ge 2 ((c.map Cell.kind).down q).size with large | small
    · obtain ⟨g, top', rep'⟩ := exists_repeated w cs unshared ne same large
      exact leads.size_le (Tree.mem_handles_of_down top') rep'
    · exact small.trans rep.large.le
  · intro q q' le ne same
    rw [size]
    rcases Nat.lt_or_ge 2 ((c.map Cell.kind).down q).size with large | small
    · obtain ⟨g, top', rep'⟩ := exists_repeated w cs unshared ne same large
      exact earlier q g _ le top' rep'
    · exact small.trans_lt rep.large

end Duplicate

/-- The root of an arithmetic tree is no sequence, as only hoisting makes one. -/
lemma Arithmetic.root_ne_seq {k : Kind} {l r : Tree Kind} (ar : Arithmetic (.node k l r)) :
    k ≠ .op .seq := by
  rintro rfl
  cases ar with
  | binary arith => cases arith

/-- The tree below a root, as it is before anything is hoisted. -/
structure Store.Neat (s : Store) (root : Handle) (c : Tree Cell) : Prop where
  wellFormed : s.WellFormed
  cells : s.Cells (some root) c
  unshared : c.Unshared
  arithmetic : Arithmetic (c.map Cell.kind)

/-- Reading plants a tree. -/
lemma Build.planted_of_run_parse {source : String} {s s' : Store} {root : Handle} {t : Tree Kind}
    (p : Text source.toList t) (ran : (parse source).run s = .ok root s') : s.Planted s' [root] := by
  rw [run_parse_eq p] at ran
  split at ran
  · next read =>
    cases ran
    exact read_planted read
  · cases ran

/-- What is read into an empty store is not shared. -/
lemma parse_neat {source : String} {capacity : Nat} :
    (Build.parse source).Ensures { capacity } (fun root s => ∃ c, s.Neat root c) (fun _ _ => True) := by
  rw [Build.Ensures]
  split
  · next root s' ran =>
    have empty : ({ capacity } : Store).WellFormed := by
      intro h n found
      cases found
    have w : s'.WellFormed := ((Build.parse_stacks source _).of_ok ran).1.keeps_wellFormed empty
    obtain ⟨t, p, tree, -⟩ := text_of_run_parse ran
    obtain ⟨hs, forest, nodup, -⟩ := Build.planted_of_run_parse p ran
    obtain ⟨c, cs, -, rfl⟩ := @Store.Forest.slot _ _ (some root) forest
    obtain ⟨v, b, -, phrase, -⟩ := p
    refine ⟨c, w, cs, Tree.unshared_of_nodup nodup, ?_⟩
    rw [cs.unfolds.unique (Store.tree_eq_ok_iff.1 tree)]
    exact phrase.arithmetic
  · trivial

/-- A sweep by a sound, tidy and sparing rule keeps an expression neat. -/
lemma sweep_neat {edit : Store → Node → Edit} {rule : TreeRule} {R : Option Int64 → Option Int64 → Prop}
    (imp : Implements edit rule) (tidy : Tidy edit) (sparing : Sparing edit) (agree : Agreement R)
    (sound : rule.Sound R) (neat : s.Neat root c) :
    (sweep edit root).Ensures s (fun r s' => ∃ c', s'.Neat r c') (fun _ _ => True) := by
  have evolves := sweep_evolves imp neat.cells.unfolds
  have unshares := sweep_unshared tidy sparing neat.wellFormed neat.cells neat.unshared
  refine ((evolves.and unshares).and (sweep_reshapes tidy root s)).weaken ?_ fun _ _ _ => trivial
  intro r s' ⟨⟨⟨_, _, u'⟩, c', cs', unshared'⟩, reshapes⟩
  refine ⟨c', reshapes.keeps_wellFormed neat.wellFormed, cs', unshared', ?_⟩
  rw [cs'.unfolds.unique u']
  exact (sound.sweep agree _ neat.arithmetic).1

/-- The passes before the search for repeated subtrees leave a neat tree. -/
lemma pipeline_neat (source : String) (options : Options) :
    (Build.pipeline source { options with hoist := false }.passes).Ensures { capacity := options.capacity }
      (fun root s => ∃ c, s.Neat root c) (fun _ _ => True) := by
  refine Build.Ensures.bind parse_neat ?_
  intro root s ⟨c, neat⟩
  rw [foldlM_passes]
  refine Build.Ensures.bind (Pass.runIf_ensures .fold (fun _ => sweep_neat Folding.implements
    Folding.tidy Folding.sparing .defined Folding.sound neat) ⟨c, neat⟩) ?_
  intro root₁ s₁ ⟨c₁, neat₁⟩
  refine Build.Ensures.bind (Pass.runIf_ensures .simplify (fun _ => sweep_neat Peephole.implements
    Peephole.tidy Peephole.sparing .same Peephole.sound neat₁) ⟨c₁, neat₁⟩) ?_
  intro root₂ s₂ neat₂
  exact .pure neat₂

end

/-- Hoisting comes after all other passes. -/
lemma pipeline_hoist (source : String) (options : Options) :
    Build.pipeline source { options with hoist := true }.passes =
      Build.pipeline source { options with hoist := false }.passes >>= Build.hoist := by
  have last : ({ options with hoist := true } : Options).passes =
      ({ options with hoist := false } : Options).passes ++ [.hoist] := by
    simp [Options.passes]
  rw [Build.pipeline, Build.pipeline, last, bind_assoc]
  refine bind_congr fun root => ?_
  rw [List.foldlM_append]
  simp [Pass.run]

/-- What a compilation hoists, measured by the tree that it would lead to without hoisting. The root is a
sequence if and only if two positions of that tree hold the same subtree of more than two nodes. Then the
subtree that has been hoisted is the first of the largest that stand at several positions. -/
theorem compile_hoists {source : String} {options : Options} {c : Compiled}
    (ok : compile source { options with hoist := true } = .ok c) :
    ∃ plain t, compile source { options with hoist := false } = .ok plain ∧
      plain.tree.map Cell.kind = t ∧
      ((c.store.node? c.root).map Node.kind = some (.op .seq) ↔
        ∃ p q, p ≠ q ∧ t.down p = t.down q ∧ 2 < (t.down p).size) ∧
      ((c.store.node? c.root).map Node.kind = some (.op .seq) →
        ∃ p, t.Foremost p ∧ c.tree.map Cell.kind = .hoisted (t.down p) t) := by
  obtain ⟨ran, cells⟩ := compile_eq_ok_iff.1 ok
  rw [pipeline_hoist, EStateM.run_bind] at ran
  cases before : (Build.pipeline source { options with hoist := false }.passes).run
      { capacity := options.capacity } with
  | error e s =>
    rw [before] at ran
    cases ran
  | ok root s =>
    rw [before] at ran
    obtain ⟨tree, w, cs, unshared, arithmetic⟩ := (pipeline_neat source options).of_ok before
    refine ⟨⟨s, root, tree⟩, _, compile_eq_ok_iff.2 ⟨before, cs⟩, rfl, ?_⟩
    generalize c.root = r at *
    generalize c.store = s' at *
    cases (Build.hoist_hoists cs.unfolds).of_ok ran with
    | nothing largest =>
      -- No arithmetical tree has a sequence at its root, and nothing large stands at two positions.
      have other : (s.node? root).map Node.kind ≠ some (.op .seq) := by
        obtain ⟨n, l, r, found, -, -, rfl⟩ := cs.inv
        rw [found]
        exact fun seq => arithmetic.root_ne_seq (Option.some.inj seq)
      refine ⟨iff_of_false other ?_, fun seq => absurd seq other⟩
      intro ⟨p, q, ne, same, large⟩
      exact absurd large (Nat.not_lt.2 (Duplicate.size_le_of_largest w cs unshared largest ne same))
    | @parts hit d name binding rest _ _ largest ud ext atName atBinding atRoot ur _ =>
      obtain ⟨p, top, foremost⟩ := Duplicate.foremost_of_largest w cs unshared largest
      have here : (tree.map Cell.kind).down p = d := by
        rw [Tree.map_down]
        exact (cs.down top).unfolds.unique ud
      have seq : (s'.node? r).map Node.kind = some (.op .seq) := by
        rw [atRoot]
        rfl
      obtain ⟨q, ne, same⟩ := foremost.twice
      refine ⟨iff_of_true seq ⟨p, q, ne.symm, same.symm, foremost.large⟩, fun _ => ⟨p, foremost, ?_⟩⟩
      have whole : s'.Unfolds (some r) (.hoisted d (tree.map Cell.kind)) :=
        .node atRoot (.node atBinding (.node atName .nil .nil) (ud.extend ext)) ur
      rw [here]
      exact cells.unfolds.unique whole

/-- A sum that becomes the same as another only once a product is simplified, to a sum in which a leaf
is shared, is hoisted together with it. -/
theorem compile_hoists_sum : ∃ c plain t p, compile "(x*2-y)/(x+x-y)" {} = .ok c ∧
    compile "(x*2-y)/(x+x-y)" { hoist := false } = .ok plain ∧ plain.tree.map Cell.kind = t ∧
    t.Foremost p ∧ c.tree.map Cell.kind = .hoisted (t.down p) t := by
  have sequence : (compile "(x*2-y)/(x+x-y)" {}).toOption.map (fun c =>
      (c.store.node? c.root).map Node.kind) = some (some (.op .seq)) := by
    decide +kernel
  cases ok : compile "(x*2-y)/(x+x-y)" {} with
  | error e =>
    rw [ok] at sequence
    cases sequence
  | ok c =>
    rw [ok] at sequence
    obtain ⟨plain, t, ok', shape, -, hoisted⟩ := @compile_hoists _ {} c ok
    obtain ⟨p, foremost, tree⟩ := hoisted (Option.some.inj sequence)
    exact ⟨c, plain, t, p, rfl, ok', shape, foremost, tree⟩

end ExprOpt
