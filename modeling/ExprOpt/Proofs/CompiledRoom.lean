import ExprOpt.Proofs.CompiledMeaning
import ExprOpt.Proofs.Grammar.Outcomes
import ExprOpt.Proofs.Sweeping.Room

/-!
# Compilation and capacity

Reading and every pass end with nodes that do not depend on the capacity, and so does a compilation: there
is a number of nodes that it takes, any capacity from there on leads to the same result, and any lower one
is reported as exceeded (`compile_capacity`).
-/

namespace ExprOpt

open Grammar

variable {source : String} {nodes : Array Node} {c : Nat} {root : Handle} {t : Tree Kind}

namespace Build

/-- Reading an expression ends with its nodes. -/
lemma parse_endsWith (p : Text source.toList t) (nodes : Array Node) (c : Nat) :
    ∃ r nodes', Store.Unfolds ⟨nodes', c⟩ (some r) t ∧
      ∀ capacity, (parse source).EndsWith capacity nodes r nodes' := by
  obtain ⟨new, count, texts⟩ := run_parse_text p nodes
  have size : (nodes ++ new).size = nodes.size + t.size := by rw [Array.size_append, count]
  refine ⟨_, _, (texts c).1, fun capacity => ?_⟩
  obtain ⟨-, -, -, ran⟩ := texts capacity
  constructor
  · omega
  · intro le
    rw [ran, if_pos (by omega)]
  · intro _ lt
    rw [ran, if_neg (by omega)]
    exact ⟨_, rfl⟩

/-- Which nodes a copy allocates does not depend on the capacity. -/
lemma copyWithout_endsWith (d t : Tree Kind) (nodes : Array Node) :
    ∃ o nodes', ∀ capacity, (copyWithout d t).EndsWith capacity nodes o nodes' := by
  induction t generalizing nodes with
  | nil => exact ⟨none, nodes, fun _ => .pure⟩
  | node k l r ihl ihr =>
    rw [copyWithout]
    split
    · exact ⟨_, _, fun _ => .map (.alloc _)⟩
    · obtain ⟨left, nodes₁, ends₁⟩ := ihl nodes
      obtain ⟨right, nodes₂, ends₂⟩ := ihr nodes₁
      exact ⟨_, _, fun capacity => .bind (ends₁ capacity) (.bind (ends₂ capacity) (.map (.alloc _)))⟩

/-- Unfolding a tree allocates nothing, whatever the capacity. -/
lemma kinds_endsWith {capacity : Nat} (u : Store.Unfolds ⟨nodes, c⟩ (some root) t) :
    (kinds root).EndsWith capacity nodes t nodes := by
  have u' : Store.Unfolds ⟨nodes, capacity⟩ (some root) t := u.recap
  obtain ⟨cells, cs, rfl⟩ := u'.cells
  exact .map (.inspect (Store.unfold_eq_ok_iff.2 cs))

/-- Hoisting ends with nodes that do not depend on the capacity. -/
lemma hoist_endsWith (u : Store.Unfolds ⟨nodes, c⟩ (some root) t) :
    ∃ r nodes', ∀ capacity, (hoist root).EndsWith capacity nodes r nodes' := by
  obtain ⟨o, found⟩ := Duplicate.largest_ok u
  have largest (capacity : Nat) : Duplicate.largest ⟨nodes, capacity⟩ root = .ok o :=
    Duplicate.largest_recap.trans found
  cases o with
  | none => exact ⟨root, nodes, fun capacity => .bind (.inspect (largest capacity)) .pure⟩
  | some hit =>
    obtain ⟨d, ud, -⟩ := u.subtree (Duplicate.reaches_of_largest found)
    obtain ⟨rest, nodes', copies⟩ := copyWithout_endsWith d t nodes
    exact ⟨_, _, fun capacity => .bind (.inspect (largest capacity)) <|
      .bind (kinds_endsWith ud) <| .bind (kinds_endsWith u) <| .bind (copies capacity) <|
      .bind (.alloc _) <| .bind (.alloc _) (.alloc _)⟩

end Build

/-- A pass ends with nodes that do not depend on the capacity, among them the tree of its root. -/
lemma Pass.run_endsWith (pass : Pass) (u : Store.Unfolds ⟨nodes, c⟩ (some root) t) :
    ∃ r nodes' t', Store.Unfolds ⟨nodes', c⟩ (some r) t' ∧
      ∀ capacity, (pass.run root).EndsWith capacity nodes r nodes' := by
  cases pass with
  | fold =>
    obtain ⟨r, nodes', u', ends⟩ := sweep_endsWith Folding.implements (fun _ _ _ _ => rfl) u
    exact ⟨r, nodes', _, u', ends⟩
  | simplify =>
    obtain ⟨r, nodes', u', ends⟩ := sweep_endsWith Peephole.implements (fun _ _ _ _ => rfl) u
    exact ⟨r, nodes', _, u', ends⟩
  | hoist =>
    obtain ⟨r, nodes', ends⟩ := Build.hoist_endsWith u
    have ample : Store.Unfolds ⟨nodes, nodes'.size⟩ (some root) t := u.recap
    rcases (Build.hoist_ensures ample).of_ok ((ends _).fits le_rfl) with u' | ⟨d, -, -, u'⟩
    · exact ⟨r, nodes', _, u'.recap, ends⟩
    · exact ⟨r, nodes', _, u'.recap, ends⟩

/-- So do passes that are run one after the other. -/
lemma passes_endWith (passes : List Pass) (u : Store.Unfolds ⟨nodes, c⟩ (some root) t) :
    ∃ r nodes' t', Store.Unfolds ⟨nodes', c⟩ (some r) t' ∧ ∀ capacity,
      (passes.foldlM (fun root (pass : Pass) => pass.run root) root).EndsWith capacity nodes r nodes' := by
  induction passes generalizing nodes root t with
  | nil => exact ⟨root, nodes, t, u, fun _ => .pure⟩
  | cons pass passes ih =>
    obtain ⟨r₁, nodes₁, t₁, u₁, ends₁⟩ := pass.run_endsWith u
    obtain ⟨r, nodes', t', u', ends⟩ := ih u₁
    refine ⟨r, nodes', t', u', fun capacity => ?_⟩
    rw [List.foldlM_cons]
    exact .bind (ends₁ capacity) (ends capacity)

/-- So does reading an expression and running passes on it. -/
lemma pipeline_endsWith (p : Text source.toList t) (passes : List Pass) (nodes : Array Node) (c : Nat) :
    ∃ r nodes' t', Store.Unfolds ⟨nodes', c⟩ (some r) t' ∧
      ∀ capacity, (Build.pipeline source passes).EndsWith capacity nodes r nodes' := by
  obtain ⟨root, nodes₁, u₁, ends₁⟩ := Build.parse_endsWith p nodes c
  obtain ⟨r, nodes', t', u, ends⟩ := passes_endWith passes u₁
  exact ⟨r, nodes', t', u, fun capacity => .bind (ends₁ capacity) (ends capacity)⟩

/-- A compilation succeeds if reading and all passes do. -/
lemma compile_eq_ok_iff {options : Options} {compiled : Compiled} :
    compile source options = .ok compiled ↔
      (Build.pipeline source options.passes).run { capacity := options.capacity } =
        .ok compiled.root compiled.store ∧ compiled.store.Cells (some compiled.root) compiled.tree := by
  rw [compile, ← Store.unfold_eq_ok_iff]
  cases (Build.pipeline source options.passes).run { capacity := options.capacity } with
  | error e s => simp
  | ok r s =>
    dsimp only
    cases unfolded : s.unfold (some r) with
    | error e =>
      constructor
      · intro ok
        cases ok
      · intro both
        obtain ⟨ran, cells⟩ := both
        cases ran
        cases unfolded.symm.trans cells
    | ok tree =>
      constructor
      · intro ok
        cases ok
        exact ⟨rfl, unfolded⟩
      · intro both
        obtain ⟨ran, cells⟩ := both
        cases ran
        cases unfolded.symm.trans cells
        rfl

/-- A text that is no expression is reported, whatever the options are. -/
lemma compile_malformed (wrong : ¬ ∃ t, Text source.toList t) :
    ∃ report, ∀ options, compile source options = .error (.malformed report) := by
  obtain ⟨report, complaint⟩ := exists_complaint wrong
  refine ⟨report, fun options => ?_⟩
  rw [compile, Build.pipeline, Build.parse, complaint]
  rfl

/-- Capacity decides whether a compilation succeeds and has no influence on what it leads to. A text that
is no expression gets the same report from all compilations. For any other there is a result, depending
on the passes alone, such that a compilation with less capacity than it has nodes fails for lack of room,
and one with as much or more has the same root, the same nodes and the same texts. -/
theorem compile_capacity (source : String) :
    ((¬ ∃ t, Text source.toList t) →
      ∃ report, ∀ options, compile source options = .error (.malformed report)) ∧
    ((∃ t, Text source.toList t) → ∀ options : Options, ∃ full : Compiled, ∀ capacity,
      (capacity < full.store.size →
        compile source { options with capacity } = .error (.outOfNodes capacity)) ∧
      (full.store.size ≤ capacity → ∃ result, compile source { options with capacity } = .ok result ∧
        result.root = full.root ∧ result.store = { full.store with capacity } ∧
        result.outline = full.outline ∧ result.picture = full.picture)) := by
  refine ⟨compile_malformed, ?_⟩
  rintro ⟨t, p⟩ options
  obtain ⟨r, nodes, t', u, all⟩ := pipeline_endsWith p options.passes #[] 0
  obtain ⟨tree, cells, -⟩ := u.cells
  refine ⟨⟨⟨nodes, 0⟩, r, tree⟩, fun capacity => ?_⟩
  have passes : ({ options with capacity } : Options).passes = options.passes := rfl
  rw [compile, passes]
  constructor
  · intro lt
    obtain ⟨s, ran⟩ := (all capacity).short (Nat.zero_le _) lt
    rw [ran]
  · intro le
    have unfolded : Store.unfold ⟨nodes, capacity⟩ (some r) = .ok tree :=
      Store.unfold_eq_ok_iff.2 (cells.extend fun _ _ => id)
    refine ⟨⟨⟨nodes, capacity⟩, r, tree⟩, ?_, rfl, rfl, rfl, rfl⟩
    rw [(all capacity).fits le]
    dsimp only
    rw [unfolded]
    rfl

-- Doubling takes three nodes to read and one more to become a sum.
example : compile "a*2" { capacity := 3 } = .error (.outOfNodes 3) ∧
    ((compile "a*2" { capacity := 4 }).toOption.map fun c => (c.root, c.store.size)) =
      some (⟨3⟩, 4) := by
  decide +kernel

end ExprOpt
