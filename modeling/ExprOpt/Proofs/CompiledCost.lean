import ExprOpt.Proofs.CompiledRoom
import ExprOpt.Proofs.Substitution
import ExprOpt.Proofs.Sweeping.Cost
import ExprOpt.Proofs.Sweeping.Form

/-!
# The nodes that a compilation takes

No pass frees a node, so a store holds what has been read and all that the passes have added. Folding
adds no more than it takes out of the tree, simplification less than half of what is left, and hoisting
less than all of it. Altogether this is less than two and a half times the tree that has been read
(`compile_ample`).
-/

namespace ExprOpt

open Grammar

variable {s s' : Store} {root r : Handle} {t : Tree Kind}

/-- Hoisting adds fewer nodes than the tree has: what is hoisted has three nodes or more and is left out
twice at least, and what comes in is a name in each place and a binding. -/
lemma Build.Hoists.size_lt (hoists : Hoists s root t r s') (u : s.Unfolds (some root) t) :
    s'.size < s.size + t.size := by
  cases hoists with
  | nothing =>
    obtain ⟨n, l, r, -, -, -, rfl⟩ := u.inv
    simp only [Tree.size]
    omega
  | @parts hit d name binding rest _ _ largest ud ext atName atBinding atRoot ur size =>
    obtain ⟨c, cs, rfl⟩ := u.cells
    have rep := Duplicate.repeated_of_largest cs largest
    obtain ⟨d', ud', sized, twice⟩ := rep.two_le_count cs (Duplicate.reaches_of_largest largest)
    cases ud.unique ud'
    have three : 3 ≤ d.size := sized ▸ rep.large
    have total := Tree.size_without d (c.map Cell.kind)
    have left := Nat.mul_le_mul_left ((c.map Cell.kind).subtrees.count d) three
    omega

/-- The tree below the root has `n` nodes at most, and twice as many are enough for the store and a copy
of the tree. -/
structure Store.Affords (s : Store) (n : Nat) (root : Handle) (t : Tree Kind) : Prop where
  unfolds : s.Unfolds (some root) t
  wellFormed : s.WellFormed
  size_le : t.size ≤ n
  total : s.size + t.size ≤ 2 * n

/-- Folding pays for its nodes. -/
lemma fold_affords {n : Nat} (affords : s.Affords n root t) :
    (Build.fold root).Ensures s (fun r s' => ∃ t', s'.Affords n r t') (fun _ _ => True) := by
  have evolves := sweep_evolves Folding.implements affords.unfolds
  have cost := sweep_size_le Folding.implements Folding.abstains affords.unfolds
  refine ((evolves.and cost).and (sweep_reshapes Folding.tidy root s)).weaken ?_ fun _ _ _ => trivial
  intro r s' ⟨⟨⟨_, _, u'⟩, size⟩, reshapes⟩
  have paid := Folding.changes_add_size_le t
  have le := affords.size_le
  have total := affords.total
  refine ⟨_, u', reshapes.keeps_wellFormed affords.wellFormed, ?_, ?_⟩ <;> omega

/-- Simplification adds less than half of the tree. -/
lemma simplify_size_le {n : Nat} (affords : s.Affords n root t) :
    (Build.simplify root).Ensures s
      (fun r s' => ∃ t', s'.Unfolds (some r) t' ∧ 2 * (s'.size + t'.size) < 5 * n) (fun _ _ => True) := by
  have evolves := sweep_evolves Peephole.implements affords.unfolds
  have cost := sweep_size_le Peephole.implements Peephole.abstains affords.unfolds
  refine (evolves.and cost).weaken ?_ fun _ _ _ => trivial
  intro r s' ⟨⟨_, _, u'⟩, size⟩
  have ne : t ≠ .nil := by
    obtain ⟨m, l, r, -, -, -, rfl⟩ := affords.unfolds.inv
    nofun
  have half := Peephole.two_mul_changes_lt ne
  have smaller := Peephole.size_sweep_le (affords.unfolds.wellFormed affords.wellFormed)
  have le := affords.size_le
  have total := affords.total
  exact ⟨_, u', by omega⟩

/-- The passes leave a store of less than two and a half times the nodes that have been read. -/
lemma passes_size_lt (options : Options) {n : Nat} (affords : s.Affords n root t) :
    (options.passes.foldlM (fun root (pass : Pass) => pass.run root) root).Ensures s
      (fun _ s' => 2 * s'.size < 5 * n) (fun _ _ => True) := by
  rw [foldlM_passes]
  refine Build.Ensures.bind (Pass.runIf_ensures .fold (fun _ => fold_affords affords) ⟨t, affords⟩) ?_
  intro r₁ s₁ folded
  obtain ⟨t₁, affords₁⟩ := folded
  have skip : 2 * (s₁.size + t₁.size) < 5 * n := by
    have := affords₁.total
    have := affords₁.size_le
    obtain ⟨m, l, r, -, -, -, rfl⟩ := affords₁.unfolds.inv
    simp only [Tree.size] at *
    omega
  refine Build.Ensures.bind (Pass.runIf_ensures .simplify (fun _ => simplify_size_le affords₁)
    ⟨t₁, affords₁.unfolds, skip⟩) ?_
  intro r₂ s₂ simplified
  obtain ⟨t₂, u₂, size₂⟩ := simplified
  refine Pass.runIf_ensures .hoist (fun _ => (Build.hoist_hoists u₂).weaken ?_ fun _ _ => id) (by omega)
  intro r₃ s₃ hoists
  have less := hoists.size_lt u₂
  omega

/-- What has been read into an empty store can be afforded. -/
lemma parse_affords {source : String} {capacity : Nat} (p : Text source.toList t) :
    (Build.parse source).Ensures { capacity } (fun root s => s.Affords t.size root t)
      (fun _ _ => True) := by
  obtain ⟨new, count, texts⟩ := run_parse_text p #[]
  obtain ⟨u, -, fine, ran⟩ := texts capacity
  have run : (Build.parse source).run { capacity } = _ := ran
  rw [Build.Ensures, run]
  split_ifs
  · refine ⟨u, fun g n found => fine g n (Nat.zero_le _) found, le_rfl, ?_⟩
    simp only [Store.size, Array.size_append, count, Array.size_empty]
    omega
  · trivial

/-- The capacity that a compilation needs: less than two and a half times the nodes of the tree that is
read, whatever passes are switched on. -/
theorem compile_ample {source : String} {options : Options} (p : Text source.toList t)
    (ample : 5 * t.size ≤ 2 * options.capacity) :
    ∃ c, compile source options = .ok c ∧ 2 * c.store.size < 5 * t.size := by
  obtain ⟨r, nodes, t', u, all⟩ := pipeline_endsWith p options.passes #[] options.capacity
  have bound : 2 * nodes.size < 5 * t.size := by
    -- The nodes are the same for any capacity, so count them where they just fit.
    have whole : (Build.pipeline source options.passes).Ensures { capacity := nodes.size }
        (fun _ s' => 2 * s'.size < 5 * t.size) (fun _ _ => True) :=
      (parse_affords p).bind fun root s affords => passes_size_lt options affords
    exact whole.of_ok ((all nodes.size).fits le_rfl)
  have ran := (all options.capacity).fits (by omega)
  obtain ⟨tree, cells, -⟩ := u.cells
  exact ⟨⟨⟨nodes, options.capacity⟩, r, tree⟩, compile_eq_ok_iff.2 ⟨ran, cells⟩, bound⟩

/-- Thirty-three nodes are enough for an expression of thirteen on which all passes are at work. -/
theorem compile_ample_thirteen : ∃ t c, Text "(0-a)*b+(0-a)*(b+0)".toList t ∧ t.size ≤ 13 ∧
    compile "(0-a)*b+(0-a)*(b+0)" { capacity := 33 } = .ok c ∧ 2 * c.store.size < 5 * t.size := by
  have fits : ((Build.parse "(0-a)*b+(0-a)*(b+0)").run' { capacity := 13 }).isSome = true := by
    decide +kernel
  cases ran : (Build.parse "(0-a)*b+(0-a)*(b+0)").run { capacity := 13 } with
  | error e s =>
    delta EStateM.run' at fits
    rw [ran] at fits
    cases fits
  | ok root s =>
    obtain ⟨t, p, -, room⟩ := text_of_run_parse ran
    have size : t.size ≤ 13 := (Nat.le_add_left _ _).trans room
    have ample : 5 * t.size ≤ 2 * 33 := by omega
    obtain ⟨c, ok, bound⟩ := @compile_ample t _ { capacity := 33 } p ample
    exact ⟨t, c, p, size, ok, bound⟩

end ExprOpt
