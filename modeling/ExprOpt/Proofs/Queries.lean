import ExprOpt.Outline
import ExprOpt.Picture
import ExprOpt.Proofs.Cells
import ExprOpt.Proofs.HoistedTree

/-!
# The answers of the queries

Below a handle that unfolds every query has an answer: trees are compared as trees
(`alike_eq`), counted as trees (`treeSize_eq`) and shown (`outline_eq`, `picture_eq`), and the search
for a repeated subtree comes to its end (`largest_ok`). No answer depends on how many nodes the store
could hold (`largest_recap`).
-/

namespace ExprOpt

namespace Store

variable {s : Store} {a b o : Option Handle} {t u : Tree Kind} {depth : Nat}

/-- A node that is there is found. -/
lemma node_eq_ok {h : Handle} {n : Node} (found : s.node? h = some n) : s.node h = .ok n :=
  node_eq_ok_iff.2 found

/-- A comparison that goes deep enough tells whether two trees are the same. -/
lemma alikeWithin_eq (ua : s.Unfolds a t) (ub : s.Unfolds b u) (le : t.height ≤ depth) :
    s.alikeWithin depth a b = .ok (decide (t = u)) := by
  induction ua generalizing b u depth with
  | nil =>
    cases ub with
    | nil => cases depth <;> rfl
    | node => cases depth <;> rfl
  | @node h n l r found ul ur ihl ihr =>
    cases depth with
    | zero => exact absurd le (by simp [Tree.height])
    | succ depth =>
      simp only [Tree.height] at le
      cases ub with
      | nil => rfl
      | @node h' n' l' r' found' ul' ur' =>
        have left : s.alikeWithin depth n.left n'.left = _ := ihl ul' (by omega)
        have right : s.alikeWithin depth n.right n'.right = _ := ihr ur' (by omega)
        simp only [alikeWithin, node_eq_ok found, node_eq_ok found', left, right, bind, Except.bind,
          Tree.node.injEq]
        -- The kinds are compared first, then the left trees, then the right ones.
        by_cases kind : n.kind = n'.kind
        · by_cases same : l = l'
          · simp [kind, same]
          · simp [kind, same]
        · simp [kind]

/-- Two handles are alike if the trees below them are the same. -/
theorem alike_eq (ua : s.Unfolds a t) (ub : s.Unfolds b u) : s.alike a b = .ok (decide (t = u)) :=
  alikeWithin_eq ua ub (by have := ua.height_le; omega)

/-- The number of nodes below a handle is that of its tree. -/
theorem treeSize_eq (u : s.Unfolds o t) : s.treeSize o = .ok t.size := by
  obtain ⟨c, cs, rfl⟩ := u.cells
  have unfolded : s.unfoldWithin (s.size + 1) o = .ok c := unfold_eq_ok_iff.2 cs
  rw [treeSize, treeSizeWithin_eq, unfolded, Tree.size_map]
  rfl

/-- The outline of a handle is that of the tree below it. -/
theorem outline_eq {h : Handle} (u : s.Unfolds (some h) t) : s.outline h = .ok (Outline.text t) := by
  obtain ⟨c, cs, rfl⟩ := u.cells
  rw [outline, unfold_eq_ok_iff.2 cs]
  rfl

/-- The picture of a handle is that of the cells below it. -/
theorem picture_eq {h : Handle} {c : Tree Cell} (cs : s.Cells (some h) c) :
    s.picture h = .ok (Picture.text c) := by
  rw [picture, unfold_eq_ok_iff.2 cs]
  rfl

/-- The search for a copy comes to an answer where both handles have trees below them. -/
lemma occursWithin_ok {x : Handle} (ux : s.Unfolds (some x) u) (uo : s.Unfolds o t)
    (le : t.height ≤ depth) : ∃ found, s.occursWithin x depth o = .ok found := by
  induction uo generalizing depth with
  | nil => cases depth <;> exact ⟨false, rfl⟩
  | @node h n l r found ul ur ihl ihr =>
    cases depth with
    | zero => exact absurd le (by simp [Tree.height])
    | succ depth =>
      simp only [Tree.height] at le
      have copy : ∃ copy, s.isCopy x h = .ok copy := by
        rw [isCopy, alike_eq ux (.node found ul ur)]
        split
        · exact ⟨_, rfl⟩
        · exact ⟨_, rfl⟩
      obtain ⟨copy, copied⟩ := copy
      obtain ⟨left, left_eq⟩ : ∃ found, s.occursWithin x depth n.left = .ok found := ihl (by omega)
      obtain ⟨right, right_eq⟩ : ∃ found, s.occursWithin x depth n.right = .ok found := ihr (by omega)
      simp only [occursWithin, copied, node_eq_ok found, left_eq, right_eq, bind, Except.bind]
      cases copy with
      | true => exact ⟨true, rfl⟩
      | false =>
        cases left with
        | true => exact ⟨true, rfl⟩
        | false => exact ⟨right, rfl⟩

/-- The search for a tree in another one has an answer. -/
theorem occurs_ok {x : Handle} (ux : s.Unfolds (some x) u) (uo : s.Unfolds o t) :
    ∃ found, s.occurs x o = .ok found :=
  occursWithin_ok ux uo (by have := uo.height_le; omega)

end Store

namespace Duplicate

variable {s : Store} {root : Handle} {T : Tree Kind}

/-- A node with a tree below it can always be considered. -/
lemma consider_ok {n : Handle} {t : Tree Kind} (ur : s.Unfolds (some root) T)
    (un : s.Unfolds (some n) t) (hits : List Hit) :
    ∃ hits', (consider s root n).run hits = .ok () hits' := by
  obtain ⟨again, occurs⟩ := Store.occurs_ok un ur
  rw [consider, Store.treeSize_eq un, occurs]
  split
  · exact ⟨hits, rfl⟩
  · show ∃ hits', EStateM.run (if threshold hits < t.size then _ else _) hits = _
    split
    · cases again with
      | false => exact ⟨hits, rfl⟩
      | true => exact ⟨⟨n, t.size⟩ :: hits, rfl⟩
    · exact ⟨hits, rfl⟩

/-- A survey of a tree never fails. -/
lemma surveyWithin_ok {o : Option Handle} {t : Tree Kind} {depth : Nat}
    (ur : s.Unfolds (some root) T) (uo : s.Unfolds o t) (le : t.height ≤ depth) (hits : List Hit) :
    ∃ hits', (surveyWithin s root depth o).run hits = .ok () hits' := by
  induction uo generalizing depth hits with
  | nil => cases depth <;> exact ⟨hits, rfl⟩
  | @node h n l r found ul ur' ihl ihr =>
    cases depth with
    | zero => exact absurd le (by simp [Tree.height])
    | succ depth =>
      simp only [Tree.height] at le
      obtain ⟨hits₁, here⟩ := consider_ok ur (.node found ul ur') hits
      have lower : l.height ≤ depth ∧ r.height ≤ depth := by omega
      obtain ⟨hits₂, left⟩ := ihl lower.1 hits₁
      obtain ⟨hits₃, right⟩ := ihr lower.2 hits₂
      refine ⟨hits₃, ?_⟩
      rw [surveyWithin, EStateM.run_bind, here]
      dsimp only
      rw [Store.node_eq_ok found]
      show (surveyWithin s root depth n.left >>= fun _ => surveyWithin s root depth n.right).run hits₁ = _
      rw [EStateM.run_bind, left]
      exact right

/-- The search for the largest repeated subtree has an answer. -/
theorem largest_ok (u : s.Unfolds (some root) T) : ∃ o, largest s root = .ok o := by
  have deep : T.height ≤ s.size + 1 := by
    have := u.height_le
    omega
  obtain ⟨hits, ran⟩ := surveyWithin_ok u u deep []
  refine ⟨hits.head?, ?_⟩
  rw [largest, survey, ran]

end Duplicate

/-! ### Capacity -/

section

variable {nodes : Array Node} {c c' : Nat}

/-- The tree below a handle does not depend on the capacity. -/
lemma Store.Unfolds.recap {o : Option Handle} {t : Tree Kind} (u : Unfolds ⟨nodes, c⟩ o t) :
    Unfolds ⟨nodes, c'⟩ o t :=
  u.extend fun _ _ => id

/-- Sizes do not depend on the capacity. -/
lemma Store.treeSizeWithin_recap : treeSizeWithin ⟨nodes, c⟩ = treeSizeWithin ⟨nodes, c'⟩ := by
  funext depth o
  induction depth generalizing o with
  | zero => cases o <;> rfl
  | succ depth ih =>
    cases o with
    | none => rfl
    | some h =>
      simp only [treeSizeWithin, ih]
      rfl

/-- Comparisons do not depend on the capacity. -/
lemma Store.alikeWithin_recap : alikeWithin ⟨nodes, c⟩ = alikeWithin ⟨nodes, c'⟩ := by
  funext depth a b
  induction depth generalizing a b with
  | zero => cases a <;> cases b <;> rfl
  | succ depth ih =>
    cases a with
    | none => cases b <;> rfl
    | some a =>
      cases b with
      | none => rfl
      | some b =>
        simp only [alikeWithin, ih]
        rfl

/-- Whether there is a copy does not depend on the capacity. -/
lemma Store.occursWithin_recap {x : Handle} :
    occursWithin ⟨nodes, c⟩ x = occursWithin ⟨nodes, c'⟩ x := by
  have copy : isCopy ⟨nodes, c⟩ x = isCopy ⟨nodes, c'⟩ x := by
    funext n
    rw [isCopy, alike, alikeWithin_recap]
    rfl
  funext depth o
  induction depth generalizing o with
  | zero => cases o <;> rfl
  | succ depth ih =>
    cases o with
    | none => rfl
    | some h =>
      simp only [occursWithin, ih, copy]
      rfl

/-- What a survey finds does not depend on the capacity. -/
lemma Duplicate.surveyWithin_recap {root : Handle} :
    surveyWithin ⟨nodes, c⟩ root = surveyWithin ⟨nodes, c'⟩ root := by
  have each : consider ⟨nodes, c⟩ root = consider ⟨nodes, c'⟩ root := by
    funext n
    rw [consider, Store.treeSize, Store.treeSizeWithin_recap, Store.occurs, Store.occursWithin_recap]
    rfl
  funext depth o
  induction depth generalizing o with
  | zero => cases o <;> rfl
  | succ depth ih =>
    cases o with
    | none => rfl
    | some h =>
      simp only [surveyWithin, ih, each]
      rfl

/-- The capacity plays no part in the search for a repeated subtree. -/
theorem Duplicate.largest_recap {root : Handle} : largest ⟨nodes, c⟩ root = largest ⟨nodes, c'⟩ root := by
  rw [largest, survey, surveyWithin_recap]
  rfl

end

end ExprOpt
