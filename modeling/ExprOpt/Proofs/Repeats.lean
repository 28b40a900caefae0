import ExprOpt.Proofs.Positions
import ExprOpt.Proofs.Queries

/-!
# The search for the largest repeated subtree

A node below a root is `Repeated` if it has more than two nodes, is not the root itself and has a node
with another handle below the root that looks the same. The search finds one exactly if there is one. Of
several it returns the first in pre-order of those with the most nodes (`largest_finds_first`). This comes
from what the search has found at any moment among the handles that it has seen (`Duplicate.Leads`).
-/

namespace ExprOpt

namespace Store

variable {s : Store} {o : Option Handle} {root g x : Handle} {c : Tree Cell} {d t : Tree Kind}

/-- At a position stands the tree of the handle that is found there. -/
lemma Cells.down {path : List Side} (cs : s.Cells o c) (top : (c.down path).top? = some g) :
    s.Cells (some g) (c.down path) := by
  induction path generalizing o c with
  | nil =>
    cases cs with
    | nil => cases top
    | node found cl cr =>
      cases top
      exact .node found cl cr
  | cons side path ih =>
    cases cs with
    | nil =>
      rw [Tree.empty_down] at top
      cases top
    | node found cl cr =>
      cases side with
      | left => exact ih cl top
      | right => exact ih cr top

/-- Every handle in the cells of a root can be reached from it. -/
lemma Cells.reaches_of_mem (cs : s.Cells o c) (e : o = some root) (mem : g ∈ c.handles) :
    s.Reaches root g := by
  induction cs generalizing root with
  | nil => cases mem
  | @node h n l r found cl cr ihl ihr =>
    cases e
    rcases List.mem_cons.1 mem with rfl | mem
    · exact .refl
    · rcases List.mem_append.1 mem with mem | mem
      · cases left : n.left with
        | none =>
          cases (left ▸ cl).nil_inv
          cases mem
        | some child => exact .head ⟨n, found, .inl left⟩ (ihl left mem)
      · cases right : n.right with
        | none =>
          cases (right ▸ cr).nil_inv
          cases mem
        | some child => exact .head ⟨n, found, .inr right⟩ (ihr right mem)

/-- The handles on the tree below a root are those that can be reached from it. -/
lemma Cells.mem_handles_iff (cs : s.Cells (some root) c) : g ∈ c.handles ↔ s.Reaches root g := by
  refine ⟨cs.reaches_of_mem rfl, fun path => ?_⟩
  induction path using Relation.ReflTransGen.head_induction_on generalizing c with
  | refl =>
    obtain ⟨n, l, r, -, -, -, rfl⟩ := cs.inv
    exact List.mem_cons_self
  | head child _ ih =>
    obtain ⟨n, found, slot⟩ := child
    obtain ⟨m, l, r, found', cl, cr, rfl⟩ := cs.inv
    cases Option.some.inj (found.symm.trans found')
    rcases slot with e | e
    · exact .tail _ (List.mem_append_left _ (ih (e ▸ cl)))
    · exact .tail _ (List.mem_append_right _ (ih (e ▸ cr)))

/-- `x` stands for the tree `d`, and so does another node of the tree `c`. -/
def Again (s : Store) (c : Tree Cell) (x : Handle) (d : Tree Kind) : Prop :=
  ∃ g ∈ c.handles, g ≠ x ∧ s.Unfolds (some g) d

/-- A copy is another handle with the same tree. -/
lemma isCopy_eq (ux : s.Unfolds (some x) d) (ug : s.Unfolds (some g) t) :
    s.isCopy x g = .ok (decide (g ≠ x ∧ t = d)) := by
  rw [isCopy]
  split
  · rw [decide_eq_false fun both => both.1 ‹_›]
  · rw [alike_eq ux ug]
    simp [*, eq_comm]

/-- A search that goes deep enough finds another node that looks the same if there is one. -/
lemma occursWithin_iff {depth : Nat} {found : Bool} (ux : s.Unfolds (some x) d) (cs : s.Cells o c)
    (ran : s.occursWithin x depth o = .ok found) : found = true ↔ s.Again c x d := by
  induction cs generalizing depth found with
  | nil =>
    cases depth <;> cases ran <;> simp [Again, Tree.handles]
  | @node h n l r foundNode cl cr ihl ihr =>
    cases depth with
    | zero => cases ran
    | succ depth =>
      have here := isCopy_eq ux (.node foundNode cl.unfolds cr.unfolds)
      have split : s.Again (.node ⟨h, n.kind⟩ l r) x d ↔
          (h ≠ x ∧ .node n.kind (l.map Cell.kind) (r.map Cell.kind) = d) ∨
            s.Again l x d ∨ s.Again r x d := by
        have tree : s.Unfolds (some h) d ↔ .node n.kind (l.map Cell.kind) (r.map Cell.kind) = d :=
          ⟨(Unfolds.node foundNode cl.unfolds cr.unfolds).unique,
            fun e => e ▸ .node foundNode cl.unfolds cr.unfolds⟩
        simp only [Again, Tree.handles, List.mem_cons, List.mem_append, or_and_right, exists_or,
          exists_eq_left, tree]
      rw [occursWithin, here] at ran
      rw [split]
      simp only [bind, Except.bind, node_eq_ok foundNode] at ran
      -- The node itself is looked at first, then the trees on its left and on its right.
      by_cases copy : h ≠ x ∧ .node n.kind (l.map Cell.kind) (r.map Cell.kind) = d
      · rw [decide_eq_true copy] at ran
        cases ran
        simp only [copy, not_false_eq_true, and_self, true_or, ne_eq]
      · rw [decide_eq_false copy] at ran
        cases left : s.occursWithin x depth n.left with
        | error e =>
          rw [left] at ran
          cases ran
        | ok foundLeft =>
          rw [left] at ran
          have onLeft := ihl left
          cases foundLeft with
          | true =>
            cases ran
            exact iff_of_true rfl (.inr (.inl (onLeft.1 rfl)))
          | false =>
            have onRight := ihr ran
            have notLeft : ¬ s.Again l x d := fun again => Bool.false_ne_true (onLeft.2 again)
            rw [onRight]
            simp only [copy, notLeft, false_or]

/-- The search for a tree below a root finds another node that looks the same, if there is one. -/
theorem occurs_iff {found : Bool} (ux : s.Unfolds (some x) d) (cs : s.Cells (some root) c)
    (ran : s.occurs x (some root) = .ok found) : found = true ↔ s.Again c x d :=
  occursWithin_iff ux cs ran

end Store

namespace Duplicate

variable {s : Store} {root n : Handle} {c : Tree Cell} {t : Tree Kind} {hits hits' : List Hit}

/-- The node at `h` below the root has `size` nodes, which is more than two, and there is another node
below the root that looks the same. -/
structure Repeated (s : Store) (root h : Handle) (size : Nat) : Prop where
  inner : h ≠ root
  large : 2 < size
  again : ∃ d, s.Unfolds (some h) d ∧ d.size = size ∧
    ∃ g, s.Reaches root g ∧ g ≠ h ∧ s.Unfolds (some g) d

/-- What the search has found among the handles that it has seen: none of them is repeated, or the hit is
the first of the largest ones that are. -/
inductive Leads (s : Store) (root : Handle) : List Handle → Option Hit → Prop where
  | nowhere {seen} :
    (∀ h ∈ seen, ∀ size, ¬ Repeated s root h size) →
    Leads s root seen none
  | first {before hit after} :
    Repeated s root hit.handle hit.size →
    (∀ h ∈ before, ∀ size, Repeated s root h size → size < hit.size) →
    (∀ h ∈ after, ∀ size, Repeated s root h size → size ≤ hit.size) →
    Leads s root (before ++ hit.handle :: after) (some hit)

/-- Candidates always have more than two nodes. -/
lemma two_le_threshold (hits : List Hit) : 2 ≤ threshold hits := by
  cases hits with
  | nil => exact le_rfl
  | cons hit hits => exact Nat.le_max_left _ _

/-- The size of a repeated node is that of the tree below it. -/
lemma Repeated.size_eq {h : Handle} {size : Nat} (rep : Repeated s root h size)
    (u : s.Unfolds (some h) t) : t.size = size := by
  obtain ⟨d, ud, e, -⟩ := rep.again
  rw [u.unique ud, e]

/-- Without a hit none of the handles that have been seen is repeated. -/
lemma Leads.not_repeated {seen : List Handle} {h : Handle} {size : Nat}
    (leads : Leads s root seen none) (mem : h ∈ seen) : ¬ Repeated s root h size := by
  cases leads with
  | nowhere no => exact no h mem size

/-- Nothing that has been seen is larger than what leads. -/
lemma Leads.size_le {seen : List Handle} {hit : Hit} {h : Handle} {size : Nat}
    (leads : Leads s root seen (some hit)) (mem : h ∈ seen) (rep : Repeated s root h size) :
    size ≤ hit.size := by
  cases leads with
  | first best before after =>
    rcases List.mem_append.1 mem with mem | mem
    · exact (before h mem size rep).le
    · cases mem with
      | head =>
        obtain ⟨d, ud, e, -⟩ := best.again
        exact ((rep.size_eq ud).symm.trans e).le
      | tail _ mem => exact after h mem size rep

/-- What leads the handles of a tree stands at a position before which there is nothing as large. -/
lemma Leads.exists_path {hit : Hit} (leads : Leads s root c.handles (some hit)) :
    Repeated s root hit.handle hit.size ∧ ∃ p, (c.down p).top? = some hit.handle ∧
      ∀ q g size, Before q p → (c.down q).top? = some g → Repeated s root g size → size < hit.size := by
  generalize split : c.handles = seen at leads
  cases leads with
  | first best smaller _ =>
    obtain ⟨p, top, earlier⟩ := Tree.exists_first_path split
    exact ⟨best, p, top, fun q g size before there => smaller g (earlier q g before there) size⟩

/-- A larger repeated node takes the lead. -/
lemma Leads.overtake {seen : List Handle} {size : Nat} (leads : Leads s root seen hits.head?)
    (rep : Repeated s root n size) (larger : threshold hits < size) :
    Leads s root (seen ++ [n]) (some ⟨n, size⟩) := by
  suffices smaller : ∀ h ∈ seen, ∀ size', Repeated s root h size' → size' < size from
    @Leads.first s root seen ⟨n, size⟩ [] rep smaller fun h mem => nomatch mem
  intro h mem size' rep'
  cases hits with
  | nil => exact absurd rep' (leads.not_repeated mem)
  | cons hit hits =>
    have limit : hit.size < size := (Nat.le_max_right _ _).trans_lt larger
    exact (leads.size_le mem rep').trans_lt limit

/-- A node that is not repeated, or no larger than the hit, changes nothing. -/
lemma Leads.stay {seen : List Handle} (leads : Leads s root seen hits.head?)
    (no : ∀ size, Repeated s root n size → size ≤ threshold hits) :
    Leads s root (seen ++ [n]) hits.head? := by
  cases hits with
  | nil =>
    refine .nowhere fun h mem size rep => ?_
    rcases List.mem_append.1 mem with mem | mem
    · exact leads.not_repeated mem rep
    · cases List.mem_singleton.1 mem
      exact Nat.lt_irrefl _ (rep.large.trans_le (no size rep))
  | cons hit hits =>
    have limit : threshold (hit :: hits) ≤ hit.size := by
      cases leads with
      | first best => exact Nat.max_le.2 ⟨best.large.le, le_rfl⟩
    cases leads with
    | first best before after =>
      rw [List.append_assoc]
      refine .first best before fun h mem size rep => ?_
      rcases List.mem_append.1 mem with mem | mem
      · exact after h mem size rep
      · cases List.mem_singleton.1 mem
        exact (no size rep).trans limit

/-- What it means for a node to be repeated, as the search looks at it. -/
lemma repeated_iff (cs : s.Cells (some root) c) (u : s.Unfolds (some n) t) :
    Repeated s root n t.size ↔ n ≠ root ∧ 2 < t.size ∧ s.Again c n t := by
  constructor
  · intro rep
    obtain ⟨d, ud, -, g, path, ne, ug⟩ := rep.again
    cases u.unique ud
    exact ⟨rep.inner, rep.large, g, cs.mem_handles_iff.2 path, ne, ug⟩
  · intro ⟨ne, large, g, mem, other, ug⟩
    exact ⟨ne, large, t, u, rfl, g, cs.mem_handles_iff.1 mem, other, ug⟩

/-- Considering a node keeps the lead right. -/
lemma consider_leads {seen : List Handle} (cs : s.Cells (some root) c) (u : s.Unfolds (some n) t)
    (leads : Leads s root seen hits.head?) (ran : (consider s root n).run hits = .ok () hits') :
    Leads s root (seen ++ [n]) hits'.head? := by
  obtain ⟨again, occurs⟩ := Store.occurs_ok u cs.unfolds
  have found := Store.occurs_iff u cs occurs
  have here := repeated_iff cs u
  rcases consider_cases ran with rfl | ⟨size, ne, sized, larger, occurs', rfl⟩
  · -- The hits are the same, so the node is not repeated or not large enough.
    refine leads.stay fun size rep => ?_
    cases rep.size_eq u
    obtain ⟨ne, large, other⟩ := here.1 rep
    rw [found.2 other] at occurs
    by_contra more
    rw [consider, if_neg ne, Store.treeSize_eq u, occurs] at ran
    have larger : threshold hits' < t.size := Nat.lt_of_not_le more
    have ran' : EStateM.run (if threshold hits' < t.size then _ else _) hits' = _ := ran
    rw [if_pos larger] at ran'
    have grown : (⟨n, t.size⟩ :: hits' : List Hit) = hits' := by
      injection ran'
    exact List.cons_ne_self _ _ grown
  · rw [Store.treeSize_eq u] at sized
    cases sized
    rw [occurs] at occurs'
    cases occurs'
    exact leads.overtake (here.2 ⟨ne, (two_le_threshold hits).trans_lt larger, found.1 rfl⟩) larger

/-- Going through a tree in pre-order keeps the lead right. -/
lemma surveyWithin_leads {o : Option Handle} {b : Tree Cell} {depth : Nat} {seen : List Handle}
    (cs : s.Cells (some root) c) (below : s.Cells o b) (leads : Leads s root seen hits.head?)
    (ran : (surveyWithin s root depth o).run hits = .ok () hits') :
    Leads s root (seen ++ b.handles) hits'.head? := by
  induction below generalizing depth seen hits hits' with
  | nil =>
    have same : hits' = hits := by cases depth <;> cases ran <;> rfl
    rw [same, Tree.handles, List.append_nil]
    exact leads
  | @node h m l r found cl cr ihl ihr =>
    cases depth with
    | zero => cases ran
    | succ depth =>
      obtain ⟨_, hits₁, ranHere, ran'⟩ := run_bind_eq_ok ran
      obtain ⟨m', _, ranLook, ranBelow⟩ := run_bind_eq_ok ran'
      obtain ⟨found', rfl⟩ := run_look_eq_ok ranLook
      cases Option.some.inj (found.symm.trans (Store.node_eq_ok_iff.1 found'))
      obtain ⟨_, hits₂, ranLeft, ranRight⟩ := run_bind_eq_ok ranBelow
      have here := consider_leads cs (.node found cl.unfolds cr.unfolds) leads ranHere
      have all := ihr (ihl here ranLeft) ranRight
      rw [List.append_assoc, List.append_assoc, List.singleton_append] at all
      exact all

/-- The search comes to an end, and what it finds leads all handles below the root. -/
theorem largest_leads (cs : s.Cells (some root) c) :
    ∃ best, largest s root = .ok best ∧ Leads s root c.handles best := by
  have deep : (c.map Cell.kind).height ≤ s.size + 1 := by
    have := cs.unfolds.height_le
    omega
  obtain ⟨hits, ran⟩ := surveyWithin_ok cs.unfolds cs.unfolds deep []
  refine ⟨hits.head?, by rw [largest, survey, ran], ?_⟩
  have start : Leads s root [] ([] : List Hit).head? := .nowhere fun h mem => absurd mem List.not_mem_nil
  exact surveyWithin_leads cs cs start ran

end Duplicate

open Duplicate (Repeated)

/-- In a store without dangling handles and cycles, the search below a root comes to an end. It finds
nothing if and only if no node below the root is repeated. What it finds otherwise is a repeated node below
the root that no other one exceeds, and it stands at a position that comes, in pre-order, before all others
with a repeated node of this size. -/
theorem largest_finds_first {s : Store} {root : Handle} (closed : s.Closed) (acyclic : s.Acyclic)
    (allocated : root.index < s.size) :
    ∃ c best, s.unfold (some root) = .ok c ∧ Duplicate.largest s root = .ok best ∧
      (best = none ↔ ¬ ∃ h size, s.Reaches root h ∧ Repeated s root h size) ∧
      ∀ hit, best = some hit → s.Reaches root hit.handle ∧ Repeated s root hit.handle hit.size ∧
        (∀ h size, s.Reaches root h → Repeated s root h size → size ≤ hit.size) ∧
        ∃ p, (c.down p).top? = some hit.handle ∧
          ∀ q g size, Before q p → (c.down q).top? = some g → Repeated s root g size →
            size < hit.size := by
  obtain ⟨t, u⟩ := Store.Grounded.of_closed_acyclic closed acyclic root allocated
  obtain ⟨c, cs, -⟩ := u.cells
  obtain ⟨best, found, leads⟩ := Duplicate.largest_leads cs
  refine ⟨c, best, Store.unfold_eq_ok_iff.2 cs, found, ?_, ?_⟩
  · cases best with
    | none =>
      refine iff_of_true rfl fun ⟨h, size, path, rep⟩ => ?_
      exact leads.not_repeated (cs.mem_handles_iff.2 path) rep
    | some hit =>
      refine iff_of_false nofun (not_not.2 ⟨hit.handle, hit.size, ?_, leads.exists_path.1⟩)
      exact Duplicate.reaches_of_largest found
  · intro hit e
    cases e
    obtain ⟨rep, first⟩ := leads.exists_path
    refine ⟨Duplicate.reaches_of_largest found, rep, fun h size path rep' => ?_, first⟩
    exact leads.size_le (cs.mem_handles_iff.2 path) rep'

/-- A store with `q - q` at 9, where `q` is `(x + y) * (y - x) / ((y - x) + (x + y))`. There are two nodes
for the sum and two for the difference, but only one for `q`. -/
def tiedRepeats : Store where
  nodes := #[.var 'x', .var 'y', .binary .add ⟨0⟩ ⟨1⟩, .binary .sub ⟨1⟩ ⟨0⟩, .binary .add ⟨0⟩ ⟨1⟩,
    .binary .sub ⟨1⟩ ⟨0⟩, .binary .mul ⟨2⟩ ⟨3⟩, .binary .add ⟨5⟩ ⟨4⟩, .binary .div ⟨6⟩ ⟨7⟩,
    .binary .sub ⟨8⟩ ⟨8⟩]
  capacity := 16

/-- The sum is found: it is as large as the difference and comes before it, and the larger quotient is not
repeated, because it has a single node. -/
theorem largest_finds_first_tiedRepeats : ∃ c p, tiedRepeats.unfold (some ⟨9⟩) = .ok c ∧
    Duplicate.largest tiedRepeats ⟨9⟩ = .ok (some ⟨⟨2⟩, 3⟩) ∧ (c.down p).top? = some ⟨2⟩ ∧
    (∀ h size, tiedRepeats.Reaches ⟨9⟩ h → Repeated tiedRepeats ⟨9⟩ h size → size ≤ 3) ∧
    ∀ q g size, Before q p → (c.down q).top? = some g → Repeated tiedRepeats ⟨9⟩ g size → size < 3 := by
  have ground : tiedRepeats.Grounded := by decide
  obtain ⟨closed, acyclic⟩ := ground.closed_acyclic
  have sum : Duplicate.largest tiedRepeats ⟨9⟩ = .ok (some ⟨⟨2⟩, 3⟩) := by decide +kernel
  obtain ⟨c, best, unfolded, found, -, hits⟩ := @largest_finds_first _ ⟨9⟩ closed acyclic (by decide)
  cases sum.symm.trans found
  obtain ⟨-, -, most, p, top, first⟩ := hits _ rfl
  exact ⟨c, p, unfolded, sum, top, most, first⟩

end ExprOpt
