import ExprOpt.Proofs.Unfolding

/-!
# Computations on a store

`Build.Ensures` says where a computation ends up, whether it succeeds or fails, with one rule for each
way of putting computations together and one for each operation of the store. The second part says
what the two kinds of write do to the trees of a store: an allocation leaves all of them alone
(`Unfolds.extend`), and a write to one node leaves those alone that are lower than the tree below that
node (`Unfolds.write_lower`).
-/

namespace ExprOpt

/-- The store with one more node. -/
def Store.push (s : Store) (n : Node) : Store := { s with nodes := s.nodes.push n }

/-- Every node of one store is a node of the other. -/
def Store.Extends (s s' : Store) : Prop := ∀ g n, s.node? g = some n → s'.node? g = some n

/-- The outcomes of runs can be compared, so that single runs can be evaluated. -/
instance decidableEqOutcome {α : Type} [DecidableEq α] : DecidableEq (EStateM.Result Error Store α)
  | .ok a s, .ok b s' => decidable_of_iff (a = b ∧ s = s') (by rw [EStateM.Result.ok.injEq])
  | .error e s, .error e' s' => decidable_of_iff (e = e' ∧ s = s') (by rw [EStateM.Result.error.injEq])
  | .ok a s, .error e' s' => .isFalse (by intro e; cases e)
  | .error e s, .ok b s' => .isFalse (by intro e; cases e)

namespace Build

variable {α β : Type} {s : Store} {Q : α → Store → Prop} {E : Error → Store → Prop}

/-- The computation ends in a value and a store that satisfy `Q`, or in an error and a store that
satisfy `E`. -/
def Ensures (b : Build α) (s : Store) (Q : α → Store → Prop) (E : Error → Store → Prop) : Prop :=
  match b.run s with
  | .ok a s' => Q a s'
  | .error e s' => E e s'

/-- A run of two computations goes on where the first one has succeeded. -/
lemma run_bind_of_ok {b : Build α} {f : α → Build β} {a : α} {s' : Store}
    (ran : b.run s = .ok a s') : (b >>= f).run s = (f a).run s' := by
  rw [EStateM.run_bind, ran]

/-- A successful run ends where the computation ensures. -/
lemma Ensures.of_ok {b : Build α} {a s'} (en : b.Ensures s Q E) (e : b.run s = .ok a s') :
    Q a s' := by
  rw [Ensures, e] at en
  exact en

/-- What a computation ensures may be weakened. -/
lemma Ensures.weaken {b : Build α} {Q' : α → Store → Prop} {E' : Error → Store → Prop}
    (en : b.Ensures s Q' E') (q : ∀ a s', Q' a s' → Q a s') (x : ∀ e s', E' e s' → E e s') :
    b.Ensures s Q E := by
  rw [Ensures] at en ⊢
  cases e : b.run s with
  | ok a s' =>
    rw [e] at en
    exact q a s' en
  | error err s' =>
    rw [e] at en
    exact x err s' en

/-- Two facts about the end of one run hold together. -/
lemma Ensures.and {b : Build α} {Q' : α → Store → Prop} {E' : Error → Store → Prop}
    (en : b.Ensures s Q E) (en' : b.Ensures s Q' E') :
    b.Ensures s (fun a s' => Q a s' ∧ Q' a s') (fun e s' => E e s' ∧ E' e s') := by
  rw [Ensures] at en en' ⊢
  cases e : b.run s with
  | ok a s' =>
    rw [e] at en en'
    exact ⟨en, en'⟩
  | error err s' =>
    rw [e] at en en'
    exact ⟨en, en'⟩

/-- A run of two computations ends where the second does, or where the first one failed. -/
lemma Ensures.bind {b : Build α} {f : α → Build β} {R : β → Store → Prop}
    (first : b.Ensures s Q E) (second : ∀ a s', Q a s' → (f a).Ensures s' R E) :
    (b >>= f).Ensures s R E := by
  rw [Ensures] at first ⊢
  rw [EStateM.run_bind]
  cases e : b.run s with
  | ok a s' =>
    rw [e] at first
    exact second a s' first
  | error err s' =>
    rw [e] at first
    exact first

/-- Returning a value leaves the store alone. -/
lemma Ensures.pure {a : α} (q : Q a s) : (pure a : Build α).Ensures s Q E := q

/-- A function of the value leaves the store alone. -/
lemma Ensures.map {b : Build α} {f : α → β} {R : β → Store → Prop}
    (en : b.Ensures s (fun a s' => R (f a) s') E) : (f <$> b).Ensures s R E := by
  rw [← bind_pure_comp]
  exact en.bind fun _ _ post => .pure post

/-- A computation that begins with asking for the store goes on with the store. -/
lemma Ensures.get_bind {f : Store → Build α} (rest : (f s).Ensures s Q E) :
    (get >>= f).Ensures s Q E := rest

/-- What is read off the store leaves it alone. -/
lemma Ensures.inspect {read : Store → Except Error α} (there : ∀ a, read s = .ok a → Q a s)
    (missing : ∀ e, read s = .error e → E e s) : (inspect read).Ensures s Q E := by
  rw [Ensures, run_inspect]
  cases found : read s with
  | ok a => exact there a found
  | error e => exact missing e found

/-- A computation that begins with a reading that succeeds goes on with what was read. -/
lemma Ensures.inspect_bind {read : Store → Except Error β} {f : β → Build α} {b : β}
    (found : read s = .ok b) (rest : (f b).Ensures s Q E) :
    (Build.inspect read >>= f).Ensures s Q E := by
  rw [Ensures, EStateM.run_bind, run_inspect, found]
  exact rest

/-- Following a handle gives its node, or fails because there is none. -/
lemma Ensures.node {h} {Q : Node → Store → Prop} (there : ∀ n, s.node? h = some n → Q n s)
    (missing : s.node? h = none → E (.dangling h) s) : (node h).Ensures s Q E := by
  rw [Ensures, run_node]
  cases found : s.node? h with
  | none => exact missing found
  | some n => exact there n found

/-- A computation that begins with following a handle goes on with the node there. -/
lemma Ensures.node_bind {h n} {f : Node → Build α} (found : s.node? h = some n)
    (rest : (f n).Ensures s Q E) : (Build.node h >>= f).Ensures s Q E := by
  refine .bind (.node (Q := fun m s' => m = n ∧ s' = s) ?_ ?_) ?_
  · intro m found'
    exact ⟨Option.some.inj (found'.symm.trans found), rfl⟩
  · intro none
    rw [found] at none
    cases none
  · rintro m s' ⟨rfl, rfl⟩
    exact rest

/-- A node that is there is changed. -/
lemma Ensures.modifyNode {h n f} {Q : Unit → Store → Prop} (found : s.node? h = some n)
    (q : Q () (s.modifyNode h f)) : (modifyNode h f).Ensures s Q E := by
  rw [Ensures, run_modifyNode, found]
  exact q

/-- An allocation appends the node, or fails because the store is full. -/
lemma Ensures.alloc {n} {Q : Handle → Store → Prop}
    (room : s.size < s.capacity → Q ⟨s.size⟩ (s.push n))
    (full : s.capacity ≤ s.size → E (.outOfNodes s.capacity) s) :
    (alloc n).Ensures s Q E := by
  rw [Ensures, run_alloc]
  by_cases lt : s.size < s.capacity
  · rw [if_pos lt]
    exact room lt
  · rw [if_neg lt]
    exact full (by omega)

end Build

namespace Store

/-- The node in front of which a store ended is the appended one. -/
lemma node?_push {s : Store} {n g} :
    (s.push n).node? g = if g.index = s.size then some n else s.node? g := by
  show (s.nodes.push n)[g.index]? = _
  rw [Array.getElem?_push]
  rfl

/-- An appended node stands at the former end. -/
lemma node?_push_end {s : Store} {n} : (s.push n).node? ⟨s.size⟩ = some n := by
  rw [node?_push, if_pos rfl]

/-- A store with one more node is larger by one. -/
@[simp] lemma size_push {s : Store} {n} : (s.push n).size = s.size + 1 := by
  simp [push, size]

/-- Appending a node keeps all others. -/
lemma extends_push {s : Store} {n} : s.Extends (s.push n) := by
  intro g m found
  have lt := index_lt_of_node? found
  rw [node?_push, if_neg (by omega)]
  exact found

/-- Every store extends itself. -/
lemma Extends.refl {s : Store} : s.Extends s := fun _ _ found => found

/-- Extensions can be extended. -/
lemma Extends.trans {s s' s'' : Store} (e : s.Extends s') (e' : s'.Extends s'') : s.Extends s'' :=
  fun g n found => e' g n (e g n found)

/-- More nodes change no tree. -/
lemma Unfolds.extend {s s' : Store} {h t} (u : s.Unfolds h t) (e : s.Extends s') :
    s'.Unfolds h t := by
  induction u with
  | nil => exact .nil
  | node found _ _ ihl ihr => exact .node (e _ _ found) ihl ihr

/-- An appended node has the tree that its children make. -/
lemma Unfolds.push {s : Store} {n l r} (ul : s.Unfolds n.left l) (ur : s.Unfolds n.right r) :
    (s.push n).Unfolds (some ⟨s.size⟩) (.node n.kind l r) :=
  .node node?_push_end (ul.extend extends_push) (ur.extend extends_push)

/-- A write to one node leaves the trees alone that are lower than the one below that node. -/
lemma Unfolds.write_lower {s s' : Store} {h th g t} (u : s.Unfolds g t)
    (same : ∀ g, g ≠ h → s'.node? g = s.node? g) (uh : s.Unfolds (some h) th)
    (lower : t.height < th.height) : s'.Unfolds g t := by
  induction u with
  | nil => exact .nil
  | @node g n l r found ul ur ihl ihr =>
    simp only [Tree.height] at lower
    have ne : g ≠ h := by
      rintro rfl
      have e := uh.unique (.node found ul ur)
      rw [e] at lower
      simp only [Tree.height] at lower
      omega
    exact .node ((same g ne).trans found) (ihl (by omega)) (ihr (by omega))

end Store

end ExprOpt
