import ExprOpt.Proofs.Sessions

/-!
# Sessions that build expressions

A session is orderly if it does not write child slots by hand: it allocates constants, variables and
operators over nodes that are there, it reads expressions, and it runs passes from handles that are
there, be they roots, subtrees or left over from before. However such a session goes, the store stays
sound: every handle in it has a finite tree of well-formed nodes below it. So all queries have answers,
and the passes can fail only for lack of room (`reached_sound`).
-/

namespace ExprOpt

namespace Store

variable {s s' : Store}

/-- Every allocated handle has a tree below it, and all nodes are well-formed. -/
structure Sound (s : Store) : Prop where
  grounded : s.Grounded
  wellFormed : s.WellFormed

/-- The handle is allocated, if there is one. -/
def Holds (s : Store) (o : Option Handle) : Prop := ∀ h, o = some h → h.index < s.size

/-- A store stays sound under nodes that are stacked on top of it. -/
lemma Sound.of_stacks (sound : s.Sound) (st : s.Stacks s') : s'.Sound :=
  ⟨st.keeps_grounded sound.grounded, st.keeps_wellFormed sound.wellFormed⟩

/-- A store stays sound under a sweep that keeps trees and the shapes of nodes. -/
lemma Sound.of_sweep {rule : TreeRule} (sound : s.Sound) (evolves : s.Evolves rule s')
    (reshapes : s.Reshapes s') : s'.Sound :=
  ⟨evolves.grounded sound.grounded, reshapes.keeps_wellFormed sound.wellFormed⟩

/-- Below every allocated handle there is a tree, and an empty one where there is no handle. -/
lemma Grounded.unfolds (ground : s.Grounded) {o : Option Handle} (holds : s.Holds o) :
    ∃ t, s.Unfolds o t := by
  cases o with
  | none => exact ⟨.nil, .nil⟩
  | some h => exact ground h (holds h rfl)

/-- In a sound store there is a tree below every allocated handle. -/
lemma Sound.unfolds (sound : s.Sound) {o : Option Handle} (holds : s.Holds o) : ∃ t, s.Unfolds o t :=
  sound.grounded.unfolds holds

end Store

variable {s : Store}

/-- A sweep of a sound store leaves a sound one, and it fails only for lack of room. -/
lemma sweep_sound {edit : Store → Node → Edit} {rule : TreeRule} {h : Handle} (sound : s.Sound)
    (imp : Implements edit rule) (tidy : Tidy edit) (lt : h.index < s.size) :
    (sweep edit h).Ensures s (fun _ s' => s'.Sound)
      (fun e s' => s'.Sound ∧ e = .outOfNodes s.capacity) := by
  obtain ⟨t, u⟩ := sound.grounded h lt
  refine ((sweep_evolves imp u).and (sweep_reshapes tidy h s)).weaken ?_ ?_
  · rintro r s' ⟨⟨-, evolves, -⟩, reshapes⟩
    exact sound.of_sweep evolves reshapes
  · rintro e s' ⟨⟨full, evolves⟩, reshapes⟩
    exact ⟨sound.of_sweep evolves reshapes, full⟩

/-- Every pass leaves a sound store, and fails only for lack of nodes. -/
lemma Pass.run_sound (pass : Pass) {h : Handle} (sound : s.Sound) (lt : h.index < s.size) :
    (pass.run h).Ensures s (fun _ s' => s'.Sound)
      (fun e s' => s'.Sound ∧ e = .outOfNodes s.capacity) := by
  cases pass with
  | fold => exact sweep_sound sound Folding.implements Folding.tidy lt
  | simplify => exact sweep_sound sound Peephole.implements Peephole.tidy lt
  | hoist =>
    obtain ⟨t, u⟩ := sound.grounded h lt
    exact (Build.hoist_stacks sound.wellFormed u).weaken (fun _ _ post => sound.of_stacks post.1)
      fun _ _ post => ⟨sound.of_stacks post.1, post.2⟩

/-- What an orderly session may ask of a store next. -/
inductive Command.Orderly (s : Store) : Command → Prop where
  | const (v : Int64) :
    Orderly s (.alloc (.const v))
  | var (x : Char) :
    Orderly s (.alloc (.var x))
  | binary (op : Op) {l r : Handle} :
    l.index < s.size →
    r.index < s.size →
    Orderly s (.alloc (.binary op l r))
  | negation {h : Handle} :
    h.index < s.size →
    Orderly s (.alloc (.negation h))
  | parse (source : String) :
    Orderly s (.parse source)
  | pass (p : Pass) {h : Handle} :
    h.index < s.size →
    Orderly s (.pass p h)

/-- The stores that orderly sessions lead to. -/
inductive Store.Reached : Store → Prop where
  | start (capacity : Nat) :
    Reached { capacity }
  | step {s : Store} {c : Command} :
    Reached s →
    c.Orderly s →
    Reached (c.step s).store

/-- Nodes over allocated handles can be allocated in a sound store. -/
lemma Command.alloc_sound {n : Node} (sound : s.Sound) (w : n.WellFormed) (tops : n.Tops s.size) :
    ((Command.alloc n).step s).store.Sound := by
  refine step_of_ensures (.map ((Build.alloc_stacks w tops).weaken ?_ ?_))
  · exact fun _ _ post => sound.of_stacks post.1
  · exact fun _ _ post => sound.of_stacks post.1

/-- An orderly command leaves a sound store, whether it succeeds or fails. -/
lemma Command.Orderly.step_sound {c : Command} (orderly : c.Orderly s) (sound : s.Sound) :
    (c.step s).store.Sound := by
  cases orderly with
  | const v => exact alloc_sound sound (Node.wellFormed_const v) (Node.tops_const v _)
  | var x => exact alloc_sound sound (Node.wellFormed_var x) (Node.tops_var x _)
  | binary op left right =>
    exact alloc_sound sound (Node.wellFormed_binary op _ _) (Node.tops_binary left right)
  | negation lt => exact alloc_sound sound (Node.wellFormed_negation _) (Node.tops_negation lt)
  | parse source =>
    refine step_of_ensures (.map ((Build.parse_stacks source s).weaken ?_ ?_))
    · exact fun _ _ post => sound.of_stacks post.1
    · exact fun _ _ post => sound.of_stacks post.1
  | pass p lt =>
    refine step_of_ensures (.map ((p.run_sound sound lt).weaken ?_ ?_))
    · exact fun _ _ => id
    · exact fun _ _ => And.left

/-- Every store that an orderly session comes to is sound, by induction on the session. -/
lemma Store.Reached.sound (reached : s.Reached) : s.Sound := by
  induction reached with
  | start capacity => exact ⟨fun h lt => absurd lt (Nat.not_lt_zero _), fun g n found => by cases found⟩
  | step _ orderly ih => exact orderly.step_sound ih

/-- In every store that an orderly session leads to nothing dangles, nothing is below itself, and all
nodes have the children that their kinds ask for. So every query about allocated handles has an answer,
and every pass from one succeeds or runs out of nodes. -/
theorem reached_sound (reached : s.Reached) :
    s.Closed ∧ s.Acyclic ∧ s.WellFormed ∧
    (∀ a b, s.Holds a → s.Holds b → ∃ same, s.alike a b = .ok same) ∧
    (∀ o, s.Holds o → ∃ n, s.treeSize o = .ok n) ∧
    ∀ h, h.index < s.size →
      (∀ o, s.Holds o → ∃ found, s.occurs h o = .ok found) ∧
      (∃ hit, Duplicate.largest s h = .ok hit) ∧
      (∃ text, s.outline h = .ok text) ∧ (∃ text, s.picture h = .ok text) ∧
      ∀ pass : Pass, (∃ r s', (pass.run h).run s = .ok r s') ∨
        ∃ s', (pass.run h).run s = .error (.outOfNodes s.capacity) s' := by
  have sound := reached.sound
  obtain ⟨closed, acyclic⟩ := sound.grounded.closed_acyclic
  refine ⟨closed, acyclic, sound.wellFormed, fun a b ha hb => ?_, fun o holds => ?_, fun h lt => ?_⟩
  · obtain ⟨t, ua⟩ := sound.unfolds ha
    obtain ⟨t', ub⟩ := sound.unfolds hb
    exact ⟨_, Store.alike_eq ua ub⟩
  · obtain ⟨t, u⟩ := sound.unfolds holds
    exact ⟨_, Store.treeSize_eq u⟩
  · obtain ⟨t, u⟩ := sound.grounded h lt
    obtain ⟨c, cs, -⟩ := u.cells
    refine ⟨fun o holds => ?_, Duplicate.largest_ok u, ⟨_, Store.outline_eq u⟩,
      ⟨_, Store.picture_eq cs⟩, fun pass => ?_⟩
    · obtain ⟨t', u'⟩ := sound.unfolds holds
      exact Store.occurs_ok u u'
    · have ends := pass.run_sound sound lt
      rw [Build.Ensures] at ends
      cases ran : (pass.run h).run s with
      | ok r s' => exact .inl ⟨r, s', rfl⟩
      | error e s' =>
        rw [ran] at ends
        rw [ends.2]
        exact .inr ⟨s', rfl⟩

/-- A session that simplifies an expression, puts a root that is no longer in use below a new one, and
fills the store with half of another expression. -/
theorem reached_sound_crowded : ∃ s : Store, s.Reached ∧ s.size = 6 ∧ s.capacity = 6 ∧
    s.Closed ∧ s.Acyclic ∧ s.WellFormed ∧ ∃ text, s.outline ⟨4⟩ = .ok text := by
  have read := Store.Reached.step (.start 6) (.parse "x*2")
  have simplified := read.step (.pass .simplify (h := ⟨2⟩) (by decide +kernel))
  have joined := simplified.step (.binary .add (l := ⟨3⟩) (r := ⟨2⟩) (by decide +kernel) (by decide +kernel))
  have full := joined.step (.parse "a+b")
  obtain ⟨closed, acyclic, wellFormed, -, -, queries⟩ := reached_sound full
  obtain ⟨-, -, shown, -⟩ := queries ⟨4⟩ (by decide +kernel)
  exact ⟨_, full, by decide +kernel, by decide +kernel, closed, acyclic, wellFormed, shown⟩

end ExprOpt
