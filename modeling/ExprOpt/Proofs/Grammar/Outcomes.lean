import ExprOpt.Proofs.Grammar.Acceptance
import ExprOpt.Proofs.Grammar.Planting
import Mathlib.Order.Interval.Finset.Nat

/-!
# The outcomes of reading into a store

A text that is no expression leaves a store as it is. An expression of so many nodes adds as many, which
form a single tree, or as many of the same nodes as there is room for. Nothing depends on the capacity but
where the nodes are cut off (`run_parse_text`, `parse_outcomes`).
-/

namespace ExprOpt

/-- The nodes from `base` on form a single tree over the last of them: each has its children among those
of them that stand before it, and each but the last is a child of one of them, in one slot. -/
structure Store.SingleTree (s : Store) (base : Nat) : Prop where
  below : ∀ p n side child, base ≤ p.index → s.node? p = some n → n.slot side = some child →
    base ≤ child.index ∧ child.index < p.index
  once : ∀ g : Handle, base ≤ g.index → g.index + 1 < s.size →
    ∃! p : Handle × Side, base ≤ p.1.index ∧ ∃ n, s.node? p.1 = some n ∧ n.slot p.2 = some g

namespace Store

variable {s s' : Store} {h : Handle} {t : Tree Kind}

/-- If different handles are at least as many as the range is wide that they come from, then they are all
there are in it. -/
lemma fill_range {hs : List Handle} {base top : Nat} (nodup : hs.Nodup)
    (range : ∀ h ∈ hs, base ≤ h.index ∧ h.index < top) (narrow : top - base ≤ hs.length) :
    top - base = hs.length ∧ ∀ g : Handle, base ≤ g.index → g.index < top → g ∈ hs := by
  have injective : Function.Injective Handle.index := fun ⟨_⟩ ⟨_⟩ e => congrArg Handle.mk e
  have subset : (hs.map Handle.index).toFinset ⊆ Finset.Ico base top := by
    intro i member
    obtain ⟨h, mem, rfl⟩ := List.mem_map.1 (List.mem_toFinset.1 member)
    exact Finset.mem_Ico.2 (range h mem)
  have card : (hs.map Handle.index).toFinset.card = hs.length := by
    rw [List.toFinset_card_of_nodup (nodup.map injective), List.length_map]
  have all : (hs.map Handle.index).toFinset = Finset.Ico base top := by
    apply Finset.eq_of_subset_of_card_le subset
    rw [Nat.card_Ico, card]
    exact narrow
  constructor
  · rw [← card, all, Nat.card_Ico]
  · intro g ge lt
    have mem : g.index ∈ (hs.map Handle.index).toFinset := by
      rw [all]
      exact Finset.mem_Ico.2 ⟨ge, lt⟩
    obtain ⟨h, mem, same⟩ := List.mem_map.1 (List.mem_toFinset.1 mem)
    rw [← injective same]
    exact mem

/-- If there are no more new nodes than the planted tree has, then they are that tree. -/
lemma Planted.singleTree (planted : s.Planted s' [h]) (u : s'.Unfolds (some h) t)
    (few : s'.size ≤ s.size + t.size) :
    s'.size = s.size + t.size ∧ h.index + 1 = s'.size ∧ s'.SingleTree s.size := by
  obtain ⟨hs, forest, nodup, new⟩ := planted
  obtain ⟨c, cs, desc, rfl⟩ := Forest.slot (o := some h) forest
  have many : c.handles.length = t.size := by
    rw [Tree.length_handles, ← Tree.size_map Cell.kind, cs.unfolds.unique u]
  obtain ⟨width, all⟩ := fill_range nodup (fun g mem => ⟨new g mem, cs.index_lt g mem⟩) (by omega)
  have lt := u.index_lt
  have ge : s.size ≤ h.index := by
    obtain ⟨n, l, r, -, -, -, rfl⟩ := cs.inv
    exact new h List.mem_cons_self
  have last : h.index + 1 = s'.size := by
    have le : s'.size - 1 ≤ h.index :=
      cs.index_le_root desc (all ⟨s'.size - 1⟩ (by simp only; omega) (by simp only; omega))
    omega
  refine ⟨by omega, last, ?_, ?_⟩
  · intro p n side child ge found slot
    obtain ⟨mem, lower⟩ := cs.slot_descending desc (all p ge (index_lt_of_node? found)) found slot
    exact ⟨new child mem, lower⟩
  · intro g ge lt
    have ne : g ≠ h := by
      rintro rfl
      omega
    obtain ⟨p, ⟨mem, parent⟩, unique⟩ := cs.existsUnique_parent nodup (all g ge (by omega)) ne
    refine ⟨p, ⟨new p.1 mem, parent⟩, ?_⟩
    rintro q ⟨ge', m, found', slot⟩
    exact unique q ⟨all q.1 ge' (index_lt_of_node? found'), m, found', slot⟩

/-- The nodes of a single tree are stacked up, also if only the first of them are. -/
lemma SingleTree.stacks_take {nodes new : Array Node} {capacity k : Nat}
    (single : SingleTree ⟨nodes ++ new, capacity⟩ nodes.size)
    (fine : WellFormedFrom ⟨nodes ++ new, capacity⟩ nodes.size)
    (fits : nodes.size + min k new.size ≤ max capacity nodes.size) :
    Stacks ⟨nodes, capacity⟩ ⟨nodes ++ new.take k, capacity⟩ := by
  have begins : Extends ⟨nodes ++ new.take k, capacity⟩ ⟨nodes ++ new, capacity⟩ := by
    intro g n found
    have e : nodes ++ new = nodes ++ new.take k ++ new.drop k := by
      rw [Array.append_assoc, Array.take_eq_extract, Array.drop_eq_extract,
        Array.extract_append_extract, Nat.zero_min, Array.extract_eq_self_of_le (Nat.le_max_right _ _)]
    have lt : g.index < (nodes ++ new.take k).size := index_lt_of_node? found
    show (nodes ++ new)[g.index]? = some n
    rw [e, Array.getElem?_append_left lt]
    exact found
  constructor
  · refine ⟨⟨rfl, ?_, ?_⟩, new.take k, rfl⟩
    · simp [size]
    · simpa [size, bound] using fits
  · exact fun g n le found => fine g n le (begins g n found)
  · exact fun g n le found side c slot => (single.below g n side c le (begins g n found) slot).2

end Store

namespace Grammar

/-- All nodes that reading adds are well-formed. -/
lemma read_wellFormed (text : List Char) (s : Store) :
    (read allocating text s).2.nodes.WellFormedFrom s.size := by
  have taken (notes : Notes Store) (n : Node) (h : Handle) (nodes : Store) (w : n.WellFormed)
      (e : allocating.put n notes.nodes = some (h, nodes)) (fine : notes.nodes.WellFormedFrom s.size) :
      nodes.WellFormedFrom s.size := by
    rw [put_allocating] at e
    split at e
    · cases e
      exact fine.push w
    · cases e
  have steps : Pervasive allocating _ := .of_steps (R := fun a b =>
    a.nodes.WellFormedFrom s.size → b.nodes.WellFormedFrom s.size) (fun _ => id)
    (fun _ _ _ ab bc => bc ∘ ab) (fun _ _ _ => id) taken fun _ _ _ => id
  exact steps.expression ⟨0, text⟩ { nodes := s } .base

/-- There is a report on every text that is not in the language. -/
lemma exists_complaint {text : List Char} (wrong : ¬ ∃ t, Text text t) :
    ∃ report, complaint? text = some report := by
  rw [← complaint?_eq_none_iff] at wrong
  exact Option.ne_none_iff_exists'.1 wrong

/-- An expression is read into a store with just enough room for it, and fills it with a single tree. -/
lemma read_snug {text : List Char} {t : Tree Kind} (p : Text text t) (nodes : Array Node) :
    ∃ new notes, read allocating text ⟨nodes, nodes.size + t.size⟩ =
        (some ⟨nodes.size + t.size - 1⟩, notes) ∧
      notes.refused = false ∧ notes.nodes = ⟨nodes ++ new, nodes.size + t.size⟩ ∧ new.size = t.size ∧
      notes.nodes.Unfolds (some ⟨nodes.size + t.size - 1⟩) t ∧ notes.nodes.SingleTree nodes.size ∧
      notes.nodes.WellFormedFrom nodes.size := by
  rcases read_of_text allocated p ⟨nodes, nodes.size + t.size⟩ with
    ⟨-, h, notes, ran, kept, held⟩ | ⟨short, -⟩
  · have appends := read_grows text ⟨nodes, nodes.size + t.size⟩
    have fine := read_wellFormed text ⟨nodes, nodes.size + t.size⟩
    rw [ran] at appends fine
    have few : notes.nodes.size ≤ nodes.size + t.size := by
      have le := appends.size_le
      simp only [Store.bound, Store.size] at le ⊢
      omega
    obtain ⟨size, last, single⟩ := (read_planted ran).singleTree held few
    obtain ⟨new, added⟩ := appends.nodes
    have root : h = ⟨nodes.size + t.size - 1⟩ := by
      obtain ⟨index⟩ := h
      simp only [Store.size] at size last
      simp only [Handle.mk.injEq]
      omega
    have count : new.size = t.size := by
      rw [Store.size, added, Array.size_append] at size
      exact Nat.add_left_cancel size
    subst root
    exact ⟨new, notes, ran, kept, appends.eq_of_nodes added, count, held, single, fine⟩
  · exact absurd (Nat.le_refl _) short

end Grammar

open Grammar

/-- An expression that the store refuses no node of is read, so that there is no second complaint. -/
lemma run_parse_eq {source : String} {t : Tree Kind} (p : Text source.toList t) (s : Store) :
    (Build.parse source).run s =
      match read allocating source.toList s with
      | (some h, ⟨_, _, false, s'⟩) => .ok h s'
      | (_, notes) => .error (.outOfNodes s.capacity) notes.nodes := by
  rw [Build.parse, complaint?_eq_none_iff.2 ⟨t, p⟩]
  dsimp only
  rw [EStateM.run_bind, EStateM.run_get]
  dsimp only
  rw [EStateM.run_bind, EStateM.run_set]
  have outcome := read_of_text allocated p s
  rcases e : read allocating source.toList s with ⟨_ | h, depth, furthest, _ | _, s'⟩ <;> rw [e] at outcome
  · rcases outcome with ⟨-, h, notes, ran, -⟩ | ⟨-, refused⟩
    · cases ran
    · cases refused
  · rfl
  · rfl
  · rfl

/-- What reading an expression does to stores that hold the same nodes. They all get the nodes of the
same single tree, or as many of them as there is room for. -/
lemma run_parse_text {source : String} {t : Tree Kind} (p : Text source.toList t) (nodes : Array Node) :
    ∃ new, new.size = t.size ∧ ∀ capacity,
      Store.Unfolds ⟨nodes ++ new, capacity⟩ (some ⟨nodes.size + t.size - 1⟩) t ∧
      Store.SingleTree ⟨nodes ++ new, capacity⟩ nodes.size ∧
      Store.WellFormedFrom ⟨nodes ++ new, capacity⟩ nodes.size ∧
      (Build.parse source).run ⟨nodes, capacity⟩ =
        if nodes.size + t.size ≤ capacity then
          .ok ⟨nodes.size + t.size - 1⟩ ⟨nodes ++ new, capacity⟩
        else
          .error (.outOfNodes capacity) ⟨nodes ++ new.take (capacity - nodes.size), capacity⟩ := by
  obtain ⟨new, notes, ran, kept, stored, count, u, single, fine⟩ := read_snug p nodes
  rw [stored] at u single fine
  refine ⟨new, count, fun capacity => ⟨u.extend fun _ _ => id, ⟨single.below, single.once⟩, fine, ?_⟩⟩
  have appends := read_grows source.toList ⟨nodes, capacity⟩
  rw [run_parse_eq p]
  split_ifs with room
  · -- Nothing was refused where there is just enough room, so nothing is where there is more.
    have steps := read_lockstep source.toList nodes room
    rw [ran] at steps
    rcases e : read allocating source.toList ⟨nodes, capacity⟩ with ⟨result, notes'⟩
    rw [e] at steps appends
    rcases steps with ⟨rfl, capacity', le, rfl⟩ | behind
    · obtain rfl : capacity' = capacity := appends.capacity
      cases notes
      cases kept
      cases stored
      rfl
    · cases kept.symm.trans behind.refused
  · have refused : (read allocating source.toList ⟨nodes, capacity⟩).2.refused = true := by
      rcases read_of_text allocated p ⟨nodes, capacity⟩ with ⟨enough, -⟩ | ⟨-, refused⟩
      · exact absurd enough room
      · exact refused
    have steps := read_lockstep source.toList nodes (show capacity ≤ nodes.size + t.size by omega)
    rw [ran] at steps
    rcases e : read allocating source.toList ⟨nodes, capacity⟩ with ⟨result, notes'⟩
    rw [e] at steps appends refused
    rcases steps with ⟨-, capacity', le, rfl⟩ | behind
    · cases kept.symm.trans refused
    · have cut := behind.nodes_eq appends (by rw [stored])
      obtain ⟨depth, furthest, _, s'⟩ := notes'
      cases refused
      cases cut
      cases result <;> rfl

/-- Reading only stacks up nodes. It fails for what the text is like, or for lack of room. -/
lemma Build.parse_stacks (source : String) (s : Store) :
    (Build.parse source).Ensures s (fun h s' => s.Stacks s' ∧ h.index < s'.size)
      (fun e s' => s.Stacks s' ∧ ((∃ report, e = .malformed report) ∨ e = .outOfNodes s.capacity)) := by
  cases fine : complaint? source.toList with
  | some report =>
    rw [Ensures, Build.parse, fine]
    exact ⟨.refl, .inl ⟨report, rfl⟩⟩
  | none =>
    obtain ⟨t, p⟩ := complaint?_eq_none_iff.1 fine
    obtain ⟨nodes, capacity⟩ := s
    obtain ⟨new, count, texts⟩ := run_parse_text p nodes
    obtain ⟨u, single, fine, ran⟩ := texts capacity
    rw [Ensures, ran]
    split_ifs with room
    · have all := single.stacks_take fine (k := new.size) (by omega)
      rw [Array.take_eq_extract, Array.extract_size] at all
      exact ⟨all, u.index_lt⟩
    · exact ⟨single.stacks_take fine (by omega), .inr rfl⟩

/-- There are three outcomes of reading a text. If it is no expression, every store is left as it is and
all get the same report. If it is an expression, then every store that has room for its nodes gets them,
and they form a single tree over the last of them, whose handle is returned. A store without that room
is filled up with the first of the same nodes. -/
theorem parse_outcomes (source : String) :
    ((¬ ∃ t, Text source.toList t) → ∃ report, ∀ s,
      (Build.parse source).run s = .error (.malformed report) s) ∧
    ∀ t, Text source.toList t → ∀ nodes, ∃ new, new.size = t.size ∧ ∀ capacity,
      (nodes.size + t.size ≤ capacity → ∃ s', s' = ⟨nodes ++ new, capacity⟩ ∧
        (Build.parse source).run ⟨nodes, capacity⟩ = .ok ⟨s'.size - 1⟩ s' ∧
        s'.tree (some ⟨s'.size - 1⟩) = .ok t ∧ s'.SingleTree nodes.size) ∧
      (capacity < nodes.size + t.size →
        (Build.parse source).run ⟨nodes, capacity⟩ =
          .error (.outOfNodes capacity) ⟨nodes ++ new.take (capacity - nodes.size), capacity⟩) := by
  constructor
  · intro wrong
    obtain ⟨report, complaint⟩ := exists_complaint wrong
    refine ⟨report, fun s => ?_⟩
    rw [Build.parse, complaint]
    rfl
  · intro t p nodes
    obtain ⟨new, count, texts⟩ := run_parse_text p nodes
    refine ⟨new, count, fun capacity => ?_⟩
    obtain ⟨u, single, -, ran⟩ := texts capacity
    refine ⟨fun room => ⟨_, rfl, ?_⟩, fun short => ?_⟩
    · have size : Store.size ⟨nodes ++ new, capacity⟩ = nodes.size + t.size := by
        rw [Store.size, Array.size_append, count]
      rw [size, ran, if_pos room]
      exact ⟨rfl, Store.tree_eq_ok_iff.2 u, single⟩
    · rw [ran, if_neg (by omega)]

-- A store that has room for two more nodes gets the operands and not the operator.
example : (Build.parse "a+b").run ⟨#[.const 7], 3⟩ =
    .error (.outOfNodes 3) ⟨#[.const 7, .var 'a', .var 'b'], 3⟩ := by
  rfl

end ExprOpt
