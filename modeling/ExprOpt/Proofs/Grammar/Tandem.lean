import ExprOpt.Proofs.Grammar.Pace
import ExprOpt.Proofs.Grammar.Watching

/-!
# Readings in tandem

The same text is read with two sinks, from notes of equal depth. As long as the second sink takes every
node the readings stay in step: they look at the depth at the same places, and record the same failures.
When it refuses a node, the rule that handed the node over fails, and the readings part. From then on the
second one enters no further level, if all that it tries is idle: it fails right away, or it hands over a
node that is refused as well (`Tandem`).
-/

namespace ExprOpt

/-- What is on record when more failures have been recorded, one after the other. -/
def Furthest.after (f : Furthest) (failures : List (Nat × Expected)) : Furthest :=
  failures.foldl (fun f (offset, what) => f.record offset what) f

/-- From `start` and from `start'` on, the same failures have been recorded. -/
def Furthest.Alike (start start' f g : Furthest) : Prop :=
  ∃ failures, f = start.after failures ∧ g = start'.after failures

/-- In the beginning no failures have been recorded. -/
lemma Furthest.Alike.refl (start start' : Furthest) : Alike start start' start start' := ⟨[], rfl, rfl⟩

/-- One more failure in both makes no difference. -/
lemma Furthest.Alike.record {start start' f g : Furthest} (alike : Alike start start' f g) (offset : Nat)
    (what : Expected) : Alike start start' (f.record offset what) (g.record offset what) := by
  obtain ⟨failures, rfl, rfl⟩ := alike
  refine ⟨failures ++ [(offset, what)], ?_⟩
  simp [after]

namespace Grammar

variable {σ ρ α β γ δ : Type}

/-- The marks that were made where a level was to be entered. -/
def entries (marks : List Mark) : List Mark := marks.filter (·.moment = .entering)

/-- Where all marks are the same, so are those where a level was to be entered. -/
lemma entries_prefix {marks marks' : List Mark} (same : marks = marks') :
    entries marks <+: entries marks' :=
  same ▸ List.prefix_rfl

/-- The sink takes no further node. -/
def Sink.Full (sink : Sink σ) (nodes : σ) : Prop := ∀ n, sink.put n nodes = none

/-- A sink that refuses one node refuses all of them. -/
def Sink.Stubborn (sink : Sink σ) : Prop := ∀ n nodes, sink.put n nodes = none → sink.Full nodes

/-- How two readings are related as long as they are in step: by the states of their sinks, and by what was
on record when they began. -/
structure Bond (σ ρ : Type) where
  Lag : σ → ρ → Prop
  start : Furthest
  start' : Furthest

/-- From related states on, the second sink refuses all nodes where the first one refuses any, or where it
has refused one itself. -/
structure Trails (sink : Sink σ) (sink' : Sink ρ) (bond : Bond σ ρ) : Prop where
  stubborn : sink'.Stubborn
  refuse {n n' s t} : bond.Lag s t → sink.put n s = none → sink'.put n' t = none
  accept {n n' h h' s s' t t'} : bond.Lag s t → sink.put n s = some (h, s') →
    sink'.put n' t = some (h', t') → bond.Lag s' t'

/-- Notes that are equally deep, with the same marks and the same failures. -/
structure InStep (bond : Bond σ ρ) (a : Notes (Watched σ)) (b : Notes (Watched ρ)) : Prop where
  depth : a.depth = b.depth
  furthest : Furthest.Alike bond.start bond.start' a.furthest b.furthest
  marks : a.nodes.2 = b.nodes.2
  lag : bond.Lag a.nodes.1 b.nodes.1

/-- The second sink is full, and no more levels have been tried with it than with the first. -/
structure Halted (sink' : Sink ρ) (a : Notes (Watched σ)) (b : Notes (Watched ρ)) : Prop where
  refused : b.refused = true
  full : sink'.Full b.nodes.1
  entries : entries b.nodes.2 <+: entries a.nodes.2

/-- The outcomes of two readings. They are in step, and have come to the same place or have both failed.
Or the second sink has run full, and then `Stop` says where the second reading can stand if it has not
failed. Nothing is read and nothing is refused unless `begun`. -/
inductive Tandem (sink' : Sink ρ) (bond : Bond σ ρ) (V : α → β → Prop) (begun : Prop)
    (Stop : β → Cursor → Prop) :
    Option (α × Cursor) × Notes (Watched σ) → Option (β × Cursor) × Notes (Watched ρ) → Prop where
  | both {v w cursor a b} :
    begun →
    V v w →
    InStep bond a b →
    Tandem sink' bond V begun Stop (some (v, cursor), a) (some (w, cursor), b)
  | neither {a b} :
    InStep bond a b →
    Tandem sink' bond V begun Stop (none, a) (none, b)
  | apart {out out'} :
    begun →
    Halted sink' out.2 out'.2 →
    (∀ w cursor, out'.1 = some (w, cursor) → Stop w cursor) →
    Tandem sink' bond V begun Stop out out'

/-- The outcome of a rule that finds the sink full and enters no level. -/
structure Idle (sink' : Sink ρ) (Stop : β → Cursor → Prop) (b : Notes (Watched ρ))
    (out : Option (β × Cursor) × Notes (Watched ρ)) : Prop where
  refused : out.2.refused = true
  full : sink'.Full out.2.nodes.1
  entries : entries out.2.nodes.2 = entries b.nodes.2
  stop : ∀ w cursor, out.1 = some (w, cursor) → Stop w cursor

/-- The rule enters no level once the sink is full. -/
def Rule.Idles (r' : Rule (Watched ρ) β) (sink' : Sink ρ) (cursor : Cursor) (Stop : β → Cursor → Prop) :
    Prop :=
  ∀ b : Notes (Watched ρ), b.refused = true → sink'.Full b.nodes.1 → Idle sink' Stop b (r'.apply cursor b)

/-- The marks of the first rule of a sequence come first. -/
lemma Rule.Adds.bind_right {r : Rule (Watched σ) α} {f : α → Rule (Watched σ) β}
    (adds : ∀ v, (f v).Adds) (cursor : Cursor) (notes : Notes (Watched σ)) :
    (r.apply cursor notes).2.nodes.2 <+: ((r >>= f).apply cursor notes).2.nodes.2 := by
  rw [apply_bind]
  rcases r.apply cursor notes with ⟨_ | ⟨v, cursor'⟩, notes'⟩
  · exact List.prefix_rfl
  · exact adds v cursor' notes'

/-- The marks of the first alternative come first. -/
lemma Rule.Adds.orElse_right {r t : Rule (Watched σ) α} (adds : t.Adds) (cursor : Cursor)
    (notes : Notes (Watched σ)) :
    (r.apply cursor notes).2.nodes.2 <+: ((r <|> t).apply cursor notes).2.nodes.2 := by
  rw [apply_orElse]
  rcases r.apply cursor notes with ⟨_ | result, notes'⟩
  · exact adds cursor notes'
  · exact List.prefix_rfl

/-! ### Notes in step -/

section

variable {sink : Sink σ} {sink' : Sink ρ} {bond : Bond σ ρ} {a a' : Notes (Watched σ)}
  {b : Notes (Watched ρ)} {cursor : Cursor}

/-- A mark holds the depth, which is the same in both readings. -/
lemma InStep.mark (step : InStep bond a b) (moment : Moment) (offset : Nat) :
    InStep bond (a.mark moment offset) (b.mark moment offset) := by
  refine ⟨step.depth, step.furthest, ?_, step.lag⟩
  simp only [Notes.mark, step.marks, step.depth]

/-- The depth may change in both readings alike. -/
lemma InStep.level {depth depth' : Nat} (step : InStep bond a b) (same : depth = depth') :
    InStep bond { a with depth } { b with depth := depth' } :=
  ⟨same, step.furthest, step.marks, step.lag⟩

/-- What both readings record at one place is the same. -/
lemma InStep.jots (step : InStep bond a b) (offset : Nat) (what : List Expected) :
    InStep bond (a.jots offset what) (b.jots offset what) := by
  induction what generalizing a b with
  | nil => exact step
  | cons e what ih =>
    exact ih ⟨step.depth, step.furthest.record offset e, step.marks, step.lag⟩

/-- Both readings enter a level. -/
lemma InStep.enter (step : InStep bond a b) (offset : Nat) :
    InStep bond (a.enter offset) (b.enter offset) :=
  ((step.mark .entering offset).level (congrArg (· + 1) step.depth)).mark .entered offset

/-- Both readings leave a level. -/
lemma InStep.leave (step : InStep bond a b) (offset : Nat) :
    InStep bond (a.leave offset) (b.leave offset) :=
  ((step.mark .leaving offset).level (congrArg (· - 1) step.depth)).mark .left offset

/-- Leaving a level is no entry. -/
lemma entries_leave (notes : Notes (Watched σ)) (offset : Nat) :
    entries (notes.leave offset).nodes.2 = entries notes.nodes.2 := by
  simp [entries, Notes.leave, Notes.mark]

/-- The reading that goes on may enter more levels. -/
lemma Halted.left (halted : Halted sink' a b) (adds : a.nodes.2 <+: a'.nodes.2) : Halted sink' a' b :=
  ⟨halted.refused, halted.full, halted.entries.trans (adds.filter _)⟩

/-- A rule that is idle tries no further level. -/
lemma Halted.right {Stop : β → Cursor → Prop} {out : Option (β × Cursor) × Notes (Watched ρ)}
    (halted : Halted sink' a b) (idle : Idle sink' Stop b out) : Halted sink' a out.2 :=
  ⟨idle.refused, idle.full, idle.entries ▸ halted.entries⟩

/-- Both readings leave their levels, wherever they stand. -/
lemma Halted.leave (halted : Halted sink' a b) (offset offset' : Nat) :
    Halted sink' (a.leave offset) (b.leave offset') := by
  refine ⟨halted.refused, halted.full, ?_⟩
  rw [entries_leave, entries_leave]
  exact halted.entries

/-! ### Idle rules -/

namespace Rule.Idles

variable {Stop : β → Cursor → Prop} {Stop' : δ → Cursor → Prop}

/-- A rule that fails right away enters no level. -/
lemma of_refuses {r : Rule (Watched ρ) β} {what : List Expected} (refuses : Refuses r cursor what) :
    r.Idles sink' cursor Stop := by
  intro b refused full
  obtain ⟨furthest, ran⟩ := refuses.exists_furthest b
  rw [ran]
  refine ⟨refused, full, rfl, ?_⟩
  intro _ _ e
  cases e

/-- Blanks are skipped without a look at the sink. -/
lemma blanks {f : Unit → Rule (Watched ρ) β} (idle : (f ()).Idles sink' cursor.skip Stop) :
    (blanks >>= f).Idles sink' cursor Stop := by
  intro b refused full
  rw [apply_blanks_bind]
  exact idle b refused full

/-- A constant rule enters no level, and stops where it stands. -/
lemma pure {w : β} (stop : Stop w cursor) : Idles (pure w) sink' cursor Stop := by
  intro b refused full
  refine ⟨refused, full, rfl, ?_⟩
  intro _ _ e
  cases e
  exact stop

/-- A sequence is idle if the second rule is wherever the first one can stop. -/
lemma bind {r : Rule (Watched ρ) β} {f : β → Rule (Watched ρ) δ} (first : r.Idles sink' cursor Stop)
    (second : ∀ w cursor, Stop w cursor → (f w).Idles sink' cursor Stop') :
    (r >>= f).Idles sink' cursor Stop' := by
  intro b refused full
  have idle := first b refused full
  rw [apply_bind]
  rcases e : r.apply cursor b with ⟨_ | ⟨w, cursor'⟩, b'⟩ <;> rw [e] at idle
  · refine ⟨idle.refused, idle.full, idle.entries, ?_⟩
    intro _ _ e
    cases e
  · have idle' := second w cursor' (idle.stop w cursor' rfl) b' idle.refused idle.full
    exact ⟨idle'.refused, idle'.full, idle'.entries.trans idle.entries, idle'.stop⟩

/-- Where the first alternative can only fail, the second one is tried as well. -/
lemma orElse {r t : Rule (Watched ρ) β} (first : r.Idles sink' cursor fun _ _ => False)
    (second : t.Idles sink' cursor Stop) : (r <|> t).Idles sink' cursor Stop := by
  intro b refused full
  have idle := first b refused full
  rw [apply_orElse]
  rcases e : r.apply cursor b with ⟨_ | ⟨w, cursor'⟩, b'⟩ <;> rw [e] at idle
  · have idle' := second b' idle.refused idle.full
    exact ⟨idle'.refused, idle'.full, idle'.entries.trans idle.entries, idle'.stop⟩
  · cases idle.stop w cursor' rfl

/-- A full sink takes no operator. A series without operators is its first operand. -/
lemma link {P : Cursor → Prop} (first : Handle) (rest : List (Op × Handle)) (stop : P cursor) :
    (link sink'.watched first rest).Idles sink' cursor fun _ => P := by
  cases rest with
  | nil => exact pure stop
  | cons next rest =>
    intro b refused full
    rw [Grammar.link, List.foldlM_cons, apply_bind, Watched.apply_emit, full]
    refine ⟨rfl, full, rfl, ?_⟩
    intro _ _ e
    cases e

end Rule.Idles

/-! ### Rules in tandem -/

namespace Tandem

variable {V : α → β → Prop} {W : γ → δ → Prop} {begun : Prop} {Stop : β → Cursor → Prop}
  {Stop' : δ → Cursor → Prop}

/-- Less may be said of how the readings have begun and of where they have stopped. -/
lemma weaken {begun' : Prop} {Stop' : β → Cursor → Prop}
    {out : Option (α × Cursor) × Notes (Watched σ)} {out' : Option (β × Cursor) × Notes (Watched ρ)}
    (tandem : Tandem sink' bond V begun Stop out out') (b : begun → begun')
    (s : ∀ w cursor, Stop w cursor → Stop' w cursor) : Tandem sink' bond V begun' Stop' out out' := by
  cases tandem with
  | both h v step => exact .both (b h) v step
  | neither step => exact .neither step
  | apart h halted stop => exact .apart (b h) halted fun w cursor e => s w cursor (stop w cursor e)

/-- What is lacking is lacking in both readings. -/
lemma lack (what : Expected) (step : InStep bond a b) : Tandem sink' bond V begun Stop
    ((Rule.lack what).apply cursor a) ((Rule.lack what).apply cursor b) :=
  .neither (step.jots cursor.offset [what])

/-- A node is taken by both sinks, or the second one is full. -/
lemma emit {Stop : Handle → Cursor → Prop} (trails : Trails sink sink' bond) (n n' : Node)
    (step : InStep bond a b) : Tandem sink' bond (fun _ _ => True) True Stop
      ((Rule.emit sink.watched n).apply cursor a) ((Rule.emit sink'.watched n').apply cursor b) := by
  have marks : ((Rule.emit sink.watched n).apply cursor a).2.nodes.2 = b.nodes.2 := by
    rw [Watched.apply_emit, ← step.marks]
    cases sink.put n a.nodes.1 <;> rfl
  rw [Watched.apply_emit sink']
  cases taken' : sink'.put n' b.nodes.1 with
  | none =>
    refine .apart trivial ⟨rfl, trails.stubborn n' _ taken', ?_⟩ ?_
    · exact entries_prefix marks.symm
    · intro _ _ e
      cases e
  | some _ =>
    rw [Watched.apply_emit]
    cases taken : sink.put n a.nodes.1 with
    | none => cases taken'.symm.trans (trails.refuse step.lag taken)
    | some _ =>
      exact .both trivial trivial
        ⟨step.depth, step.furthest, step.marks, trails.accept step.lag taken taken'⟩

/-- A character is read in both readings or in neither, as the sinks have no part in it. -/
lemma one (p : Char → Bool) (what : Expected) {Stop : Char → Cursor → Prop} (step : InStep bond a b) :
    Tandem sink' bond (fun _ _ => True) True Stop
      ((Rule.one p what).apply cursor a) ((Rule.one p what).apply cursor b) := by
  rw [Rule.apply_one, Rule.apply_one]
  split
  · split
    · exact .both trivial trivial step
    · exact .lack what step
  · exact .lack what step

/-- A sequence goes on in tandem. If the second reading has stopped, it stays where it is. -/
lemma bind {r : Rule (Watched σ) α} {r' : Rule (Watched ρ) β} {f : α → Rule (Watched σ) γ}
    {f' : β → Rule (Watched ρ) δ} (adds : ∀ v, (f v).Adds)
    (first : Tandem sink' bond V begun Stop (r.apply cursor a) (r'.apply cursor b))
    (second : ∀ v w cursor a b, V v w → InStep bond a b →
      Tandem sink' bond W True Stop' ((f v).apply cursor a) ((f' w).apply cursor b))
    (idle : ∀ w cursor, Stop w cursor → (f' w).Idles sink' cursor Stop') :
    Tandem sink' bond W begun Stop' ((r >>= f).apply cursor a) ((r' >>= f').apply cursor b) := by
  have more := Rule.Adds.bind_right (r := r) adds cursor a
  rw [Rule.apply_bind r' f']
  generalize ran : r.apply cursor a = out at first more
  generalize r'.apply cursor b = out' at first
  cases first with
  | both h v step =>
    rw [Rule.apply_bind, ran]
    exact (second _ _ _ _ _ v step).weaken (fun _ => h) fun _ _ => id
  | neither step =>
    rw [Rule.apply_bind, ran]
    exact .neither step
  | apart h halted stop =>
    have ahead := halted.left more
    rcases out' with ⟨_ | ⟨w, cursor'⟩, b'⟩
    · refine .apart h ahead ?_
      intro _ _ e
      cases e
    · have rest := idle w cursor' (stop w cursor' rfl) b' halted.refused halted.full
      exact .apart h (ahead.right rest) rest.stop

/-- The other alternative is tried where the readings have failed in step, or where the second one has
stopped. -/
lemma orElse {r t : Rule (Watched σ) α} {r' t' : Rule (Watched ρ) β} {begun' : Prop} (adds : t.Adds)
    (first : Tandem sink' bond V begun Stop (r.apply cursor a) (r'.apply cursor b))
    (second : ∀ a b, InStep bond a b →
      Tandem sink' bond V begun' Stop (t.apply cursor a) (t'.apply cursor b))
    (started : begun → begun') (idle : begun → t'.Idles sink' cursor Stop) :
    Tandem sink' bond V begun' Stop ((r <|> t).apply cursor a) ((r' <|> t').apply cursor b) := by
  have more := Rule.Adds.orElse_right (r := r) adds cursor a
  rw [Rule.apply_orElse r' t']
  generalize ran : r.apply cursor a = out at first more
  generalize r'.apply cursor b = out' at first
  cases first with
  | both h v step =>
    rw [Rule.apply_orElse, ran]
    exact .both (started h) v step
  | neither step =>
    rw [Rule.apply_orElse, ran]
    exact second _ _ step
  | apart h halted stop =>
    have ahead := halted.left more
    rcases out' with ⟨_ | result, b'⟩
    · have rest := idle h b' halted.refused halted.full
      exact .apart (started h) (ahead.right rest) rest.stop
    · exact .apart (started h) ahead stop

/-- A sign is read in both readings or in neither. -/
lemma symbol (c : Char) (what : Expected) {Stop : Unit → Cursor → Prop} (step : InStep bond a b) :
    Tandem sink' bond (fun _ _ => True) True Stop
      ((Rule.symbol c what).apply cursor a) ((Rule.symbol c what).apply cursor b) :=
  .bind (fun _ => (Watches.pure _).adds) (.one _ what step)
    (fun _ _ _ _ _ _ step => .both trivial trivial step) fun _ _ => False.elim

/-- Rules that both fail right away, for lack of the same, stay in step. -/
lemma of_refuses {r : Rule (Watched σ) α} {r' : Rule (Watched ρ) β} {what : List Expected}
    (refuses : Refuses r cursor what) (refuses' : Refuses r' cursor what) (step : InStep bond a b) :
    Tandem sink' bond V begun Stop (r.apply cursor a) (r'.apply cursor b) := by
  rw [refuses, refuses']
  exact .neither (step.jots cursor.offset what)

/-- An alternative that fails right away makes no difference. -/
lemma orElse_left {r t : Rule (Watched σ) α} {r' t' : Rule (Watched ρ) β} {what : List Expected}
    (adds : t.Adds) (first : Tandem sink' bond V begun Stop (r.apply cursor a) (r'.apply cursor b))
    (refuses : Refuses t cursor what) (refuses' : Refuses t' cursor what) :
    Tandem sink' bond V begun Stop ((r <|> t).apply cursor a) ((r' <|> t').apply cursor b) :=
  .orElse adds first (fun _ _ => .of_refuses refuses refuses') id fun _ => .of_refuses refuses'

/-- Behind an alternative that fails right away the other one is read in tandem. -/
lemma orElse_right {r t : Rule (Watched σ) α} {r' t' : Rule (Watched ρ) β} {what : List Expected}
    (refuses : Refuses r cursor what) (refuses' : Refuses r' cursor what)
    (second : ∀ a b, InStep bond a b →
      Tandem sink' bond V begun Stop (t.apply cursor a) (t'.apply cursor b)) (step : InStep bond a b) :
    Tandem sink' bond V begun Stop ((r <|> t).apply cursor a) ((r' <|> t').apply cursor b) := by
  rw [refuses.apply_orElse, refuses'.apply_orElse]
  exact second _ _ (step.jots cursor.offset what)

end Tandem

end

end Grammar

end ExprOpt
