import ExprOpt.Picture
import ExprOpt.Proofs.Grammar.Completeness

/-!
# Reading pictures

The text of a picture is read back, from character to character, as a list of commands (`program?`). A
command says of a shape only what can be seen: a box may hold a constant or a variable of the same look.
What is read from the picture of a tree are the statements that draw it (`program?_text`). This holds
whatever characters the captions are made of, quotes and ends of lines included.
-/

namespace ExprOpt.Picture

open Grammar (NotAhead span_append)

/-- Shapes with what is written in them. -/
inductive Figure where
  | circle (caption : String)
  | box (caption : String)
  deriving DecidableEq

/-- What a line of a picture says. Shapes are known by their numbers. -/
inductive Command where
  | define (name : Nat) (figure : Figure)
  | moveTo (name : Nat)
  /-- Down, and aside to the left or to the right. -/
  | moveDown (aside : Option (Side × Length))
  | arrow (side : Side) (parent child : Nat)
  deriving DecidableEq

/-- The figure of a node: operators are circles, all others are boxes. -/
def figure : Kind → Figure
  | .op o => .circle o.symbol.toString
  | .const v => .box (toString v.toInt)
  | .var c => .box c.toString

/-- How far to move aside for a child on a side. An only child stands straight below its parent. -/
def Side.aside (side : Side) (x : Length) : Option (Side × Length) :=
  match side with
  | .bottom => none
  | side => some (side, x)

/-- What the line of a statement says. -/
def Statement.command : Statement → Command
  | .shape cell => .define cell.handle.index (figure cell.kind)
  | .moveTo h => .moveTo h.index
  | .moveDown side x => .moveDown (side.aside x)
  | .arrow side parent child => .arrow side parent.index child.index

/-! ### Scanners -/

/-- Reads something off the front of a text, or fails. -/
abbrev Scanner := StateT (List Char) Option

namespace Scanner

/-- Exactly the given text. -/
def literal (lit : String) : Scanner Unit := fun text => (lit.toList.isPrefixOf? text).map ((), ·)

/-- The longest run of digits. -/
def digits : Scanner (List Char) := fun text =>
  some (text.takeWhile Char.isDigit, text.dropWhile Char.isDigit)

def number : Scanner Nat := do
  let run ← digits
  guard (run ≠ [])
  return Nat.ofDigitChars 10 run 0

/-- A length with three decimal places. -/
def length : Scanner Length := do
  let inches ← number
  literal "."
  let fraction ← digits
  guard (fraction.length = 3)
  literal "i"
  return ⟨1000 * inches + Nat.ofDigitChars 10 fraction 0⟩

def name : Scanner Nat := do
  literal "N"
  number

def side : Scanner Side :=
  (do literal "left"; return .left) <|> (do literal "right"; return .right) <|>
    (do literal "bottom"; return .bottom)

/-- At least one character, and then all up to the next quote. -/
def caption : Scanner String := fun text =>
  match text with
  | [] => none
  | c :: text => some (String.ofList (c :: text.takeWhile (· ≠ '"')), text.dropWhile (· ≠ '"'))

/-- A caption behind what says which figure it is in. -/
def captioned (outline : String) (figure : String → Figure) : Scanner Figure := do
  literal outline
  let caption ← caption
  literal "\""
  literal "\n"
  return figure caption

def shape : Scanner Command := do
  let name ← name
  literal ": "
  let figure ← captioned "circle radius 0.15i \"" .circle <|> captioned "box width 0.3i height 0.3i \"" .box
  return .define name figure

def moveTo : Scanner Command := do
  literal "move to "
  let name ← name
  literal "\n"
  return .moveTo name

def straight : Scanner Command := do
  literal "move down 0.5i"
  literal "\n"
  return .moveDown none

def aside : Scanner Command := do
  literal "move down 0.5i "
  let side ← side
  literal " "
  let length ← length
  literal "\n"
  return .moveDown (some (side, length))

def arrow : Scanner Command := do
  literal "arrow from "
  let side ← side
  literal " of "
  let parent ← name
  literal " to top of "
  let child ← name
  literal "\n"
  return .arrow side parent child

def command : Scanner Command := moveTo <|> straight <|> aside <|> arrow <|> shape

/-- Commands up to the end of the picture. -/
def commands : Nat → Scanner (List Command)
  | 0 => failure
  | count + 1 =>
    (do
      let first ← command
      let rest ← commands count
      return first :: rest)
    <|> (do literal ".PE\n"; return [])

def picture (count : Nat) : Scanner (List Command) := do
  literal ".ft C\n.ps 12\n.PS\n"
  commands count

end Scanner

/-- The commands of a whole picture. There are no more of them than characters. -/
def program? (text : String) : Option (List Command) :=
  match (Scanner.picture text.length).run text.toList with
  | some (commands, []) => some commands
  | _ => none

/-! ### What scanners read -/

variable {α β : Type} {r t : Scanner α} {f : α → Scanner β} {u v : List Char} {a : α} {b : β}

namespace Scanner

/-- The scanner reads the given text as the given value, whatever follows. -/
def Scans (r : Scanner α) (u : List Char) (a : α) : Prop := ∀ rest, r.run (u ++ rest) = some (a, rest)

/-- The scanner reads the given text as the given value, unless a digit follows. -/
def ScansRun (r : Scanner α) (u : List Char) (a : α) : Prop :=
  ∀ rest, NotAhead Char.isDigit rest → r.run (u ++ rest) = some (a, rest)

/-- The scanner fails before the given text. -/
def Misses (r : Scanner α) (u : List Char) : Prop := ∀ rest, r.run (u ++ rest) = none

namespace Scans

/-- A constant scanner reads nothing. -/
lemma pure (a : α) : Scans (pure a : Scanner α) [] a := fun _ => rfl

/-- A condition that holds reads nothing. -/
lemma guarded {P : Prop} [Decidable P] (holds : P) : Scans (guard P) [] () := by
  intro rest
  rw [guard, if_pos holds]
  rfl

/-- A literal reads itself. -/
lemma literal (lit : String) : (literal lit).Scans lit.toList () := by
  intro rest
  have strip (l : List Char) : l.isPrefixOf? (l ++ rest) = some rest := by
    induction l with
    | nil => cases rest <;> rfl
    | cons c l ih => simp [List.isPrefixOf?, ih]
  show ((lit.toList.isPrefixOf? (lit.toList ++ rest)).map fun x => ((), x)) = _
  rw [strip]
  rfl

/-- One text is read after the other. -/
lemma bind (first : r.Scans u a) (second : (f a).Scans v b) : (r >>= f).Scans (u ++ v) b := by
  intro rest
  rw [StateT.run_bind, List.append_assoc, first]
  exact second rest

/-- What comes last may read nothing. -/
lemma finish (first : r.Scans u a) (last : (f a).Scans [] b) : (r >>= f).Scans u b := by
  have both := first.bind last
  rwa [List.append_nil] at both

/-- The first alternative is taken if it succeeds. -/
lemma left (first : r.Scans u a) : (r <|> t).Scans u a := by
  intro rest
  show (r.run (u ++ rest) <|> t.run (u ++ rest)) = _
  rw [first rest]
  rfl

/-- The second alternative is taken where the first one fails. -/
lemma right (first : r.Misses u) (second : t.Scans u a) : (r <|> t).Scans u a := by
  intro rest
  show (r.run (u ++ rest) <|> t.run (u ++ rest)) = _
  rw [first rest]
  exact second rest

end Scans

/-- A text that begins wrong is wrong however it goes on. -/
lemma Misses.append (misses : r.Misses u) : r.Misses (u ++ v) := by
  intro rest
  rw [List.append_assoc]
  exact misses _

/-- What comes second must not begin with a digit. -/
lemma ScansRun.bind (first : r.ScansRun u a) (second : (f a).Scans v b)
    (apart : v.head?.map Char.isDigit = some false) : (r >>= f).Scans (u ++ v) b := by
  intro rest
  have stop : NotAhead Char.isDigit (v ++ rest) := by
    cases v with
    | nil => cases apart
    | cons c v =>
      rintro _ ⟨⟩
      exact Option.some.inj apart
  rw [StateT.run_bind, List.append_assoc, first _ stop]
  exact second rest

/-! ### Numbers -/

/-- A run of digits is read to its end. -/
lemma scansRun_digits {run : List Char} (all : ∀ c ∈ run, c.isDigit) : digits.ScansRun run run := by
  intro rest apart
  obtain ⟨taken, dropped⟩ := span_append all apart
  show some (_, _) = _
  rw [taken, dropped]

/-- A number is written with digits. -/
lemma isDigit_of_mem_toString {n : Nat} : ∀ c ∈ (toString n).toList, c.isDigit := by
  intro c mem
  rw [Nat.toString_eq_ofList_toDigits, String.toList_ofList] at mem
  exact Nat.isDigit_of_mem_toDigits (by decide) (by decide) mem

/-- The digits of a number have its value. -/
lemma ofDigitChars_toString (n : Nat) : Nat.ofDigitChars 10 (toString n).toList 0 = n := by
  rw [Nat.toString_eq_ofList_toDigits, String.toList_ofList, Nat.ofDigitChars_ten_toDigits]

/-- A number is read back from its digits. -/
lemma scansRun_number (n : Nat) : number.ScansRun (toString n).toList n := by
  intro rest apart
  have some : (toString n).toList ≠ [] := by
    rw [Nat.toString_eq_ofList_toDigits, String.toList_ofList]
    exact Nat.toDigits_ne_nil
  have value : Scans (do guard ((toString n).toList ≠ []); return Nat.ofDigitChars 10 (toString n).toList 0)
      [] n := by
    rw [ofDigitChars_toString]
    exact (Scans.guarded some).finish (.pure n)
  rw [number, StateT.run_bind, scansRun_digits isDigit_of_mem_toString rest apart]
  exact value rest

/-- A name is read back as the number of its handle. -/
lemma scansRun_name (h : Handle) : name.ScansRun (Picture.name h).toList h.index := by
  intro rest apart
  rw [Picture.name, String.toList_append, List.append_assoc, name, StateT.run_bind, Scans.literal]
  exact scansRun_number h.index rest apart

/-- The digits behind the point of a length. -/
def decimals (n : Nat) : List Char :=
  List.replicate (3 - (toString n).length) '0' ++ (toString n).toList

/-- Decimal places are digits, those filled in with zeros included. -/
lemma isDigit_of_mem_decimals {n : Nat} : ∀ c ∈ decimals n, c.isDigit := by
  intro c mem
  rcases List.mem_append.1 mem with zero | mem
  · rw [List.eq_of_mem_replicate zero]
    rfl
  · exact isDigit_of_mem_toString c mem

/-- There are three decimal places. -/
lemma length_decimals {n : Nat} (small : n < 1000) : (decimals n).length = 3 := by
  have short : (toString n).length ≤ 3 := by
    rw [← String.length_toList, Nat.toString_eq_ofList_toDigits, String.toList_ofList]
    exact (Nat.length_toDigits_le_iff (by decide) (by decide)).2 small
  rw [decimals, List.length_append, List.length_replicate, String.length_toList]
  omega

/-- Zeros in front do not change the value of the decimal places. -/
lemma ofDigitChars_decimals (n : Nat) : Nat.ofDigitChars 10 (decimals n) 0 = n := by
  rw [decimals, Nat.ofDigitChars_append, Nat.ofDigitChars_replicate_zero, Nat.mul_zero, ofDigitChars_toString]

/-- A length is written in whole inches and decimal places. -/
lemma toList_length_text (n : Nat) : (Length.text ⟨n⟩).toList =
    (toString (n / 1000)).toList ++ (".".toList ++ (decimals (n % 1000) ++ "i".toList)) := by
  simp only [Length.text, decimals, String.toList_append, String.toList_ofList, List.append_assoc]

/-- A length is read back. -/
lemma scans_length (x : Length) : length.Scans x.text.toList x := by
  obtain ⟨n⟩ := x
  have three := length_decimals (Nat.mod_lt n (show 0 < 1000 by decide))
  have read : length.Scans (Length.text ⟨n⟩).toList
      ⟨1000 * (n / 1000) + Nat.ofDigitChars 10 (decimals (n % 1000)) 0⟩ := by
    rw [toList_length_text]
    refine (scansRun_number _).bind ?_ rfl
    refine (Scans.literal _).bind ?_
    refine (scansRun_digits isDigit_of_mem_decimals).bind ?_ rfl
    exact (Scans.guarded three).bind ((Scans.literal _).finish (.pure _))
  rwa [ofDigitChars_decimals, Nat.div_add_mod] at read

/-! ### Captions -/

/-- A caption that is not empty, and has no quote in it unless it is its first character. -/
def Plain (text : String) : Prop := text.toList ≠ [] ∧ ∀ c ∈ text.toList.tail, c ≠ '"'

/-- A single character is plain, even if it is a quote. -/
lemma plain_toString (c : Char) : Plain c.toString := by
  have chars : c.toString.toList = [c] := String.toList_singleton c
  rw [Plain, chars]
  exact ⟨List.cons_ne_nil _ _, nofun⟩

/-- A number is plain, with its minus if it has one. -/
lemma plain_number (v : Int) : Plain (toString v) := by
  have digits (n : Nat) : n.repr.toList ≠ [] ∧ '"' ∉ n.repr.toList := by
    rw [Nat.toList_repr]
    refine ⟨Nat.toDigits_ne_nil, fun mem => ?_⟩
    exact absurd (Nat.isDigit_of_mem_toDigits (by decide) (by decide) mem) (by decide)
  rw [Plain, Int.toString_eq_repr, Int.repr_eq_if]
  split
  · exact ⟨(digits _).1, fun c mem quote => (digits _).2 (quote ▸ List.mem_of_mem_tail mem)⟩
  · rw [String.toList_append]
    exact ⟨List.append_ne_nil_of_right_ne_nil _ (digits _).1, fun c mem quote => (digits _).2 (quote ▸ mem)⟩

/-- A caption ends before the first quote behind its first character. -/
lemma Plain.run_caption {text : String} {rest : List Char} (plain : Plain text) :
    caption.run (text.toList ++ '"' :: rest) = some (text, '"' :: rest) := by
  obtain ⟨some, plain⟩ := plain
  obtain ⟨c, cs, e⟩ := List.exists_cons_of_ne_nil some
  have whole : String.ofList (c :: cs) = text := by rw [← e, String.ofList_toList]
  rw [e, List.tail_cons] at plain
  have inside : ∀ d ∈ cs, decide (d ≠ '"') = true := fun d mem => decide_eq_true (plain d mem)
  have quote : NotAhead (fun d => decide (d ≠ '"')) ('"' :: rest) := by
    rintro _ ⟨⟩
    rfl
  obtain ⟨taken, dropped⟩ := span_append inside quote
  rw [e, List.cons_append]
  generalize cs ++ '"' :: rest = text at taken dropped
  show Option.some (String.ofList (c :: text.takeWhile fun d => decide (d ≠ '"')), _) = _
  rw [taken, dropped, whole]

/-- A plain caption is read back to the quote behind it. -/
lemma scans_captioned {text : String} (outline : String) (figure : String → Figure) (plain : Plain text) :
    (captioned outline figure).Scans
      (outline.toList ++ (text.toList ++ ("\"".toList ++ "\n".toList))) (figure text) := by
  refine (Scans.literal outline).bind fun rest => ?_
  have ending : Scans (do literal "\""; literal "\n"; return figure text)
      ("\"".toList ++ "\n".toList) (figure text) :=
    (Scans.literal _).bind ((Scans.literal _).finish (.pure _))
  rw [StateT.run_bind, List.append_assoc]
  show (caption.run (text.toList ++ '"' :: ("\n".toList ++ rest))).bind _ = _
  rw [plain.run_caption]
  exact ending rest

/-- The figure of a node is read back from its line. -/
lemma scans_shapeText (k : Kind) :
    (captioned "circle radius 0.15i \"" .circle <|> captioned "box width 0.3i height 0.3i \"" .box).Scans
      (shapeText k ++ "\n").toList (figure k) := by
  cases k with
  | op o =>
    show Scans _ ("circle radius 0.15i \"" ++ o.symbol.toString ++ "\"" ++ "\n").toList _
    simp only [String.toList_append, List.append_assoc]
    exact .left (scans_captioned _ .circle (plain_toString _))
  | const v =>
    show Scans _ ("box width 0.3i height 0.3i \"" ++ toString v.toInt ++ "\"" ++ "\n").toList _
    simp only [String.toList_append, List.append_assoc]
    exact .right (Misses.append fun _ => rfl) (scans_captioned _ .box (plain_number _))
  | var c =>
    show Scans _ ("box width 0.3i height 0.3i \"" ++ c.toString ++ "\"" ++ "\n").toList _
    simp only [String.toList_append, List.append_assoc]
    exact .right (Misses.append fun _ => rfl) (scans_captioned _ .box (plain_toString _))

/-! ### Lines -/

/-- A side is read back from its word. -/
lemma scans_side (side : Picture.Side) : Scanner.side.Scans side.text.toList side := by
  cases side with
  | left => exact .left ((Scans.literal _).finish (.pure _))
  | right => exact .right (fun _ => rfl) (.left ((Scans.literal _).finish (.pure _)))
  | bottom => exact .right (fun _ => rfl) (.right (fun _ => rfl) ((Scans.literal _).finish (.pure _)))

/-- The line of a shape is read back. -/
lemma scans_shape (cell : Cell) :
    command.Scans (Picture.name cell.handle ++ ": " ++ shapeText cell.kind ++ "\n").toList
      (.define cell.handle.index (figure cell.kind)) := by
  have line : (Picture.name cell.handle ++ ": " ++ shapeText cell.kind ++ "\n").toList =
      (Picture.name cell.handle).toList ++ (": ".toList ++ (shapeText cell.kind ++ "\n").toList) := by
    simp only [String.toList_append, List.append_assoc]
  -- No other command begins with the letter of a name.
  have other {t : Scanner Command} (misses : t.Misses "N".toList) :
      t.Misses ((Picture.name cell.handle).toList ++
        (": ".toList ++ (shapeText cell.kind ++ "\n").toList)) := by
    rw [Picture.name, String.toList_append, List.append_assoc]
    exact misses.append
  rw [line]
  refine .right (other fun _ => rfl) <| .right (other fun _ => rfl) <| .right (other fun _ => rfl) <|
    .right (other fun _ => rfl) ?_
  refine (scansRun_name cell.handle).bind ?_ rfl
  exact (Scans.literal _).bind ((scans_shapeText cell.kind).finish (.pure _))

/-- The line of a move to a shape is read back. -/
lemma scans_moveTo (h : Handle) :
    command.Scans ("move to " ++ Picture.name h ++ "\n").toList (.moveTo h.index) := by
  simp only [String.toList_append, List.append_assoc]
  refine .left ((Scans.literal _).bind ?_)
  exact (scansRun_name h).bind ((Scans.literal _).finish (.pure _)) rfl

/-- The line of a move straight down is read back. -/
lemma scans_straight : command.Scans ("move down 0.5i" ++ "\n").toList (.moveDown none) := by
  rw [String.toList_append]
  refine .right (Misses.append fun _ => rfl) <| .left ?_
  exact (Scans.literal _).bind ((Scans.literal _).finish (.pure _))

/-- The line of a move down and aside is read back, which is not taken for a straight one. -/
lemma scans_aside (side : Picture.Side) (x : Length) :
    command.Scans ("move down 0.5i " ++ side.text ++ " " ++ x.text ++ "\n").toList
      (.moveDown (some (side, x))) := by
  simp only [String.toList_append, List.append_assoc]
  refine .right (Misses.append fun _ => rfl) <| .right (Misses.append fun _ => rfl) <| .left ?_
  refine (Scans.literal _).bind <| (scans_side side).bind <| (Scans.literal _).bind ?_
  exact (scans_length x).bind ((Scans.literal _).finish (.pure _))

/-- The line of an arrow is read back. -/
lemma scans_arrow (side : Picture.Side) (parent child : Handle) :
    command.Scans ("arrow from " ++ side.text ++ " of " ++ Picture.name parent ++ " to top of " ++
      Picture.name child ++ "\n").toList (.arrow side parent.index child.index) := by
  simp only [String.toList_append, List.append_assoc]
  refine .right (Misses.append fun _ => rfl) <| .right (Misses.append fun _ => rfl) <|
    .right (Misses.append fun _ => rfl) <| .left ?_
  refine (Scans.literal _).bind <| (scans_side side).bind <| (Scans.literal _).bind ?_
  refine (scansRun_name parent).bind ((Scans.literal _).bind ?_) rfl
  exact (scansRun_name child).bind ((Scans.literal _).finish (.pure _)) rfl

/-- The line of a statement is read as what it says. -/
lemma scans_statement (s : Statement) : command.Scans (s.text ++ "\n").toList s.command := by
  cases s with
  | shape cell => exact scans_shape cell
  | moveTo h => exact scans_moveTo h
  | moveDown side x =>
    cases side with
    | left => exact scans_aside .left x
    | right => exact scans_aside .right x
    | bottom => exact scans_straight
  | arrow side parent child => exact scans_arrow side parent child

/-- The characters of the lines of statements. -/
def spelling (statements : List Statement) : List Char :=
  statements.flatMap fun s => (s.text ++ "\n").toList

/-- Each statement has a line of its own. -/
lemma spelling_cons (s : Statement) (statements : List Statement) :
    spelling (s :: statements) = (s.text ++ "\n").toList ++ spelling statements := List.flatMap_cons

/-- There are no more statements than characters. -/
lemma length_le_spelling (statements : List Statement) :
    statements.length ≤ (spelling statements).length := by
  induction statements with
  | nil => exact le_rfl
  | cons s statements ih =>
    have newline : "\n".toList.length = 1 := rfl
    rw [spelling_cons, List.length_append, String.toList_append, List.length_append, List.length_cons,
      newline]
    omega

/-- All statements are read back, and then the end of the picture. -/
lemma scans_commands (statements : List Statement) {count : Nat} (enough : statements.length < count) :
    (commands count).Scans (spelling statements ++ ".PE\n".toList) (statements.map Statement.command) := by
  induction statements generalizing count with
  | nil =>
    cases count with
    | zero => cases enough
    | succ count => exact .right (fun _ => rfl) ((Scans.literal ".PE\n").finish (.pure []))
  | cons s statements ih =>
    cases count with
    | zero => cases enough
    | succ count =>
      have rest := ih (Nat.lt_of_succ_lt_succ enough)
      rw [spelling_cons, List.append_assoc]
      exact .left ((scans_statement s).bind (rest.finish (.pure _)))

/-- A picture is its header, the lines of its statements and its end. -/
lemma toList_text (t : Tree Cell) : (text t).toList =
    ".ft C\n.ps 12\n.PS\n".toList ++ (spelling (statements {} t) ++ ".PE\n".toList) := by
  have head : ([".ft C", ".ps 12", ".PS"].map (· ++ "\n")).flatMap String.toList =
    ".ft C\n.ps 12\n.PS\n".toList := by decide
  have last : ([".PE"].map (· ++ "\n")).flatMap String.toList = ".PE\n".toList := by decide
  rw [text, String.toList_join, lines, List.map_append, List.map_append, List.flatMap_append,
    List.flatMap_append, head, last, List.map_map, List.flatMap_map, List.append_assoc]
  rfl

end Scanner

/-- What is read from the picture of a tree are the statements that draw it. -/
lemma program?_text (t : Tree Cell) :
    program? (text t) = some ((statements {} t).map Statement.command) := by
  have enough : (statements {} t).length < (text t).length := by
    have le := Scanner.length_le_spelling (statements {} t)
    have ending : ".PE\n".toList.length = 4 := rfl
    rw [← String.length_toList, Scanner.toList_text, List.length_append, List.length_append, ending]
    omega
  have read : (Scanner.picture (text t).length).Scans (text t).toList
      ((statements {} t).map Statement.command) := by
    rw [Scanner.toList_text]
    exact (Scanner.Scans.literal _).bind (Scanner.scans_commands _ enough)
  have all := read []
  rw [List.append_nil] at all
  rw [program?, all]

end ExprOpt.Picture
