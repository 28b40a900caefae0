import ExprOpt.Grammar.Expression
import ExprOpt.Tree
import Mathlib.Data.Nat.Digits.Defs

/-!
# The language of expressions

The context-free grammar of expressions, without any regard to how they are read. `Phrase` relates a
piece of text to the tree that it stands for. It says nothing about which of several derivations is to
be preferred; that there is only one tree for a text is a consequence of how texts are read
(`Text.unique`).

An operator follows a whole series on its left and precedes a single operand on its right, so that
series group to the left. A series is also a first operand followed by a list of `Item`s
(`Series.items`, `Series.append`), which is the form in which it is read.
-/

namespace ExprOpt.Grammar

/-- The syntactic categories. -/
inductive Category where
  | sum
  | product
  | factor

/-- A text that consists of blanks. -/
def Blank (w : List Char) : Prop := ∀ c ∈ w, isBlank c

/-- The number that a list of digits denotes in the decimal system. -/
def numeral (digits : List Char) : Nat :=
  Nat.ofDigits 10 (digits.reverse.map fun c => c.toNat - '0'.toNat)

/-- The operators of a product. -/
inductive ProductSign : Char → Op → Prop where
  | times :
    ProductSign '*' .mul
  | over :
    ProductSign '/' .div

/-- The operators of a sum. -/
inductive SumSign : Char → Op → Prop where
  | plus :
    SumSign '+' .add
  | minus :
    SumSign '-' .sub

/-- `Phrase c n w t`: the text `w` is a phrase of category `c` that stands for the tree `t`, and at most
`n` parentheses and unary minuses of it enclose any of its places. -/
inductive Phrase : Category → Nat → List Char → Tree Kind → Prop where
  | letter {n b c} :
    Blank b →
    c.isAlpha →
    Phrase .factor n (b ++ [c]) (.node (.var c) .nil .nil)
  | number {n b digits} {v : Int64} :
    Blank b →
    digits ≠ [] →
    (∀ c ∈ digits, c.isDigit) →
    numeral digits ≤ 2 ^ 63 - 1 →
    v.toInt = numeral digits →
    Phrase .factor n (b ++ digits) (.node (.const v) .nil .nil)
  | parenthesized {n b w t b'} :
    Blank b →
    Phrase .sum n w t →
    Blank b' →
    Phrase .factor (n + 1) (b ++ '(' :: (w ++ (b' ++ [')']))) t
  | negation {n b w t} :
    Blank b →
    Phrase .factor n w t →
    Phrase .factor (n + 1) (b ++ '-' :: w) (.node (.op .sub) t .nil)
  | factor {n w t} :
    Phrase .factor n w t →
    Phrase .product n w t
  | product {n w l b c op v r} :
    Phrase .product n w l →
    Blank b →
    ProductSign c op →
    Phrase .factor n v r →
    Phrase .product n (w ++ (b ++ c :: v)) (.node (.op op) l r)
  | term {n w t} :
    Phrase .product n w t →
    Phrase .sum n w t
  | sum {n w l b c op v r} :
    Phrase .sum n w l →
    Blank b →
    SumSign c op →
    Phrase .product n v r →
    Phrase .sum n (w ++ (b ++ c :: v)) (.node (.op op) l r)

/-- A whole text: a sum in which no place is enclosed by more than 256 parentheses and unary minuses,
and blanks after it. -/
def Text (w : List Char) (t : Tree Kind) : Prop :=
  ∃ v b, w = v ++ b ∧ Phrase .sum 256 v t ∧ Blank b

/-- A phrase stands for some node. -/
lemma Phrase.size_pos {c n w t} (p : Phrase c n w t) : 0 < t.size := by
  induction p with
  | parenthesized _ _ _ ih => exact ih
  | factor _ ih => exact ih
  | term _ ih => exact ih
  | _ =>
    simp only [Tree.size]
    omega

/-- A piece of a series: an operator and the operand on its right. -/
structure Item where
  word : List Char
  op : Op
  tree : Tree Kind

namespace Item

/-- The item is written as it should be, given how operators and operands are written. -/
def Spelled (sign : Char → Op → Prop) (operand : List Char → Tree Kind → Prop) (i : Item) : Prop :=
  ∃ b c v, i.word = b ++ c :: v ∧ Blank b ∧ sign c i.op ∧ operand v i.tree

/-- The text of a list of items. -/
def text (items : List Item) : List Char := (items.map Item.word).flatten

/-- Puts the operators of a list of items above a first operand, from left to right. -/
def build (first : Tree Kind) (items : List Item) : Tree Kind :=
  items.foldl (fun l i => .node (.op i.op) l i.tree) first

/-- The number of nodes that a list of items adds to a first operand. -/
def nodes (items : List Item) : Nat := (items.map fun i => i.tree.size).sum + items.length

/-- No items are spelled with nothing. -/
@[simp] lemma text_nil : text [] = [] := rfl

/-- Items are spelled one after the other. -/
@[simp] lemma text_cons (i : Item) (items : List Item) : text (i :: items) = i.word ++ text items := rfl

/-- A series without items is its first operand. -/
@[simp] lemma build_nil (first : Tree Kind) : build first [] = first := rfl

/-- Items are applied from the left. -/
@[simp] lemma build_cons (first : Tree Kind) (i : Item) (items : List Item) :
    build first (i :: items) = build (.node (.op i.op) first i.tree) items := rfl

/-- The tree of a series has the nodes of all operands and one for each operator. -/
lemma size_build (first : Tree Kind) (items : List Item) :
    (build first items).size = first.size + nodes items := by
  induction items generalizing first with
  | nil => rfl
  | cons i items ih =>
    rw [build_cons, ih]
    simp only [Tree.size, nodes, List.map_cons, List.sum_cons, List.length_cons]
    omega

end Item

/-- A series: operands with signs between them, grouped to the left. -/
inductive Series (sign : Char → Op → Prop) (operand : List Char → Tree Kind → Prop) :
    List Char → Tree Kind → Prop where
  | single {w t} :
    operand w t →
    Series sign operand w t
  | snoc {w l b c op v r} :
    Series sign operand w l →
    Blank b →
    sign c op →
    operand v r →
    Series sign operand (w ++ (b ++ c :: v)) (.node (.op op) l r)

namespace Series

variable {sign : Char → Op → Prop} {operand : List Char → Tree Kind → Prop} {w : List Char}
  {t : Tree Kind}

/-- Items may be put behind a series. -/
lemma append {items : List Item} (p : Series sign operand w t)
    (spelled : ∀ i ∈ items, i.Spelled sign operand) :
    Series sign operand (w ++ Item.text items) (Item.build t items) := by
  induction items generalizing w t with
  | nil => simpa using p
  | cons i items ih =>
    obtain ⟨b, c, v, word, blank, mark, q⟩ := spelled i List.mem_cons_self
    have longer := ih (p.snoc blank mark q) fun j mem => spelled j (.tail _ mem)
    rwa [← word, List.append_assoc] at longer

/-- A series is a first operand followed by items. -/
lemma items (p : Series sign operand w t) : ∃ v first items, operand v first ∧
    (∀ i ∈ items, i.Spelled sign operand) ∧ w = v ++ Item.text items ∧ t = Item.build first items := by
  induction p with
  | single p => exact ⟨_, _, [], p, by simp, by simp, rfl⟩
  | @snoc w l b c op u r _ blank mark q ih =>
    obtain ⟨v, first, items, p, spelled, rfl, rfl⟩ := ih
    refine ⟨v, first, items ++ [⟨b ++ c :: u, op, r⟩], p, ?_, ?_, ?_⟩
    · intro i mem
      rcases List.mem_append.1 mem with mem | mem
      · exact spelled i mem
      · cases List.mem_singleton.1 mem
        exact ⟨b, c, u, rfl, blank, mark, q⟩
    · simp [Item.text]
    · simp [Item.build]

end Series

/-- A product is a series of factors. -/
lemma product_iff {n w t} :
    Phrase .product n w t ↔ Series ProductSign (Phrase .factor n) w t := by
  constructor
  · intro p
    generalize e : Category.product = c at p
    induction p with
    | factor p _ => exact .single p
    | product _ blank mark q ih _ => exact (ih e).snoc blank mark q
    | _ => cases e
  · intro p
    induction p with
    | single p => exact .factor p
    | snoc _ blank mark q ih => exact .product ih blank mark q

/-- A sum is a series of products. -/
lemma sum_iff {n w t} : Phrase .sum n w t ↔ Series SumSign (Phrase .product n) w t := by
  constructor
  · intro p
    generalize e : Category.sum = c at p
    induction p with
    | term p _ => exact .single p
    | sum _ blank mark q ih _ => exact (ih e).snoc blank mark q
    | _ => cases e
  · intro p
    induction p with
    | single p => exact .term p
    | snoc _ blank mark q ih => exact .sum ih blank mark q

end ExprOpt.Grammar
