import BasicTokens.Text.CharClass

/-!
# Positions in a text

A position is a row and a column, both counted from one. It belongs to the character that is read
next: reading a line end opens a new row, reading anything else moves one column on.
-/

namespace BasicTokens

structure Position where
  row : Nat
  column : Nat
deriving DecidableEq, Repr

namespace Position

def start : Position := ⟨1, 1⟩

instance : Inhabited Position := ⟨start⟩

def after (p : Position) (c : Char) : Position :=
  if isLineBreak c then ⟨p.row + 1, 1⟩ else ⟨p.row, p.column + 1⟩

def afterAll (p : Position) (cs : List Char) : Position :=
  cs.foldl after p

/-- Reading order: by row, and by column within a row. -/
def order (p q : Position) : Ordering :=
  (compare p.row q.row).then (compare p.column q.column)

instance : Ord Position := ⟨order⟩

instance : LT Position where
  lt p q := p.row < q.row ∨ p.row = q.row ∧ p.column < q.column

instance : LE Position where
  le p q := p.row < q.row ∨ p.row = q.row ∧ p.column ≤ q.column

instance (p q : Position) : Decidable (p < q) :=
  inferInstanceAs (Decidable (p.row < q.row ∨ p.row = q.row ∧ p.column < q.column))

instance (p q : Position) : Decidable (p ≤ q) :=
  inferInstanceAs (Decidable (p.row < q.row ∨ p.row = q.row ∧ p.column ≤ q.column))

theorem lt_def {p q : Position} :
    p < q ↔ p.row < q.row ∨ p.row = q.row ∧ p.column < q.column := Iff.rfl

theorem le_def {p q : Position} :
    p ≤ q ↔ p.row < q.row ∨ p.row = q.row ∧ p.column ≤ q.column := Iff.rfl

theorem order_eq_lt {p q : Position} : p.order q = .lt ↔ p < q := by
  rw [order, Ordering.then_eq_lt, Nat.compare_eq_lt, Nat.compare_eq_eq, Nat.compare_eq_lt, lt_def]

theorem order_eq_eq {p q : Position} : p.order q = .eq ↔ p = q := by
  rw [order, Ordering.then_eq_eq, Nat.compare_eq_eq, Nat.compare_eq_eq]
  cases p
  cases q
  simp

@[simp] theorem afterAll_nil (p : Position) : p.afterAll [] = p := rfl

@[simp] theorem afterAll_cons (p : Position) (c : Char) (cs : List Char) :
    p.afterAll (c :: cs) = (p.after c).afterAll cs := rfl

theorem afterAll_append (p : Position) (cs ds : List Char) :
    p.afterAll (cs ++ ds) = (p.afterAll cs).afterAll ds :=
  List.foldl_append

theorem lt_after (p : Position) (c : Char) : p < p.after c := by
  unfold after
  split <;> simp [lt_def]

def text (p : Position) : String :=
  toString p.row ++ ":" ++ toString p.column

end Position

end BasicTokens
