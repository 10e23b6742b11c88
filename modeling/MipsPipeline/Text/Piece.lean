/-
Cutting a text at separator characters.
-/
namespace MipsPipeline.Text

/-- A separator opens a new piece in front of the pieces to its right; any other character joins
the piece that it stands next to. -/
def pieceStep (isSeparator : Char → Bool) (c : Char) (pieces : List (List Char)) :
    List (List Char) :=
  if isSeparator c then [] :: pieces
  else match pieces with
    | [] => [[c]]
    | piece :: rest => (c :: piece) :: rest

/-- The pieces of a text: a separator ends a piece, so a text that ends in one has no empty last
piece. -/
def pieces (isSeparator : Char → Bool) (text : List Char) : List (List Char) :=
  text.foldr (pieceStep isSeparator) []

/-- The fields of a text: unlike a piece, a field stands between two separators, so there is
always one more field than there are separators. -/
def fields (isSeparator : Char → Bool) (text : List Char) : List (List Char) :=
  text.foldr (pieceStep isSeparator) [[]]

/-- The lines of a text. A carriage return stays in its line, at whose end it is blank. -/
def lines (text : List Char) : List (List Char) := pieces (· = '\n') text

/-- The pieces that hold something. -/
def tokens (isSeparator : Char → Bool) (text : List Char) : List (List Char) :=
  (pieces isSeparator text).filter (· ≠ [])

/-- The text in front of the first `c` and the text behind it, if there is a `c`. -/
def cut? (c : Char) (text : List Char) : Option (List Char × List Char) :=
  match text.dropWhile (· ≠ c) with
  | [] => none
  | _ :: back => some (text.takeWhile (· ≠ c), back)

/-- The text in front of the first `c`: all of it if there is none. -/
def before (c : Char) (text : List Char) : List Char := text.takeWhile (· ≠ c)

theorem eq_of_cut? {c : Char} {text front back : List Char}
    (h : cut? c text = some (front, back)) : text = front ++ c :: back := by
  induction text generalizing front with
  | nil => simp [cut?] at h
  | cons d rest ih =>
    by_cases same : d = c
    · simp [cut?, same] at h
      simp [same, h.1.symm, h.2]
    · have stepped : cut? c (d :: rest) = (cut? c rest).map fun (f, b) => (d :: f, b) := by
        simp only [cut?, List.dropWhile_cons, List.takeWhile_cons, same, ne_eq, not_false_eq_true,
          decide_true, ↓reduceIte]
        split <;> simp
      rw [stepped, Option.map_eq_some_iff] at h
      obtain ⟨⟨f, b⟩, found, pair⟩ := h
      simp only [Prod.mk.injEq] at pair
      obtain ⟨rfl, rfl⟩ := pair
      rw [ih found]
      rfl

end MipsPipeline.Text
