/-!
# Cutting text at a separator

A text is cut at every occurrence of a separator, so there is always one piece more than there are
separators, and two separators in a row have an empty piece between them.
-/

namespace BasicTokens.Text

/-- The pieces between the occurrences of `separator`. -/
def pieces {α : Type} [DecidableEq α] (separator : α) : List α → List (List α)
  | [] => [[]]
  | a :: rest =>
    if a = separator then [] :: pieces separator rest
    else
      match pieces separator rest with
      | [] => [[a]]
      | piece :: others => (a :: piece) :: others

end BasicTokens.Text
