/-!
# Delimited texts

A text is put between two delimiters with a backslash before each closing delimiter and each
backslash. A reader takes any escaped character for itself, except that a backslash never stands at
the end of a line; `read?_encode` says that what was written is read back, whatever follows.
-/
namespace Constituency.Text.Delimited

/-- Puts a backslash before each closing delimiter and each backslash. -/
def encode (close : Char) : List Char → List Char
  | [] => []
  | c :: rest =>
    if c = close ∨ c = '\\' then '\\' :: c :: encode close rest else c :: encode close rest

/-- A text between its delimiters. -/
def written (opening close : Char) (text : List Char) : List Char :=
  opening :: encode close text ++ [close]

/-- Reads up to the closing delimiter: the text, and what follows the delimiter. -/
def read? (close : Char) : List Char → Option (List Char × List Char)
  | [] => none
  | ['\\'] => none
  | '\\' :: c :: rest =>
    if c = '\n' then none else (read? close rest).map fun r => (c :: r.1, r.2)
  | c :: rest =>
    if c = close then some ([], rest) else (read? close rest).map fun r => (c :: r.1, r.2)

theorem read?_encode {close : Char} (hclose : close ≠ '\\') (hline : close ≠ '\n')
    (text rest : List Char) : read? close (encode close text ++ close :: rest) = some (text, rest) := by
  induction text with
  | nil => simp only [encode, List.nil_append]; unfold read?; split <;> simp_all
  | cons c text ih =>
    by_cases hc : c = close ∨ c = '\\'
    · have hn : c ≠ '\n' := by rcases hc with rfl | rfl <;> simp_all
      simp [encode, hc, read?, hn, ih]
    · have hcl : c ≠ close := fun h => hc (Or.inl h)
      have hb : c ≠ '\\' := fun h => hc (Or.inr h)
      simp only [encode, if_neg hc, List.cons_append]
      unfold read?
      split <;> simp_all

end Constituency.Text.Delimited
