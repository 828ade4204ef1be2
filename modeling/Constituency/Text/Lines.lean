/-!
# Lines

A line ends with a line feed, and a carriage return right before the line feed belongs to the
ending. What follows the last line feed is a line too unless it is empty; it keeps a final carriage
return.
-/
namespace Constituency.Text

/-- Puts a character in front of the first line, but for a carriage return that belongs to the
ending. -/
def extendLines (c : Char) (beforeFeed : Bool) : List (List Char) → List (List Char)
  | [] => [[c]]
  | line :: lines => if c = '\r' ∧ beforeFeed then line :: lines else (c :: line) :: lines

/-- The lines of a text without their endings. -/
def lines : List Char → List (List Char)
  | [] => []
  | c :: rest =>
    if c = '\n' then [] :: lines rest else extendLines c (rest.head? = some '\n') (lines rest)

/-- The first line of a text, if the text is not empty. -/
def firstLine? (cs : List Char) : Option (List Char) :=
  (lines cs).head?

end Constituency.Text
