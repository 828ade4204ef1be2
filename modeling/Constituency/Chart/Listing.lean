import Constituency.Chart.Basic
import Constituency.Decimal.Places

/-!
# Listing a chart

A listing has a paragraph for each length of spans, and in it a line for each analysis, with its
span, its label and its score to four places. The analyses of a span stand in the order of their
ranking.
-/
namespace Constituency

/-- A double with a fixed number of places. -/
def fixedText (places : Nat) (x : Float) : String :=
  String.ofList ((Decimal.Binary.ofFloat x).fixedText places)

/-- A double with one digit before the point, a fixed number of places, and an exponent. -/
def scientificText (places : Nat) (x : Float) : String :=
  String.ofList ((Decimal.Binary.ofFloat x).scientificText places)

namespace Chart

variable [Logarithm Float Float]

/-- The lines of one span. -/
def spanListing (chart : Chart Float) (first last : Nat) : String :=
  String.join ((chart.cell first last).ranked.map fun a =>
    "  " ++ ({ label := a.label, first, last } : Constituent).text
      ++ " (" ++ fixedText 4 a.score ++ ")\n")

/-- The listing of a chart. -/
def listing (chart : Chart Float) : String :=
  String.join ((List.range chart.length).map fun more =>
    "Span length " ++ (more + 1).repr ++ ":\n"
      ++ String.join ((List.range (chart.length - more)).map fun first =>
        chart.spanListing first (first + more)))

end Chart

end Constituency
