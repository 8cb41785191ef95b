import Bourse.Text.Case

/-!
# Industries

The known industry labels in ascending order, and the chart colour of each.
-/

namespace Bourse.Industry

def palette : List (String × String) :=
  [("Automobiles & Parts", "#5B8FF9"),
    ("Banking", "#FF6B3B"),
    ("Basic Resources", "#9270CA"),
    ("Chemicals", "#269A99"),
    ("Construction & Materials", "#FF99C3"),
    ("Financial Services", "#5D7092"),
    ("Food & Beverage", "#F6BD16"),
    ("Health Care", "#6DC8EC"),
    ("Industrial Goods & Services", "#E8684A"),
    ("Insurance", "#1E9493"),
    ("Media", "#FF9845"),
    ("Oil & Gas", "#945FB9"),
    ("Personal & Household Goods", "#5AD8A6"),
    ("Real Estate", "#D3CEFD"),
    ("Retail", "#FFC53D"),
    ("Technology", "#73D13D"),
    ("Telecommunications", "#36CFC9"),
    ("Travel & Leisure", "#F759AB"),
    ("Utilities", "#597EF7")]

/-- The colour of every label outside the palette. -/
def defaultColor : String := "#9E9E9E"

def known : List String :=
  palette.map (·.1)

/-- The colour of a label, whatever the case of its ASCII letters. -/
def color (label : String) : String :=
  match palette.find? fun entry => Text.sameIgnoringAsciiCase entry.1 label with
  | some entry => entry.2
  | none => defaultColor

end Bourse.Industry
