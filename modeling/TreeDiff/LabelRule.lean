/-!
# Rules for labels

* `equalIgnoringCase`: two strings are equal up to the case of their ASCII letters. All other
  characters are compared as they are.
* `LabelRule`: ready-made rules by which labels are the same. They need not be equivalences: with
  `exactExcept` one label is not even the same as itself.
-/

namespace TreeDiff

/-- The two strings are equal up to the case of ASCII letters. -/
def equalIgnoringCase (x y : String) : Bool := x.map Char.toLower = y.map Char.toLower

/-- Which labels are the same. -/
inductive LabelRule where
  /-- Equal labels. -/
  | exact
  /-- Labels that are equal up to the case of ASCII letters. -/
  | ignoreCase
  /-- Equal labels other than one, which is the same as no label. -/
  | exactExcept (label : String)

/-- The two labels are the same. -/
def LabelRule.same : LabelRule → String → String → Bool
  | .exact, l, k => l = k
  | .ignoreCase, l, k => equalIgnoringCase l k
  | .exactExcept odd, l, k => l = k ∧ l ≠ odd

end TreeDiff
