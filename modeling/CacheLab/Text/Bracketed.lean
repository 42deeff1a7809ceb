/-!
# CacheLab.Text.Bracketed — lists as text

How a list of items is shown: between square brackets, with commas.
-/

namespace CacheLab.Text

/-- Items between square brackets. -/
def bracketed (items : List String) : String := "[" ++ ", ".intercalate items ++ "]"

end CacheLab.Text
