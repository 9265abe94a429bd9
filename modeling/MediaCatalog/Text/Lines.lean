/-! Texts made of lines. -/

namespace MediaCatalog.Text

/-- Every line ends in a line feed. -/
def ofLines (lines : List String) : String :=
  String.join (lines.map (· ++ "\n"))

end MediaCatalog.Text
