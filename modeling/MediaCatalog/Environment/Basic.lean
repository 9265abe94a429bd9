/-! Named settings that a program is started with. -/

namespace MediaCatalog

/-- Names and values; of a name that occurs twice the first counts. -/
abbrev Environment := List (String × String)

namespace Environment

def get? (name : String) (e : Environment) : Option String :=
  e.lookup name

/-- Sets a name that is not set. -/
def offer (name value : String) (e : Environment) : Environment :=
  if (e.get? name).isSome then e else e ++ [(name, value)]

end Environment

end MediaCatalog
