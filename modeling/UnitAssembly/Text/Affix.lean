/-!
Contract: texts with a known beginning or ending taken off.

Owns: `withoutBeginning?` and `withoutEnding?`.

Does not own: which beginnings and endings mean something.
-/

namespace UnitAssembly.Text

def withoutBeginning? (beginning text : String) : Option String :=
  if beginning.toList.isPrefixOf text.toList then
    some (String.ofList (text.toList.drop beginning.toList.length))
  else
    none

def withoutEnding? (ending text : String) : Option String :=
  if ending.toList.isSuffixOf text.toList then
    some (String.ofList (text.toList.take (text.toList.length - ending.toList.length)))
  else
    none

end UnitAssembly.Text
