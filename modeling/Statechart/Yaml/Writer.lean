import Statechart.Yaml.Quoted

/-!
# Writing YAML

Mappings are written in block style, their entries indented by two columns at each level.
-/
namespace Statechart

/-- What is written: scalars that stand as they are, texts that are quoted where they must be, and
mappings. -/
inductive Yaml where
  | plain (scalar : String)
  | text (value : String)
  | map (entries : List (String × Yaml))

namespace Yaml

mutual

/-- A value after the colon of its key, whose own entries or lines have an indentation. -/
def writeValue (indent : Nat) : Yaml → List Char
  | plain s => ' ' :: s.toList ++ ['\n']
  | text s => ' ' :: textValue indent s
  | map [] => [' ', '\x7b', '\x7d', '\n']
  | map entries => '\n' :: writeEntries indent entries

def writeEntries (indent : Nat) : List (String × Yaml) → List Char
  | [] => []
  | (key, value) :: entries =>
    List.replicate indent ' ' ++ textKey key ++ ':' :: writeValue (indent + 2) value ++
      writeEntries indent entries

end

/-- The document that is a mapping with some entries. -/
def writeMapping (entries : List (String × Yaml)) : String :=
  String.ofList (if entries.isEmpty then ['\x7b', '\x7d', '\n'] else writeEntries 0 entries)

end Yaml

end Statechart
