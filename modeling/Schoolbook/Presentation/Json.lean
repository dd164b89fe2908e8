import Schoolbook.Json.Basic
import Schoolbook.Presentation

/-!
The JSON form of the styles of a rendering.
-/
namespace Schoolbook

namespace Language

def toJson (language : Language) : Json := .string language.name

/-- Any unknown name is accepted. -/
def ofJson? (j : Json) : Option Language := j.name?.map ofName

end Language

namespace LatexStyle

def toJson (style : LatexStyle) : Json := .object [("div_as_fraction", .bool style.divAsFraction)]

def ofJson? (j : Json) : Option LatexStyle := do
  match ← j.fields? ["div_as_fraction"] with
  | [some divAsFraction] => return ⟨← divAsFraction.bool?⟩
  | _ => none

end LatexStyle

namespace ProseStyle

def toJson (style : ProseStyle) : Json :=
  .object [("language", style.language.toJson), ("div_as_fraction", .bool style.divAsFraction)]

def ofJson? (j : Json) : Option ProseStyle := do
  match ← j.fields? ["language", "div_as_fraction"] with
  | [some language, some divAsFraction] =>
    return ⟨← Language.ofJson? language, ← divAsFraction.bool?⟩
  | _ => none

end ProseStyle
end Schoolbook
