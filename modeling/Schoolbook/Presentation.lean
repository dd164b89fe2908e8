import Schoolbook.Diagnosis

/-!
Renderings for a learner. They are refused as a whole if any node is malformed.
-/
namespace Schoolbook.Subject

/-- The diagnosis of the first malformed node, if there is one. -/
def checkWellFormed (s : Subject) : Except Diagnosis Unit :=
  match s.malformed? with
  | some path => .error (s.diagnose ⟨path, .malformedOperator⟩)
  | none => .ok ()

def toLatex (s : Subject) (style : LatexStyle) : Except Diagnosis String := do
  s.checkWellFormed
  return s.latex style

/-- The language is looked at first. A fault of the language has no place in the text. -/
def toProse (s : Subject) (style : ProseStyle) : Except Diagnosis String :=
  match style.language with
  | .english => do
    s.checkWellFormed
    return s.spoken style.divAsFraction
  | language => .error ⟨.unsupportedLanguage language, []⟩

end Schoolbook.Subject
