/-!
Languages in which an expression may be asked to be read aloud.
-/
namespace Schoolbook

/-- The last one stands for a language that was never set or not recognized. -/
inductive Language where
  | english
  | arabic
  | hindi
  | hinglish
  | portuguese
  | brazilianPortuguese
  | unspecified
  deriving DecidableEq, Repr

namespace Language

def all : List Language :=
  [.english, .arabic, .hindi, .hinglish, .portuguese, .brazilianPortuguese, .unspecified]

def name : Language → String
  | .english => "English"
  | .arabic => "Arabic"
  | .hindi => "Hindi"
  | .hinglish => "Hinglish"
  | .portuguese => "Portuguese"
  | .brazilianPortuguese => "BrazilianPortuguese"
  | .unspecified => "Unspecified"

/-- Any other name is an unspecified language. -/
def ofName (name : String) : Language :=
  (all.find? fun language => language.name == name).getD .unspecified

/-- The name as it is used in a sentence. -/
def title : Language → String
  | .brazilianPortuguese => "Brazilian Portuguese"
  | .unspecified => "an unspecified language"
  | language => language.name

end Language

structure ProseStyle where
  language : Language
  /-- Whether a division reads as a fraction ("two thirds") and not as "divided by". -/
  divAsFraction : Bool
  deriving DecidableEq, Repr

end Schoolbook
