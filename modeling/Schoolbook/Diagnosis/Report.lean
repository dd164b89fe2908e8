import Schoolbook.Diagnosis

/-!
Reports that show a diagnosis in a terminal: the source with the blamed part underlined, the words
beside it, and a line of help. The columns are right for a source of one line in which every
character takes one byte and one column.
-/
namespace Schoolbook.Diagnosis

def spaces (n : Nat) : String := String.ofList (List.replicate n ' ')

def dashes (n : Nat) : String := String.ofList (List.replicate n '─')

/-- The underline has a joint in its middle, from which a line leads to the label. -/
def excerpt (sourceId source : String) (fault : Fault) (s : Span) : List String :=
  let joint := (s.start + s.stop) / 2
  [s!"   ╭─[{sourceId}:1:{s.start + 1}]",
    "   │",
    " 1 │ " ++ source,
    "   │ " ++ spaces s.start ++ dashes (joint - s.start) ++ "┬" ++ dashes (s.stop - joint - 1),
    "   │ " ++ spaces joint ++ "╰" ++ dashes (s.stop + 1 - joint) ++ " " ++ fault.label]

/-- Without a span there is nothing to show but the message. -/
def report (sourceId source : String) (d : Diagnosis) : List String :=
  let title := "Error: " ++ d.fault.message
  match d.spans with
  | [] => [title]
  | s :: _ =>
    let help := match d.fault.help? with
      | some text => ["   │", "   │ Help: " ++ text]
      | none => []
    title :: excerpt sourceId source d.fault s ++ help ++ ["───╯"]

end Schoolbook.Diagnosis
