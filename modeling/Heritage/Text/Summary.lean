import Heritage.Text.Quoted

/-!
# Summaries of values

Values are summarised for a reader on one line: a record by its name and its fields in braces, where
two dots stand for fields that are not shown; an optional value by `Some` or `None`; a list in
square brackets.
-/

namespace Heritage.Text

/-- The summary of a record from those of its fields. -/
def summaryOfRecord (name : String) (fields : List (String × String)) (isComplete : Bool) :
    String :=
  let shown := fields.map fun f => f.1 ++ ": " ++ f.2
  name ++ " \x7b " ++ ", ".intercalate (if isComplete then shown else shown ++ [".."]) ++ " \x7d"

/-- The summary of an optional value. -/
def summaryOfOption {α : Type} (summary : α → String) : Option α → String
  | none => "None"
  | some value => "Some(" ++ summary value ++ ")"

/-- The summary of a list. -/
def summaryOfList {α : Type} (summary : α → String) (items : List α) : String :=
  "[" ++ ", ".intercalate (items.map summary) ++ "]"

end Heritage.Text
