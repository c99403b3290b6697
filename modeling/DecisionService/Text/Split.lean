/-!
# Splitting

A text cut at every separator, and parts put together with separators between them.
-/
namespace DecisionService.Text

variable {α : Type}

def split (separates : α → Bool) : List α → List (List α)
  | [] => [[]]
  | a :: rest =>
    if separates a then [] :: split separates rest
    else match split separates rest with
      | [] => [[a]]
      | part :: parts => (a :: part) :: parts

def join (separator : α) : List (List α) → List α
  | [] => []
  | [part] => part
  | part :: parts => part ++ separator :: join separator parts

end DecisionService.Text
