/-!
# Entries

Named things in a list, each name once. Putting a thing under a name that is taken replaces what was
there; all that is visible of a list of entries is what each name holds.
-/
namespace DecisionService

abbrev Entries (α : Type) := List (String × α)

namespace Entries

variable {α β : Type}

def get? (name : String) : Entries α → Option α
  | [] => none
  | (k, a) :: rest => if k = name then some a else get? name rest

def contains (name : String) (entries : Entries α) : Bool :=
  (entries.get? name).isSome

/-- The entries with a thing under a name; a new name goes to the end. -/
def put (name : String) (a : α) : Entries α → Entries α
  | [] => [(name, a)]
  | (k, b) :: rest => if k = name then (k, a) :: rest else (k, b) :: put name a rest

def erase (name : String) (entries : Entries α) : Entries α :=
  entries.filter fun entry => entry.1 ≠ name

/-- Pairs put one after the other: the last thing under a name stays. -/
def ofPairs (pairs : List (String × α)) : Entries α :=
  pairs.foldl (fun entries (name, a) => entries.put name a) []

def names (entries : Entries α) : List String :=
  entries.map Prod.fst

theorem get?_put_self (name : String) (a : α) (entries : Entries α) :
    (entries.put name a).get? name = some a := by
  induction entries with
  | nil => simp [put, get?]
  | cons entry rest ih =>
    obtain ⟨k, b⟩ := entry
    by_cases h : k = name <;> simp [put, get?, h, ih]

theorem get?_put_of_ne {name other : String} (h : other ≠ name) (a : α) (entries : Entries α) :
    (entries.put name a).get? other = entries.get? other := by
  induction entries with
  | nil => simp [put, get?, Ne.symm h]
  | cons entry rest ih =>
    obtain ⟨k, b⟩ := entry
    by_cases hk : k = name
    · subst hk
      simp [put, get?, Ne.symm h]
    · by_cases ho : k = other
      · subst ho
        simp [put, get?, h]
      · simp [put, get?, hk, ho, ih]

end Entries

end DecisionService
