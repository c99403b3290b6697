import DecisionService.Value.Basic
import DecisionService.Wire.Format
/-!
# Contexts

The named values that an evaluation starts from and adds to.
-/
namespace DecisionService

structure Context where
  entries : Entries Value

namespace Context

instance : Inhabited Context := ⟨⟨[]⟩⟩

def empty : Context := ⟨[]⟩

def get? (name : String) (c : Context) : Option Value :=
  c.entries.get? name

def contains (name : String) (c : Context) : Bool :=
  c.entries.contains name

def set (name : String) (v : Value) (c : Context) : Context :=
  ⟨c.entries.put name v⟩

def remove (name : String) (c : Context) : Context :=
  ⟨c.entries.erase name⟩

def size (c : Context) : Nat :=
  c.entries.length

def isEmpty (c : Context) : Bool :=
  c.entries.isEmpty

def names (c : Context) : List String :=
  c.entries.names

def ofPairs (pairs : List (String × Value)) : Context :=
  ⟨Entries.ofPairs pairs⟩

def same (a b : Context) : Bool :=
  (Value.object a.entries).same (.object b.entries)

instance : Wire.Payload Context :=
  ⟨.entries, entries, fun entries => ⟨entries⟩, fun _ => rfl⟩

theorem get?_set_self (name : String) (v : Value) (c : Context) :
    (c.set name v).get? name = some v :=
  Entries.get?_put_self name v c.entries

theorem get?_set_of_ne {name other : String} (h : other ≠ name) (v : Value) (c : Context) :
    (c.set name v).get? other = c.get? other :=
  Entries.get?_put_of_ne h v c.entries

end Context

end DecisionService
