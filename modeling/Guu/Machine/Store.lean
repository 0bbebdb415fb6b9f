import Guu.Text.Decimal

/-!
# Variable stores

A store holds one value for each variable that has been set.  Its entries stand
in the order of the code points of their names, each name once, so that two
stores with the same values are equal.
-/

namespace Guu

/-- The values of the variables, in the order of their names. -/
structure Store where
  entries : List (String × Int64)
deriving DecidableEq, Repr

namespace Store

def empty : Store :=
  ⟨[]⟩

def put (name : String) (value : Int64) : List (String × Int64) → List (String × Int64)
  | [] => [(name, value)]
  | (other, held) :: rest =>
      if name < other then (name, value) :: (other, held) :: rest
      else if name = other then (name, value) :: rest
      else (other, held) :: put name value rest

def set (store : Store) (name : String) (value : Int64) : Store :=
  ⟨put name value store.entries⟩

def get? (store : Store) (name : String) : Option Int64 :=
  store.entries.lookup name

def render (store : Store) : String :=
  String.join <| store.entries.map fun (name, value) =>
    s!"{name} = {Text.Decimal.render value.toInt}\n"

/-- The value that was put under a name is found there, and all others stay. -/
theorem lookup_put (name other : String) (value : Int64) (entries : List (String × Int64)) :
    (put name value entries).lookup other =
      if other = name then some value else entries.lookup other := by
  induction entries with
  | nil => grind [put]
  | cons entry rest ih => grind [put]

/-- Setting a variable changes its value and no other. -/
@[simp]
theorem get?_set (store : Store) (name other : String) (value : Int64) :
    (store.set name value).get? other = if other = name then some value else store.get? other :=
  lookup_put name other value store.entries

end Store

end Guu
