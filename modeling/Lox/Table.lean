/-!
Tables from names to values. A name that is inserted again keeps its place and gets the new value.
-/

namespace Lox

abbrev Table (α : Type) : Type := List (String × α)

namespace Table

variable {α : Type}

def empty : Table α := []

def get? : Table α → String → Option α
  | [], _ => none
  | (key, value) :: rest, name => if key = name then some value else get? rest name

def insert : Table α → String → α → Table α
  | [], name, value => [(name, value)]
  | (key, old) :: rest, name, value =>
      if key = name then (name, value) :: rest else (key, old) :: insert rest name value

def contains (t : Table α) (name : String) : Bool := (t.get? name).isSome

def insertAll (t : Table α) : List (String × α) → Table α
  | [] => t
  | (name, value) :: rest => (t.insert name value).insertAll rest

theorem get?_insert (t : Table α) (name other : String) (value : α) :
    (t.insert name value).get? other = if name = other then some value else t.get? other := by
  induction t with
  | nil => simp [insert, get?]
  | cons entry rest ih =>
    by_cases same : entry.1 = name <;> by_cases hit : name = other <;>
      simp_all [insert, get?]

end Table

end Lox
