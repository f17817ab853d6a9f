/-!
# Maps keyed by names

A finite map from names to values, kept as a list of entries in increasing order
of the names. Names are ordered by code points.
-/

namespace ModelWeaver

/-- Values under distinct names, in increasing order of the names. -/
structure NameMap (α : Type) where
  entries : List (String × α) := []
  deriving Repr, Inhabited, DecidableEq

namespace NameMap

variable {α β : Type}

/-- The map without entries. -/
def empty : NameMap α := {}

/-- Store a value under a name, combined with the value that is there already. -/
def insertEntryWith (combine : α → α → α) (name : String) (value : α) :
    List (String × α) → List (String × α)
  | [] => [(name, value)]
  | (other, old) :: entries =>
    if name < other then (name, value) :: (other, old) :: entries
    else if name = other then (other, combine old value) :: entries
    else (other, old) :: insertEntryWith combine name value entries

/-- Store a value under a name; `combine old new` joins it with a value that is
there already. -/
def insertWith (combine : α → α → α) (map : NameMap α) (name : String) (value : α) :
    NameMap α :=
  ⟨insertEntryWith combine name value map.entries⟩

/-- Store a value under a name, in place of any other. -/
def insert (map : NameMap α) (name : String) (value : α) : NameMap α :=
  map.insertWith (fun _ new => new) name value

/-- The value under a name. -/
def get? (map : NameMap α) (name : String) : Option α := map.entries.lookup name

/-- Whether there is a value under a name. -/
def contains (map : NameMap α) (name : String) : Bool := (map.get? name).isSome

/-- The names in increasing order. -/
def names (map : NameMap α) : List String := map.entries.map Prod.fst

/-- The map with every value changed. -/
def mapValues (change : α → β) (map : NameMap α) : NameMap β :=
  ⟨map.entries.map fun (name, value) => (name, change value)⟩

/-- The map of some entries with distinct names. -/
def ofDistinct (entries : List (String × α)) : NameMap α :=
  ⟨entries.mergeSort fun a b => decide (a.1 ≤ b.1)⟩

/-- The map of a list of entries; of two with the same name the later counts. -/
def ofList (entries : List (String × α)) : NameMap α :=
  entries.foldl (fun map (name, value) => map.insert name value) empty

end NameMap

end ModelWeaver
