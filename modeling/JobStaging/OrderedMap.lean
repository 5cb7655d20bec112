/-!
# Maps that keep the order of insertion

A map from names to values whose entries stay in the order in which their names first came. Giving
a name again replaces its value and keeps its place. That no name comes twice is part of the type.
-/

set_option autoImplicit false

namespace JobStaging

/-- Entries in order of insertion, each name once. -/
structure OrderedMap (α : Type) where
  /-- The names and values, in order. -/
  entries : List (String × α)
  nodup : (entries.map Prod.fst).Nodup
  deriving DecidableEq, Repr

namespace OrderedMap

variable {κ α β : Type}

/-- Entries with one name's value set: in its place, or at the end if the name is new. -/
def put [DecidableEq κ] (name : κ) (value : α) : List (κ × α) → List (κ × α)
  | [] => [(name, value)]
  | entry :: rest => if entry.1 = name then (name, value) :: rest else entry :: put name value rest

/-- A new name comes last, and a known one keeps its place. -/
theorem map_fst_put [DecidableEq κ] (name : κ) (value : α) (es : List (κ × α)) :
    (put name value es).map Prod.fst =
      if name ∈ es.map Prod.fst then es.map Prod.fst else es.map Prod.fst ++ [name] := by
  induction es with
  | nil => simp [put]
  | cons e es ih =>
    by_cases h : e.1 = name
    · simp [put, h]
    · have h' : ¬ name = e.1 := fun he => h he.symm
      by_cases hm : name ∈ es.map Prod.fst <;> simp_all [put]

/-- No name comes to be there twice. -/
theorem nodup_put [DecidableEq κ] (name : κ) (value : α) {es : List (κ × α)}
    (h : (es.map Prod.fst).Nodup) : ((put name value es).map Prod.fst).Nodup := by
  rw [map_fst_put]
  split
  · exact h
  · next hm =>
    rw [List.nodup_append]
    refine ⟨h, by simp, ?_⟩
    rintro a ha b hb rfl
    rw [List.mem_singleton] at hb
    exact hm (hb ▸ ha)

/-- The map without entries. -/
def empty : OrderedMap α := ⟨[], by simp⟩

/-- The empty map stands in where any will do. -/
instance : Inhabited (OrderedMap α) := ⟨empty⟩

/-- The names, in order. -/
def keys (m : OrderedMap α) : List String := m.entries.map Prod.fst

/-- The value of a name. -/
def get? (m : OrderedMap α) (name : String) : Option α := m.entries.lookup name

/-- Whether a name has a value. -/
def contains (m : OrderedMap α) (name : String) : Bool := m.keys.contains name

/-- The map with a name's value set; a name that it has keeps its place. -/
def insert (m : OrderedMap α) (name : String) (value : α) : OrderedMap α :=
  ⟨put name value m.entries, nodup_put name value m.nodup⟩

/-- The map with the values of several names set, one after the other. -/
def insertAll (m : OrderedMap α) (es : List (String × α)) : OrderedMap α :=
  es.foldl (fun acc e => acc.insert e.1 e.2) m

/-- The map of a list of entries: a name given twice keeps its first place and its last value. -/
def ofList (es : List (String × α)) : OrderedMap α := empty.insertAll es

/-- The map with every value changed, in the same order. -/
def mapValues (f : α → β) (m : OrderedMap α) : OrderedMap β :=
  ⟨m.entries.map fun e => (e.1, f e.2), by
    have h : (m.entries.map fun e => (e.1, f e.2)).map Prod.fst = m.entries.map Prod.fst := by
      simp [Function.comp_def]
    rw [h]
    exact m.nodup⟩

/-- The entries of a map with a name's value set. -/
@[simp] theorem entries_insert (m : OrderedMap α) (name : String) (value : α) :
    (m.insert name value).entries = put name value m.entries := rfl

/-- The empty map has no names. -/
@[simp] theorem keys_empty : (empty : OrderedMap α).keys = [] := rfl

/-- Maps with the same entries are the same. -/
@[ext] theorem ext {m n : OrderedMap α} (h : m.entries = n.entries) : m = n := by
  cases m; cases n; simp_all

/-- A new name comes last; a known one changes no key. -/
theorem keys_insert (m : OrderedMap α) (name : String) (value : α) :
    (m.insert name value).keys = if name ∈ m.keys then m.keys else m.keys ++ [name] :=
  map_fst_put name value m.entries

/-- Entries whose names are all new are appended as they are. -/
theorem put_of_notMem [DecidableEq κ] {name : κ} {value : α} {es : List (κ × α)}
    (h : name ∉ es.map Prod.fst) : put name value es = es ++ [(name, value)] := by
  induction es with
  | nil => rfl
  | cons e es ih =>
    rw [List.map_cons, List.mem_cons, not_or] at h
    rw [put, if_neg (Ne.symm h.1), ih h.2]
    rfl

/-- The value that was set last is found, and setting one name leaves the others as they are. -/
theorem lookup_put [BEq κ] [LawfulBEq κ] [DecidableEq κ] (name other : κ) (value : α)
    (es : List (κ × α)) :
    (put name value es).lookup other = if other = name then some value else es.lookup other := by
  induction es with
  | nil =>
    by_cases h : other = name
    · simp [put, h]
    · simp [put, List.lookup_cons, h, beq_false_of_ne h]
  | cons e es ih =>
    obtain ⟨key, held⟩ := e
    by_cases hk : key = name
    · subst hk
      by_cases h : other = key
      · simp [put, h]
      · simp [put, List.lookup_cons, h, beq_false_of_ne h]
    · rw [put, if_neg hk, List.lookup_cons, List.lookup_cons, ih]
      by_cases h : other = key
      · subst h
        simp [hk]
      · simp [beq_false_of_ne h]

/-- No name has a value in the empty map. -/
@[simp] theorem get?_empty (name : String) : (empty : OrderedMap α).get? name = none := rfl

/-- The value that was set is found, and all others are as they were. -/
theorem get?_insert (m : OrderedMap α) (name other : String) (value : α) :
    (m.insert name value).get? other = if other = name then some value else m.get? other :=
  lookup_put name other value m.entries

end OrderedMap

end JobStaging
