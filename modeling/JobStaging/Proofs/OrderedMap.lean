import JobStaging.OrderedMap
import Mathlib.Data.List.Basic

/-!
# Setting several names of an ordered map

`insertAll` sets names one after the other. When the names are new and differ from each other the
entries are appended as they are; when they are known, no key moves. Either way each of them ends
with the value that was given for it.
-/

set_option autoImplicit false

namespace JobStaging.OrderedMap

variable {α β : Type}

/-- Setting no values changes nothing. -/
@[simp] theorem insertAll_nil (m : OrderedMap α) : m.insertAll [] = m := rfl

/-- Values are set one after the other. -/
@[simp] theorem insertAll_cons (m : OrderedMap α) (e : String × α) (es : List (String × α)) :
    m.insertAll (e :: es) = (m.insert e.1 e.2).insertAll es := rfl

/-- New names that differ from each other come last, in the order in which they are given. -/
theorem entries_insertAll_of_new {m : OrderedMap α} {es : List (String × α)}
    (hnew : ∀ name ∈ es.map Prod.fst, name ∉ m.keys) (hnodup : (es.map Prod.fst).Nodup) :
    (m.insertAll es).entries = m.entries ++ es := by
  induction es generalizing m with
  | nil => simp
  | cons e es ih =>
    rw [List.map_cons, List.nodup_cons] at hnodup
    have he : e.1 ∉ m.keys := hnew e.1 (by simp)
    have hentries : (m.insert e.1 e.2).entries = m.entries ++ [e] := put_of_notMem he
    have hrest : ∀ name ∈ es.map Prod.fst, name ∉ (m.insert e.1 e.2).keys := by
      intro name hname
      rw [keys_insert, if_neg he, List.mem_append, List.mem_singleton, not_or]
      refine ⟨hnew name (List.mem_cons_of_mem _ hname), ?_⟩
      rintro rfl
      exact hnodup.1 hname
    rw [insertAll_cons, ih hrest hnodup.2, hentries, List.append_assoc]
    rfl

/-- Entries whose names differ make a map that lists them as they are. -/
theorem entries_ofList {es : List (String × α)} (hnodup : (es.map Prod.fst).Nodup) :
    (ofList es).entries = es :=
  entries_insertAll_of_new (m := empty) (fun _ _ => List.not_mem_nil) hnodup

/-- Setting values under other names leaves a value as it is. -/
theorem get?_insertAll_of_notMem {m : OrderedMap α} {es : List (String × α)} {name : String}
    (h : name ∉ es.map Prod.fst) : (m.insertAll es).get? name = m.get? name := by
  induction es generalizing m with
  | nil => rfl
  | cons e es ih =>
    rw [List.map_cons, List.mem_cons, not_or] at h
    rw [insertAll_cons, ih h.2, get?_insert, if_neg h.1]

/-- A name that is set once gets the value that is given for it. -/
theorem get?_insertAll_of_mem {m : OrderedMap α} {es : List (String × α)} {e : String × α}
    (hnodup : (es.map Prod.fst).Nodup) (h : e ∈ es) : (m.insertAll es).get? e.1 = some e.2 := by
  induction es generalizing m with
  | nil => exact absurd h List.not_mem_nil
  | cons first es ih =>
    rw [List.map_cons, List.nodup_cons] at hnodup
    rw [insertAll_cons]
    rcases List.mem_cons.1 h with rfl | h
    · rw [get?_insertAll_of_notMem hnodup.1, get?_insert, if_pos rfl]
    · exact ih hnodup.2 h

/-- Setting names that the map has moves no key. -/
theorem keys_insertAll_of_known {m : OrderedMap α} {es : List (String × α)}
    (hknown : ∀ name ∈ es.map Prod.fst, name ∈ m.keys) : (m.insertAll es).keys = m.keys := by
  induction es generalizing m with
  | nil => rfl
  | cons e es ih =>
    rw [List.map_cons, List.forall_mem_cons] at hknown
    have hkeys : (m.insert e.1 e.2).keys = m.keys := by rw [keys_insert, if_pos hknown.1]
    rw [insertAll_cons, ih (by rw [hkeys]; exact hknown.2), hkeys]

/-- An entry is the one that was set or was there before. -/
theorem mem_of_mem_put {κ : Type} [DecidableEq κ] {name : κ} {value : α} {es : List (κ × α)}
    {e : κ × α} (h : e ∈ put name value es) : e = (name, value) ∨ e ∈ es := by
  induction es with
  | nil => exact .inl (List.mem_singleton.1 h)
  | cons first es ih =>
    unfold put at h
    split at h
    · rcases List.mem_cons.1 h with rfl | h
      · exact .inl rfl
      · exact .inr (List.mem_cons_of_mem _ h)
    · rcases List.mem_cons.1 h with rfl | h
      · exact .inr List.mem_cons_self
      · exact (ih h).imp_right (List.mem_cons_of_mem _)

section Put

variable {κ : Type} [DecidableEq κ] {name other : κ} {value later : α}

/-- A value is replaced where the name first stands. -/
theorem put_append_cons {before : List (κ × α)} (h : ∀ e ∈ before, e.1 ≠ name)
    (after : List (κ × α)) : put name later (before ++ (name, value) :: after) =
      before ++ (name, later) :: after := by
  induction before with
  | nil => simp [put]
  | cons first before ih =>
    rw [List.forall_mem_cons] at h
    rw [List.cons_append, put, if_neg h.1, ih h.2, List.cons_append]

/-- Of two values for one name the later one stays. -/
theorem put_put (es : List (κ × α)) : put name later (put name value es) = put name later es := by
  induction es with
  | nil => simp [put]
  | cons first es ih => by_cases h : first.1 = name <;> simp [put, h, ih]

/-- Setting the value that a name has changes nothing. -/
theorem put_of_lookup [BEq κ] [LawfulBEq κ] {es : List (κ × α)}
    (h : es.lookup name = some value) : put name value es = es := by
  induction es with
  | nil => cases h
  | cons first es ih =>
    obtain ⟨key, held⟩ := first
    by_cases hkey : key = name
    · subst hkey
      have hheld : held = value := by simpa using h
      simp [put, hheld]
    · have hrest : es.lookup name = some value := by
        simpa [List.lookup_cons, beq_false_of_ne (Ne.symm hkey)] using h
      rw [put, if_neg hkey, ih hrest]

/-- A name that is taken away may be set before. -/
theorem filter_put_self (es : List (κ × α)) :
    (put name value es).filter (fun e => !decide (e.1 = name)) =
      es.filter fun e => !decide (e.1 = name) := by
  induction es with
  | nil => simp [put]
  | cons first es ih => by_cases h : first.1 = name <;> simp [put, h, ih]

/-- Taking away one name does not touch another that is set. -/
theorem filter_put_of_ne (hne : name ≠ other) (es : List (κ × α)) :
    (put name value es).filter (fun e => !decide (e.1 = other)) =
      put name value (es.filter fun e => !decide (e.1 = other)) := by
  induction es with
  | nil => simp [put, hne]
  | cons first es ih =>
    by_cases hname : first.1 = name
    · simp [put, hname, hne]
    · by_cases hother : first.1 = other
      · simp [put, hother, hne.symm, ih]
      · simp [put, hname, hother, ih]

end Put

/-- Setting names makes up no entries. -/
theorem mem_of_mem_insertAll {m : OrderedMap α} {es : List (String × α)} {e : String × α}
    (h : e ∈ (m.insertAll es).entries) : e ∈ m.entries ∨ e ∈ es := by
  induction es generalizing m with
  | nil => exact .inl h
  | cons first es ih =>
    rw [insertAll_cons] at h
    rcases ih h with h | h
    · rcases mem_of_mem_put h with rfl | h
      · exact .inr List.mem_cons_self
      · exact .inl h
    · exact .inr (List.mem_cons_of_mem _ h)

/-- Every entry of a map stands in the list that it was made of. -/
theorem mem_of_mem_ofList {es : List (String × α)} {e : String × α}
    (h : e ∈ (ofList es).entries) : e ∈ es :=
  (mem_of_mem_insertAll h).resolve_left List.not_mem_nil

/-- A name has a value when it is a key. -/
theorem contains_iff {m : OrderedMap α} {name : String} :
    m.contains name = true ↔ name ∈ m.keys := by
  simp [contains]

/-- The value of a name stands with it in one of the entries. -/
theorem mem_of_get? {m : OrderedMap α} {name : String} {value : α}
    (h : m.get? name = some value) : (name, value) ∈ m.entries := by
  obtain ⟨before, after, hentries, -⟩ := List.lookup_eq_some_iff.1 h
  rw [hentries]
  exact List.mem_append_right _ List.mem_cons_self

/-- A name with a value is among the names. -/
theorem contains_of_get? {m : OrderedMap α} {name : String} {value : α}
    (h : m.get? name = some value) : m.contains name = true :=
  contains_iff.2 (List.mem_map_of_mem (mem_of_get? h))

/-- An entry holds the value of its name. -/
theorem get?_of_mem {m : OrderedMap α} {e : String × α} (h : e ∈ m.entries) :
    m.get? e.1 = some e.2 := by
  have hself : ofList m.entries = m := ext (entries_ofList m.nodup)
  have hget : (ofList m.entries).get? e.1 = some e.2 := get?_insertAll_of_mem m.nodup h
  rwa [hself] at hget

/-- Lists of entries are the same when they have the same names in the same order, each once, and
every name leads to the same value. -/
theorem entries_eq_of_lookup {es es' : List (String × α)}
    (hnames : es.map Prod.fst = es'.map Prod.fst) (hnodup : (es.map Prod.fst).Nodup)
    (hvalues : ∀ name, es.lookup name = es'.lookup name) : es = es' := by
  induction es generalizing es' with
  | nil => simpa using hnames.symm
  | cons e es ih =>
    cases es' with
    | nil => simp at hnames
    | cons e' es' =>
      obtain ⟨name, value⟩ := e
      obtain ⟨name', value'⟩ := e'
      simp only [List.map_cons, List.cons.injEq] at hnames
      obtain ⟨rfl, hrest⟩ := hnames
      rw [List.map_cons, List.nodup_cons] at hnodup
      have hvalue : value = value' := by simpa using hvalues name
      have habsent : ∀ rest : List (String × α), name ∉ rest.map Prod.fst →
          rest.lookup name = none := by
        intro rest h
        rw [List.lookup_eq_none_iff]
        intro e he
        have hne : name ≠ e.1 := fun heq => h (heq ▸ List.mem_map_of_mem he)
        simpa using hne
      have hlookup : ∀ other, es.lookup other = es'.lookup other := by
        intro other
        by_cases hother : other = name
        · rw [hother, habsent es hnodup.1, habsent es' (hrest ▸ hnodup.1)]
        · simpa [List.lookup_cons, beq_false_of_ne hother] using hvalues other
      rw [hvalue, ih hrest hnodup.2 hlookup]

/-- A map is determined by the order of its names and by their values. -/
theorem ext_get? {m n : OrderedMap α} (hkeys : m.keys = n.keys)
    (hvalues : ∀ name, m.get? name = n.get? name) : m = n :=
  ext (entries_eq_of_lookup hkeys m.nodup hvalues)

/-- Names that the map has, each set once, may be set in any order. -/
theorem insertAll_of_perm {m : OrderedMap α} {es es' : List (String × α)} (h : es.Perm es')
    (hnodup : (es.map Prod.fst).Nodup) (hknown : ∀ name ∈ es.map Prod.fst, name ∈ m.keys) :
    m.insertAll es = m.insertAll es' := by
  have hnames := h.map Prod.fst
  apply ext_get?
  · rw [keys_insertAll_of_known hknown,
      keys_insertAll_of_known fun name hname => hknown name (hnames.mem_iff.2 hname)]
  · intro name
    by_cases hname : name ∈ es.map Prod.fst
    · obtain ⟨e, he, rfl⟩ := List.mem_map.1 hname
      rw [get?_insertAll_of_mem hnodup he,
        get?_insertAll_of_mem (hnames.nodup_iff.1 hnodup) (h.mem_iff.1 he)]
    · rw [get?_insertAll_of_notMem hname,
        get?_insertAll_of_notMem fun hmem => hname (hnames.mem_iff.2 hmem)]

/-- What a name had before does not matter once it is set. -/
theorem insertAll_congr {m n : OrderedMap α} {es : List (String × α)} {name : String}
    (hkeys : m.keys = n.keys) (hvalues : ∀ other, other ≠ name → m.get? other = n.get? other)
    (hset : name ∈ es.map Prod.fst) : m.insertAll es = n.insertAll es := by
  induction es generalizing m n with
  | nil => cases hset
  | cons e es ih =>
    have hkeys' : (m.insert e.1 e.2).keys = (n.insert e.1 e.2).keys := by
      rw [keys_insert, keys_insert, hkeys]
    by_cases hname : e.1 = name
    · have hsame : m.insert e.1 e.2 = n.insert e.1 e.2 := by
        apply ext_get? hkeys'
        intro other
        rw [get?_insert, get?_insert]
        split
        · rfl
        · next hother => exact hvalues other (hname ▸ hother)
      rw [insertAll_cons, insertAll_cons, hsame]
    · rw [insertAll_cons, insertAll_cons]
      apply ih hkeys'
      · intro other hother
        rw [get?_insert, get?_insert, hvalues other hother]
      · exact (List.mem_cons.1 hset).resolve_left (Ne.symm hname)

/-! ## Names that may be repeated, known or new -/

/-- Of several values for one name the last one stays; a name that is not set keeps its value. -/
theorem get?_insertAll (m : OrderedMap α) (es : List (String × α)) (name : String) :
    (m.insertAll es).get? name = (es.reverse.lookup name).or (m.get? name) := by
  induction es generalizing m with
  | nil => rfl
  | cons e es ih =>
    obtain ⟨key, value⟩ := e
    rw [insertAll_cons, ih, get?_insert, List.reverse_cons, List.lookup_append, Option.or_assoc]
    congr 1
    by_cases h : name = key
    · simp [h]
    · simp [List.lookup_cons, beq_false_of_ne h, h]

/-- No name that was there moves, and new names come last in the order in which they are first
set. -/
theorem keys_insertAll (m : OrderedMap α) (es : List (String × α)) :
    (m.insertAll es).keys =
      m.keys ++ ((es.map Prod.fst).filter fun name => name ∉ m.keys).eraseDups := by
  induction es generalizing m with
  | nil => simp
  | cons e es ih =>
    rw [insertAll_cons, ih, keys_insert, List.map_cons]
    by_cases h : e.1 ∈ m.keys
    · rw [if_pos h, List.filter_cons_of_neg (by simpa using h)]
    · rw [if_neg h, List.filter_cons_of_pos (by simpa using h), List.eraseDups_cons,
        List.filter_filter, List.append_assoc, List.singleton_append]
      congr 3
      apply List.filter_congr
      intro name _
      by_cases hname : name = e.1 <;> simp [hname]

/-- Names whose values are set are there afterwards. -/
theorem mem_keys_insertAll {m : OrderedMap α} {es : List (String × α)} {name : String}
    (h : name ∈ es.map Prod.fst) : name ∈ (m.insertAll es).keys := by
  rw [keys_insertAll, List.mem_append, List.mem_eraseDups, List.mem_filter]
  by_cases hknown : name ∈ m.keys
  · exact .inl hknown
  · exact .inr ⟨h, by simpa using hknown⟩

/-- Setting the same names to the same values again changes nothing. -/
theorem insertAll_again (m : OrderedMap α) (es : List (String × α)) :
    (m.insertAll es).insertAll es = m.insertAll es := by
  apply ext_get?
  · exact keys_insertAll_of_known fun name hname => mem_keys_insertAll hname
  · intro name
    rw [get?_insertAll, get?_insertAll, ← Option.or_assoc, Option.or_self]

/-- Changing values changes no names. -/
@[simp] theorem keys_mapValues (f : α → β) (m : OrderedMap α) : (m.mapValues f).keys = m.keys := by
  simp [keys, mapValues, Function.comp_def]

end JobStaging.OrderedMap
