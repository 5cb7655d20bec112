import JobStaging.Json.Record
import JobStaging.Proofs.Fallible
import JobStaging.Proofs.OrderedMap
import Mathlib.Data.List.Nodup

/-!
# Reading a record back from its members

A record is read field by field, and each field looks at the members with its own names only. So the
members that belong to one part of a record may stand among any others, as long as no name belongs
to two parts. `Recovers` says this of a part, `Recovers.seq` puts two parts together, and
`Recovers.decodeWith_object` ends it with a whole object: all that is left to be checked of a record
is that its names differ.

In the other direction, a record can be read in many ways: members in any order, under other names,
elements of an array, fields left out. Whichever it was, the value is put together from what the
decoders of the fields yield and from the values that stand in for missing ones (`Gives`).

Types that are both read and written are `Format`s. `Survives` says of one that reading, writing and
reading again comes to the same as reading alone.
-/

set_option autoImplicit false

namespace JobStaging

variable {α β : Type} {j : Json} {a : α} {decode : Decoder α} {write : α → Json}

namespace Decoder

/-! ## What decoders make of what was written -/

/-- A natural number is read back when it is below the bound. -/
theorem natBelow_ofNat {bound n : Nat} (h : n < bound) : natBelow bound (.ofNat n) = .ok n := by
  have hbounds : (0 : Int) ≤ n ∧ (n : Int) < bound := by omega
  unfold natBelow Json.ofNat
  dsimp only
  rw [if_pos hbounds, Int.toNat_natCast]

/-- A word of 32 bits is read back. -/
theorem word32_ofNat (n : UInt32) : word32 (.ofNat n.toNat) = .ok n := by
  unfold word32
  rw [natBelow_ofNat n.toNat_lt_size]
  exact congrArg Except.ok (UInt32.ofNat_toNat ..)

/-- A word of 64 bits is read back. -/
theorem word64_ofNat (n : UInt64) : word64 (.ofNat n.toNat) = .ok n := by
  unfold word64
  rw [natBelow_ofNat n.toNat_lt_size]
  exact congrArg Except.ok (UInt64.ofNat_toNat ..)

/-- A list is read back when its elements are. -/
theorem list_list {xs : List α} (h : ∀ a ∈ xs, decode (write a) = .ok a) :
    list decode (.list write xs) = .ok xs :=
  Fallible.mapM_eq_ok_iff.2 (List.forall₂_map_left_iff.2 (List.forall₂_same.2 h))

/-- A map is read back when its values are. -/
theorem map_object {m : OrderedMap α} (h : ∀ e ∈ m.entries, decode (write e.2) = .ok e.2) :
    map decode (.object (m.mapValues write).entries) = .ok m := by
  have hentries : (m.mapValues write).entries.mapM
      (fun e => (decode e.2).map fun a => (e.1, a)) = .ok m.entries := by
    refine Fallible.mapM_eq_ok_iff.2 (List.forall₂_map_left_iff.2 (List.forall₂_same.2 ?_))
    intro e he
    exact Fallible.map_eq_ok_iff.2 ⟨e.2, h e he, rfl⟩
  refine Fallible.bind_eq_ok_iff.2 ⟨m.entries, hentries, congrArg Except.ok ?_⟩
  exact OrderedMap.ext (OrderedMap.entries_ofList m.nodup)

/-- So is a map whose values are written as texts. -/
theorem map_stringMap_mapValues {m : OrderedMap α} {text : α → String}
    (h : ∀ a, decode (.string (text a)) = .ok a) :
    map decode (.stringMap (m.mapValues text)) = .ok m := by
  have hobject : Json.stringMap (m.mapValues text) =
      .object (m.mapValues fun a => Json.string (text a)).entries := by
    simp [Json.stringMap, OrderedMap.mapValues]
  rw [hobject]
  exact map_object fun e _ => h e.2

/-- A map of texts is read back. -/
theorem map_stringMap (m : OrderedMap String) : map string (.stringMap m) = .ok m :=
  map_object fun _ _ => rfl

/-- A list of texts is read back. -/
theorem list_strings (texts : List String) : list string (.strings texts) = .ok texts :=
  list_list fun _ _ => rfl

/-- A text that is parsed is read when its parser accepts it. -/
theorem parsed_string {parse : String → Except Rejection α} {text : String}
    (h : parse text = .ok a) : parsed parse (.string text) = .ok a := by
  unfold parsed
  exact Fallible.mapError_eq_ok_iff.2 h

/-- An optional value that is there is read as any other. -/
theorem nullable_of_ne (h : j ≠ .null) : nullable decode j = (decode j).map some := by
  cases j with
  | null => exact absurd rfl h
  | _ => rfl

/-- A list that can be read as a list is read as one, whatever else it could be. -/
theorem oneOrMany_of_list {xs : List α} (h : list decode j = .ok xs) :
    oneOrMany decode j = .ok xs := by
  unfold oneOrMany orElse
  rw [h]

/-! ## What decoders read -/

/-- A decoder yields values with a property when everything that it reads has it. -/
def Yields (decode : Decoder α) (P : α → Prop) : Prop := ∀ j a, decode j = .ok a → P a

variable {P : α → Prop}

/-- What holds of all elements that are read holds of all elements of a list. -/
theorem Yields.list (h : decode.Yields P) : (list decode).Yields fun xs => ∀ a ∈ xs, P a := by
  intro j xs hxs a ha
  unfold Decoder.list at hxs
  split at hxs
  · obtain ⟨j', -, hj'⟩ := Lists.exists_mem_of_forall₂ (Fallible.mapM_eq_ok_iff.1 hxs) ha
    exact h j' a hj'
  · cases hxs

/-- What holds of all values that are read holds of all values of a map. -/
theorem Yields.map (h : decode.Yields P) : (map decode).Yields fun m => ∀ e ∈ m.entries, P e.2 := by
  intro j m hm e he
  unfold Decoder.map at hm
  split at hm
  · obtain ⟨entries, hentries, hlist⟩ := Fallible.bind_eq_ok_iff.1 hm
    cases hlist
    obtain ⟨⟨name, j'⟩, -, hj'⟩ := Lists.exists_mem_of_forall₂
      (Fallible.mapM_eq_ok_iff.1 hentries) (OrderedMap.mem_of_mem_ofList he)
    obtain ⟨a, ha, rfl⟩ := Fallible.map_eq_ok_iff.1 hj'
    exact h j' a ha
  · cases hm

/-- What holds of all values that are read holds of one that may be wanting. -/
theorem Yields.nullable (h : decode.Yields P) :
    (nullable decode).Yields fun value => ∀ a, value = some a → P a := by
  rintro j value hvalue a rfl
  unfold Decoder.nullable at hvalue
  split at hvalue
  · cases hvalue
  · obtain ⟨b, hb, hsome⟩ := Fallible.map_eq_ok_iff.1 hvalue
    cases hsome
    exact h _ a hb

/-- What holds of all that a parser accepts holds of all texts that are parsed. -/
theorem yields_parsed {parse : String → Except Rejection α}
    (h : ∀ text a, parse text = .ok a → P a) : (parsed parse).Yields P := by
  intro j a ha
  obtain ⟨text, -, hparse⟩ := Fallible.bind_eq_ok_iff.1 ha
  exact h text a (Fallible.mapError_eq_ok_iff.1 hparse)

end Decoder

namespace Record

variable {names more : List String} {members others : List (String × Json)} {name : String}
  {r : Record α} {f : Record (α → β)} {x : Record α} {g : α → β} {default : α}

/-! ## Looking for a member -/

/-- Members with other names are passed over. -/
theorem findMember_append {before : List (String × Json)} (n : Nat)
    (h : ∀ e ∈ before, e.1 ∉ names) : findMember names decode n (before ++ members) =
      findMember names decode (n + before.length) members := by
  induction before generalizing n with
  | nil => rfl
  | cons e before ih =>
    rw [List.forall_mem_cons] at h
    have hother : names.contains e.1 = false := by simpa using h.1
    rw [List.cons_append, findMember, hother, if_neg Bool.false_ne_true, ih (n + 1) h.2,
      List.length_cons]
    congr 1
    omega

/-- Nothing is found where all names are others. -/
theorem findMember_eq_none (n : Nat) (h : ∀ e ∈ members, e.1 ∉ names) :
    findMember names decode n members = .ok none := by
  rw [← List.append_nil members, findMember_append n h]
  rfl

/-- The only member with one of the names is found. -/
theorem findMember_eq_some {before after : List (String × Json)} (n : Nat) (hname : name ∈ names)
    (hothers : ∀ e ∈ before ++ after, e.1 ∉ names) (hj : decode j = .ok a) :
    findMember names decode n (before ++ [(name, j)] ++ after) = .ok (some a) := by
  rw [List.forall_mem_append] at hothers
  have hsecond : after.findIdx? (fun e => names.contains e.1) = none := by
    rw [List.findIdx?_eq_none_iff]
    intro e he
    simpa using hothers.2 e he
  rw [List.append_assoc, findMember_append n hothers.1, List.singleton_append, findMember,
    if_pos (List.contains_iff_mem.2 hname), hj]
  dsimp only
  rw [hsecond]

/-- The members with one of some names. -/
def named (names : List String) (members : List (String × Json)) : List (String × Json) :=
  members.filter fun e => names.contains e.1

/-- Members with one of the names are found on both sides of a seam. -/
theorem named_append (before after : List (String × Json)) :
    named names (before ++ after) = named names before ++ named names after :=
  List.filter_append ..

/-- A first member with one of the names is among them. -/
theorem named_cons_of_mem (h : name ∈ names) (j : Json) (members : List (String × Json)) :
    named names ((name, j) :: members) = (name, j) :: named names members :=
  List.filter_cons_of_pos (List.contains_iff_mem.2 h)

/-- A first member with another name is not. -/
theorem named_cons_of_notMem (h : name ∉ names) (j : Json) (members : List (String × Json)) :
    named names ((name, j) :: members) = named names members :=
  List.filter_cons_of_neg (by simpa using h)

/-- None is found exactly when all members have other names. -/
theorem named_eq_nil_iff : named names members = [] ↔ ∀ e ∈ members, e.1 ∉ names := by
  simp [named, List.filter_eq_nil_iff]

/-- Looking for a member comes to no fault when there is none, or a single one that can be read. -/
theorem findMember_eq_ok_iff {n : Nat} {found : Option α} :
    findMember names decode n members = .ok found ↔
      named names members = [] ∧ found = none ∨
        ∃ e a, named names members = [e] ∧ decode e.2 = .ok a ∧ found = some a := by
  induction members generalizing n with
  | nil => simp [findMember, named, eq_comm]
  | cons e members ih =>
    obtain ⟨name, j⟩ := e
    by_cases hname : name ∈ names
    · have hsecond : (members.findIdx? fun e => names.contains e.1) = none ↔
          named names members = [] := by
        rw [List.findIdx?_eq_none_iff, named_eq_nil_iff]
        simp
      rw [findMember, if_pos (List.contains_iff_mem.2 hname), named_cons_of_mem hname]
      cases hj : decode j with
      | error fault => simp [hj]
      | ok a =>
        dsimp only
        cases hidx : members.findIdx? fun e => names.contains e.1 with
        | none => simp [hsecond.1 hidx, hj, eq_comm]
        | some i =>
          have hmore : named names members ≠ [] := fun hnil => by
            rw [hsecond.2 hnil] at hidx
            cases hidx
          simp [hmore]
    · rw [findMember, if_neg (by simpa using hname), named_cons_of_notMem hname, ih]

/-- A field that may be wanting is its default when no member has one of its names, and is otherwise
read from the only member that has. -/
theorem fieldOr_eq_ok_iff : (fieldOr names decode default).ofMembers members = .ok a ↔
    named names members = [] ∧ a = default ∨
      ∃ e, named names members = [e] ∧ decode e.2 = .ok a := by
  unfold fieldOr
  dsimp only
  rw [Fallible.map_eq_ok_iff]
  constructor
  · rintro ⟨found, hfound, rfl⟩
    rcases findMember_eq_ok_iff.1 hfound with ⟨hnone, rfl⟩ | ⟨e, a, hone, hread, rfl⟩
    · exact .inl ⟨hnone, rfl⟩
    · exact .inr ⟨e, hone, hread⟩
  · rintro (⟨hnone, rfl⟩ | ⟨e, hone, hread⟩)
    · exact ⟨none, findMember_eq_ok_iff.2 (.inl ⟨hnone, rfl⟩), rfl⟩
    · exact ⟨some a, findMember_eq_ok_iff.2 (.inr ⟨e, a, hone, hread, rfl⟩), rfl⟩

/-- A field that can be read is read from a member with one of its names, if there is one. -/
theorem decode_of_fieldOr {before after : List (String × Json)} (hname : name ∈ names)
    (h : (fieldOr names decode default).ofMembers (before ++ (name, j) :: after) = .ok a) :
    decode j = .ok a := by
  have hmem : (name, j) ∈ named names (before ++ (name, j) :: after) := by
    rw [named_append, named_cons_of_mem hname]
    exact List.mem_append_right _ List.mem_cons_self
  rcases fieldOr_eq_ok_iff.1 h with ⟨hnone, -⟩ | ⟨e, hone, hread⟩
  · rw [hnone] at hmem
    cases hmem
  · rw [hone, List.mem_singleton] at hmem
    rw [← hmem] at hread
    exact hread

/-- Where no other member has one of its names, a field is read from a member that has. -/
theorem fieldOr_of_member {before after : List (String × Json)} (hname : name ∈ names)
    (hothers : ∀ e ∈ before ++ after, e.1 ∉ names) :
    (fieldOr names decode default).ofMembers (before ++ (name, j) :: after) = .ok a ↔
      decode j = .ok a := by
  rw [← named_eq_nil_iff, named_append, List.append_eq_nil_iff] at hothers
  rw [fieldOr_eq_ok_iff, named_append, named_cons_of_mem hname, hothers.1, hothers.2]
  simp

/-- A member with another name does not matter to a field that can be read. -/
theorem fieldOr_of_other {before after : List (String × Json)} (hname : name ∉ names) :
    (fieldOr names decode default).ofMembers (before ++ (name, j) :: after) = .ok a ↔
      (fieldOr names decode default).ofMembers (before ++ after) = .ok a := by
  rw [fieldOr_eq_ok_iff, fieldOr_eq_ok_iff, named_append, named_append, named_cons_of_notMem hname]

/-! ## Parts of a record -/

/-- Two parts of a record are read when each of them is. -/
theorem both_eq_ok_iff {f : Except LocatedFault (α → β)} {x : Except LocatedFault α} {b : β} :
    both f x = .ok b ↔ ∃ g a, f = .ok g ∧ x = .ok a ∧ b = g a := by
  unfold both
  cases f <;> cases x <;> simp [eq_comm]

/-- A part of a record with names of its own recovers a value from some members when these have
such names and the value is read from them wherever they stand among members with other names. -/
structure Recovers (r : Record α) (names : List String) (members : List (String × Json)) (a : α) :
    Prop where
  named : ∀ e ∈ members, e.1 ∈ names
  reads : names.Nodup → ∀ before after, (∀ e ∈ before ++ after, e.1 ∉ names) →
    r.ofMembers (before ++ members ++ after) = .ok a

namespace Recovers

/-- A part that recovers a value recovers every function of it. -/
theorem map (h : r.Recovers names members a) :
    (g <$> r).Recovers names members (g a) := by
  refine ⟨h.named, fun hnodup before after hothers => ?_⟩
  exact Fallible.map_eq_ok_iff.2 ⟨a, h.reads hnodup before after hothers, rfl⟩

/-- Two parts that share no name do not disturb each other. -/
theorem seq (hf : f.Recovers names members g) (hx : x.Recovers more others a) :
    (f <*> x).Recovers (names ++ more) (members ++ others) (g a) := by
  constructor
  · intro e he
    rcases List.mem_append.1 he with he | he
    · exact List.mem_append_left _ (hf.named e he)
    · exact List.mem_append_right _ (hx.named e he)
  · intro hnodup before after hothers
    obtain ⟨hnames, hmore, hapart⟩ := List.nodup_append.1 hnodup
    have hfirst : f.ofMembers (before ++ members ++ (others ++ after)) = .ok g := by
      refine hf.reads hnames _ _ fun e he hname => ?_
      rw [List.mem_append, List.mem_append] at he
      rcases he with he | he | he
      · exact hothers e (List.mem_append_left _ he) (List.mem_append_left _ hname)
      · exact hapart _ hname _ (hx.named e he) rfl
      · exact hothers e (List.mem_append_right _ he) (List.mem_append_left _ hname)
    have hsecond : x.ofMembers (before ++ members ++ others ++ after) = .ok a := by
      refine hx.reads hmore _ _ fun e he hname => ?_
      rw [List.mem_append, List.mem_append] at he
      rcases he with (he | he) | he
      · exact hothers e (List.mem_append_left _ he) (List.mem_append_right _ hname)
      · exact hapart _ (hf.named e he) _ hname rfl
      · exact hothers e (List.mem_append_right _ he) (List.mem_append_right _ hname)
    refine both_eq_ok_iff.2 ⟨g, a, ?_, ?_, rfl⟩
    · rw [← hfirst]
      simp only [List.append_assoc]
    · rw [← hsecond]
      simp only [List.append_assoc]

/-- A field is read from the member with its name. -/
theorem field (j : Json) (h : decode j = .ok a) :
    (Record.field name decode).Recovers [name] [(name, j)] a := by
  refine ⟨by simp, fun _ before after hothers => ?_⟩
  unfold Record.field
  dsimp only
  rw [findMember_eq_some 0 (List.mem_singleton_self name) hothers h]

/-- A field that may be wanting is read from the first of its names, if that is there. -/
theorem fieldOr (j : Json) (h : decode j = .ok a) :
    (Record.fieldOr (name :: more) decode default).Recovers (name :: more) [(name, j)] a := by
  refine ⟨by simp, fun _ before after hothers => ?_⟩
  unfold Record.fieldOr
  dsimp only
  rw [findMember_eq_some 0 List.mem_cons_self hothers h]
  rfl

/-- If it is wanting, the value that stands in for it is read. -/
theorem wanting : (Record.fieldOr names decode default).Recovers names [] default := by
  refine ⟨by simp, fun _ before after hothers => ?_⟩
  unfold Record.fieldOr
  dsimp only
  rw [List.append_nil, findMember_eq_none 0 hothers]
  rfl

/-- An optional field is read from a member that is left out when there is no value. -/
theorem optional {value : Option α} (write : α → Json) (hnull : ∀ a, write a ≠ .null)
    (h : ∀ a, value = some a → decode (write a) = .ok a) :
    (Record.optional (name :: more) decode).Recovers (name :: more)
      (Json.optionalMember name write value) value := by
  cases value with
  | none => exact wanting
  | some a =>
    refine fieldOr (write a) ?_
    rw [Decoder.nullable_of_ne (hnull a), h a rfl]
    rfl

/-- A record whose fields have different names is read back from an object with its members. -/
theorem decodeWith_object {surplus : Surplus} (h : r.Recovers names members a)
    (hnodup : names.Nodup) (hgiven : others = members) :
    r.decodeWith surplus (.object others) = .ok a := by
  subst hgiven
  have hreads := h.reads hnodup [] [] (by simp)
  rw [List.nil_append, List.append_nil] at hreads
  exact Fallible.mapError_eq_ok_iff.2 hreads

end Recovers

/-! ## What a record is made of -/

variable {P : α → Prop}

/-- A record gives a value when it is read from some members or from some elements. -/
def Gives (r : Record α) (a : α) : Prop :=
  (∃ members, r.ofMembers members = .ok a) ∨
    ∃ elements rest, r.ofElements elements = .ok (a, rest)

/-- What is found comes from the decoder. -/
theorem exists_of_findMember {n : Nat} (h : findMember names decode n members = .ok (some a)) :
    ∃ j, decode j = .ok a := by
  induction members generalizing n with
  | nil => cases h
  | cons e members ih =>
    unfold findMember at h
    split at h
    · split at h
      · cases h
      · next b hb =>
        split at h
        · cases h
        · cases h
          exact ⟨_, hb⟩
    · exact ih h

/-- So does what is read from the first element. -/
theorem decode_of_first {rest after : List Json}
    (h : (decode j).map (fun a => (a, rest)) = .ok (a, after)) : decode j = .ok a := by
  obtain ⟨b, hb, hpair⟩ := Fallible.map_eq_ok_iff.1 h
  cases hpair
  exact hb

/-- What is read as a record was given by it. -/
theorem gives_of_decodeWith {surplus : Surplus} (h : r.decodeWith surplus j = .ok a) :
    r.Gives a := by
  unfold decodeWith at h
  split at h
  · exact .inl ⟨_, Fallible.mapError_eq_ok_iff.1 h⟩
  · obtain ⟨⟨b, rest⟩, hb, h⟩ := Fallible.bind_eq_ok_iff.1 h
    dsimp only at h
    split at h
    · cases h
      exact .inr ⟨_, rest, hb⟩
    · cases h
  · cases h

namespace Gives

/-- What a function of a record gives, the record gave before. -/
theorem map {b : β} (h : (g <$> r).Gives b) : ∃ a, r.Gives a ∧ b = g a := by
  rcases h with ⟨members, h⟩ | ⟨elements, rest, h⟩
  · obtain ⟨a, ha, rfl⟩ := Fallible.map_eq_ok_iff.1 h
    exact ⟨a, .inl ⟨members, ha⟩, rfl⟩
  · obtain ⟨⟨a, after⟩, ha, hb⟩ := Fallible.map_eq_ok_iff.1 h
    cases hb
    exact ⟨a, .inr ⟨elements, after, ha⟩, rfl⟩

/-- What two parts give together comes from what each of them gives. -/
theorem seq {b : β} (h : (f <*> x).Gives b) : ∃ g a, f.Gives g ∧ x.Gives a ∧ b = g a := by
  rcases h with ⟨members, h⟩ | ⟨elements, rest, h⟩
  · obtain ⟨g, a, hg, ha, rfl⟩ := both_eq_ok_iff.1 h
    exact ⟨g, a, .inl ⟨members, hg⟩, .inl ⟨members, ha⟩, rfl⟩
  · obtain ⟨⟨g, between⟩, hg, h⟩ := Fallible.bind_eq_ok_iff.1 h
    obtain ⟨⟨a, after⟩, ha, hb⟩ := Fallible.bind_eq_ok_iff.1 h
    cases hb
    exact ⟨g, a, .inr ⟨elements, between, hg⟩, .inr ⟨between, rest, ha⟩, rfl⟩

/-- The value of a field comes from its decoder, unless it stands in for a missing one. -/
theorem fieldOr (h : (Record.fieldOr names decode default).Gives a) (hdefault : P default)
    (hd : decode.Yields P) : P a := by
  rcases h with ⟨members, h⟩ | ⟨elements, rest, h⟩
  · obtain ⟨found, hfound, rfl⟩ := Fallible.map_eq_ok_iff.1 h
    cases found with
    | none => exact hdefault
    | some a =>
      obtain ⟨j, hj⟩ := exists_of_findMember hfound
      exact hd j a hj
  · cases elements with
    | nil =>
      cases h
      exact hdefault
    | cons j elements => exact hd j a (decode_of_first h)

/-- The value of a field comes from its decoder. -/
theorem field (h : (Record.field name decode).Gives a) (hd : decode.Yields P) : P a := by
  rcases h with ⟨members, h⟩ | ⟨elements, rest, h⟩
  · unfold Record.field at h
    dsimp only at h
    split at h
    · cases h
    · next hfound =>
      cases h
      obtain ⟨j, hj⟩ := exists_of_findMember hfound
      exact hd j a hj
    · cases h
  · cases elements with
    | nil => cases h
    | cons j elements => exact hd j a (decode_of_first h)

/-- So does the value of an optional field, if there is one. -/
theorem optional {value : Option α} (h : (Record.optional names decode).Gives value)
    (hd : decode.Yields P) : ∀ a, value = some a → P a := by
  apply h.fieldOr
  · intro a hnone
    cases hnone
  · exact hd.nullable

end Gives

end Record

/-! ## Formats -/

/-- A type together with how its values are read and how they are written. -/
structure Format where
  Value : Type
  Fault : Type
  decode : Json → Except Fault Value
  write : Value → Json

namespace Format

/-- A format survives its own JSON when every value that was read is read back from what it is
written as, and is then written as the same again. -/
def Survives (f : Format) : Prop :=
  ∀ j a, f.decode j = .ok a →
    f.decode (f.write a) = .ok a ∧ (f.decode (f.write a)).map f.write = .ok (f.write a)

variable {Value Fault : Type} {decode : Json → Except Fault Value} {write : Value → Json}

/-- A format survives when every value that was read is read back. -/
theorem Survives.of_read (h : ∀ j a, decode j = .ok a → decode (write a) = .ok a) :
    Survives ⟨Value, Fault, decode, write⟩ := by
  intro j a hj
  have hback : decode (write a) = .ok a := h j a hj
  exact ⟨hback, Fallible.map_eq_ok_iff.2 ⟨a, hback, rfl⟩⟩

/-- It does when every value is. -/
theorem Survives.of_all (h : ∀ a, decode (write a) = .ok a) :
    Survives ⟨Value, Fault, decode, write⟩ :=
  .of_read fun _ a _ => h a

end Format

end JobStaging
