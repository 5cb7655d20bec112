import JobStaging.Path.Basic
import Mathlib.Data.List.DropRight
import Mathlib.Data.Set.List

/-!
# Components of joined paths and of what lies below a path

A path is kept as a text and means its components. The main statements say that the operations on
texts do to components what they should: `join` appends the steps of a relative path
(`components_join`), and `below?` takes away the components of the base and leaves a relative path
with the steps that follow (`components_of_below?`), whatever separators and `.` parts the texts
hold. So going down by `join` and looking up by `below?` agree, although they cut texts in
different ways.
-/

set_option autoImplicit false

namespace JobStaging

namespace Text

/-- Pieces without the separator are found again in the text that joins them. -/
theorem split_joinWith {sep : Char} {pieces : List (List Char)} (hne : pieces ≠ [])
    (hsep : ∀ piece ∈ pieces, sep ∉ piece) : split sep (joinWith sep pieces) = pieces := by
  induction pieces with
  | nil => exact absurd rfl hne
  | cons piece rest ih =>
    have hpiece : sep ∉ piece := hsep piece (by simp)
    cases rest with
    | nil => exact split_of_notMem hpiece
    | cons next rest =>
      rw [joinWith, split_append_sep, split_of_notMem hpiece,
        ih (by simp) fun p hp => hsep p (List.mem_cons_of_mem _ hp)]
      rfl

end Text

namespace Path

variable {base p q : Path}

/-- The characters of a path are those of its text. -/
@[simp] theorem chars_mk_ofList (cs : List Char) : (Path.mk (String.ofList cs)).chars = cs :=
  String.toList_ofList

/-- A path is told by its characters. -/
theorem mk_ofList_chars (p : Path) : Path.mk (String.ofList p.chars) = p := by
  cases p
  simp [chars]

/-- A path starts at the root when its text starts with a slash. -/
theorem isAbsolute_iff : p.isAbsolute = true ↔ ∃ cs, p.chars = '/' :: cs := by
  unfold isAbsolute
  cases p.chars with
  | nil => simp
  | cons c cs => simp

/-- No step of a path is the root. -/
theorem root_notMem_steps (p : Path) : Component.root ∉ p.steps := by
  intro h
  obtain ⟨part, -, hpart⟩ := List.mem_map.1 h
  unfold Component.ofPart at hpart
  split at hpart <;> cases hpart

/-- Steps of a path among which none leads up are names. -/
theorem exists_names_of_mem_steps {cs : List Component} (h : ∀ c ∈ cs, c ∈ p.steps)
    (hup : .up ∉ cs) : ∃ names : List String, cs = names.map .name := by
  have hnames : cs ∈ Set.range (List.map Component.name) := by
    rw [Set.range_list_map]
    intro c hc
    obtain ⟨part, -, rfl⟩ := List.mem_map.1 (h c hc)
    by_cases hdots : part = ['.', '.']
    · rw [Component.ofPart, if_pos hdots] at hc
      exact absurd hc hup
    · exact ⟨_, (if_neg hdots).symm⟩
  obtain ⟨names, hnames⟩ := hnames
  exact ⟨names, hnames.symm⟩

/-- An absolute path means the root and its steps. -/
theorem components_of_isAbsolute (h : p.isAbsolute = true) : p.components = .root :: p.steps := by
  simp [components, start, h]

/-- The root stands among the components of absolute paths only. -/
theorem root_mem_components_iff : Component.root ∈ p.components ↔ p.isAbsolute = true := by
  constructor
  · intro h
    rw [components, List.mem_append] at h
    rcases h with h | h
    · unfold start at h
      split at h
      · assumption
      · split at h <;> simp at h
    · exact absurd h (root_notMem_steps p)
  · intro h
    rw [components_of_isAbsolute h]
    exact List.mem_cons_self

/-- What lies below an absolute path is absolute. -/
theorem isAbsolute_of_below (hbase : base.isAbsolute = true)
    (h : base.components <+: p.components) : p.isAbsolute = true := by
  rw [← root_mem_components_iff] at hbase ⊢
  exact h.subset hbase

/-! ## Joining -/

/-- Below a base that is not empty there is one slash between the text of the base, without the
slash at its end if it has one, and the text that is joined. -/
theorem exists_join_eq (hp : p.isAbsolute = false) (hbase : base.text ≠ "") :
    ∃ cs, base.join p = ⟨String.ofList (cs ++ '/' :: p.chars)⟩ ∧
      (base.chars = cs ∨ base.chars = cs ++ ['/']) := by
  unfold join
  rw [if_neg (by simp [hp])]
  by_cases hlast : base.chars.getLast? = some '/'
  · obtain ⟨cs, hcs⟩ := List.getLast?_eq_some_iff.1 hlast
    refine ⟨cs, ?_, .inr hcs⟩
    rw [if_pos (.inr hlast)]
    congr 1
    apply String.ext
    have htext : base.text.toList = cs ++ ['/'] := hcs
    simp [htext, chars]
  · refine ⟨base.chars, ?_, .inl rfl⟩
    rw [if_neg (by simp [hbase, hlast])]
    congr 1
    apply String.ext
    simp [chars]

/-- Joining appends the steps of a relative path. -/
theorem steps_join (hp : p.isAbsolute = false) : (base.join p).steps = base.steps ++ p.steps := by
  by_cases hbase : base.text = ""
  · obtain ⟨text⟩ := base
    subst hbase
    simp [join, hp, steps, parts, chars, Text.split, isIdle]
  · obtain ⟨cs, hjoin, hcs⟩ := exists_join_eq hp hbase
    have hsteps : base.steps = steps ⟨String.ofList cs⟩ := by
      rcases hcs with hcs | hcs
      · rw [← hcs, mk_ofList_chars]
      · rw [← mk_ofList_chars base, hcs, steps_append_slash]
        exact List.append_nil _
    rw [hjoin, steps_append_slash, mk_ofList_chars, hsteps]

/-- What is joined below a base starts where the base starts. -/
theorem isAbsolute_join_of_relative (hp : p.isAbsolute = false) :
    (base.join p).isAbsolute = base.isAbsolute := by
  by_cases hbase : base.text = ""
  · obtain ⟨text⟩ := base
    subst hbase
    simpa [join, hp, isAbsolute, chars] using hp
  · obtain ⟨cs, hjoin, hcs⟩ := exists_join_eq hp hbase
    have hne : base.chars ≠ [] := by
      intro h
      exact hbase (String.toList_eq_nil_iff.1 h)
    rw [hjoin]
    unfold isAbsolute
    rw [chars_mk_ofList]
    cases cs with
    | nil =>
      rcases hcs with hcs | hcs
      · exact absurd hcs hne
      · simp [hcs]
    | cons c cs => rcases hcs with hcs | hcs <;> simp [hcs]

/-- Below an absolute base the components of a relative path follow those of the base. -/
theorem components_join (hbase : base.isAbsolute = true) (hp : p.isAbsolute = false) :
    (base.join p).components = base.components ++ p.steps := by
  have habs : (base.join p).isAbsolute = true := by rw [isAbsolute_join_of_relative hp, hbase]
  rw [components_of_isAbsolute habs, components_of_isAbsolute hbase, steps_join hp,
    List.cons_append]

/-- A relative path changes nothing at the beginning of the base it is joined to. -/
theorem start_join (hp : p.isAbsolute = false) (hbase : base.text ≠ "") :
    (base.join p).start = base.start := by
  obtain ⟨cs, hjoin, hcs⟩ := exists_join_eq hp hbase
  -- The first part of the base is that of its text without the slash at the end.
  have hhead : ∀ after : List Char,
      (Text.split '/' (cs ++ '/' :: after)).head? = (Text.split '/' cs).head? := by
    intro after
    rw [Text.split_append_sep, List.head?_append_of_ne_nil _ (Text.split_ne_nil '/' cs)]
  have hparts : (base.join p).parts.head? = base.parts.head? := by
    rw [hjoin]
    unfold parts
    rw [chars_mk_ofList, hhead]
    rcases hcs with hcs | hcs
    · rw [hcs]
    · rw [hcs, hhead]
  unfold start
  rw [isAbsolute_join_of_relative hp, hparts]

/-- Below any base with a text the components of a relative path follow those of the base, only
without a `.` at its beginning. -/
theorem components_join_of_ne (hp : p.isAbsolute = false) (hbase : base.text ≠ "") :
    (base.join p).components = base.components ++ p.steps := by
  unfold components
  rw [start_join hp hbase, steps_join hp, List.append_assoc]

/-- Joined to no text at all a path stays what it is. -/
theorem join_of_text_eq_empty (hbase : base.text = "") : base.join p = p := by
  obtain ⟨text⟩ := base
  subst hbase
  simp [join]

/-- A path that stays inside starts at no root. -/
theorem isAbsolute_of_staysInside (h : p.staysInside = true) : p.isAbsolute = false := by
  rw [Bool.eq_false_iff]
  intro habs
  simp [staysInside, components_of_isAbsolute habs] at h

/-- All its steps are names. -/
theorem exists_steps_of_staysInside (h : p.staysInside = true) :
    ∃ names : List String, p.steps = names.map .name := by
  refine exists_names_of_mem_steps (fun _ hc => hc) fun hup => ?_
  unfold staysInside at h
  rw [Bool.and_eq_true, List.all_eq_true] at h
  have hkind := h.2 _ (List.mem_append_right _ hup)
  cases hkind

/-- Only the empty text has no components at all. -/
theorem components_eq_nil_iff : p.components = [] ↔ p.text = "" := by
  constructor
  · intro h
    obtain ⟨hstart, hsteps⟩ := List.append_eq_nil_iff.1 h
    have hrelative : p.isAbsolute = false := by
      rw [Bool.eq_false_iff]
      intro habs
      simp [start, habs] at hstart
    rw [← String.toList_eq_nil_iff]
    show p.chars = []
    cases hchars : p.chars with
    | nil => rfl
    | cons c cs =>
      -- A relative path begins with a part that is not empty: a `.` or a step.
      have hc : c ≠ '/' := by
        rintro rfl
        simp [isAbsolute, hchars] at hrelative
      have hfirst : ∃ part rest, p.parts = (c :: part) :: rest := by
        unfold parts
        rw [hchars, Text.split_cons_of_ne cs hc]
        exact ⟨_, _, rfl⟩
      obtain ⟨part, rest, hparts⟩ := hfirst
      by_cases hdot : c :: part = ['.']
      · simp [start, hrelative, hparts, hdot] at hstart
      · have hbusy : isIdle (c :: part) = false := by
          unfold isIdle
          rw [beq_false_of_ne hdot]
          rfl
        simp [steps, hparts, hbusy] at hsteps
  · intro h
    obtain ⟨text⟩ := p
    subst h
    rfl

/-- A path stays inside unless it is absolute, empty or leads up. -/
theorem staysInside_iff : p.staysInside = true ↔
    p.isAbsolute = false ∧ p.text ≠ "" ∧ Component.up ∉ p.components := by
  constructor
  · intro h
    have hrelative := isAbsolute_of_staysInside h
    unfold staysInside at h
    rw [Bool.and_eq_true, List.all_eq_true] at h
    refine ⟨hrelative, ?_, ?_⟩
    · intro hempty
      simp [components_eq_nil_iff.2 hempty] at h
    · intro hup
      simpa using h.2 _ hup
  · rintro ⟨hrelative, hne, hup⟩
    have hcomponents : p.components ≠ [] := fun h => hne (components_eq_nil_iff.1 h)
    unfold staysInside
    rw [Bool.and_eq_true, List.all_eq_true]
    refine ⟨by simpa using hcomponents, ?_⟩
    intro c hc
    cases c with
    | root => simp [root_mem_components_iff.1 hc] at hrelative
    | here => rfl
    | up => exact absurd hc hup
    | name text => rfl

/-- The names among the components of a path. -/
def names (p : Path) : List String :=
  p.components.filterMap fun
    | .name text => some text
    | _ => none

/-- A path that stays inside begins with its first name or with a `.`. -/
theorem start_of_staysInside (h : p.staysInside = true) : p.start = [] ∨ p.start = [.here] := by
  unfold start
  rw [isAbsolute_of_staysInside h]
  by_cases hdot : p.parts.head? = some ['.'] <;> simp [hdot]

/-- The steps of a path that stays inside are its names. -/
theorem steps_eq_map_names (h : p.staysInside = true) : p.steps = p.names.map .name := by
  obtain ⟨texts, htexts⟩ := exists_steps_of_staysInside h
  have hnames : p.names = texts := by
    unfold names components
    rw [htexts, List.filterMap_append, List.filterMap_map]
    rcases start_of_staysInside h with hstart | hstart <;> simp [hstart]
  rw [hnames, htexts]

/-! ## Looking below -/

/-- Dropping idle parts drops nothing that leads somewhere. -/
theorem filter_dropWhile_isIdle (parts : List (List Char)) :
    (parts.dropWhile isIdle).filter (fun part => !isIdle part) =
      parts.filter fun part => !isIdle part := by
  induction parts with
  | nil => rfl
  | cons part rest ih => by_cases h : isIdle part <;> simp [h, ih]

/-- Trimming drops nothing that leads somewhere. -/
theorem filter_trimIdle (parts : List (List Char)) :
    (trimIdle parts).filter (fun part => !isIdle part) =
      parts.filter fun part => !isIdle part := by
  unfold trimIdle
  rw [List.filter_reverse, filter_dropWhile_isIdle, List.filter_reverse, List.reverse_reverse,
    filter_dropWhile_isIdle]

/-- Dropping steps drops as many of the parts that lead somewhere. -/
theorem filter_dropSteps (n : Nat) (parts : List (List Char)) :
    (dropSteps n parts).filter (fun part => !isIdle part) =
      (parts.filter fun part => !isIdle part).drop n := by
  induction parts generalizing n with
  | nil => cases n <;> simp [dropSteps]
  | cons part rest ih =>
    cases n with
    | zero => simp [dropSteps]
    | succ n => by_cases h : isIdle part <;> simp [dropSteps, h, ih]

/-- What is left after trimming was there before. -/
theorem mem_of_mem_trimIdle {part : List Char} {parts : List (List Char)}
    (h : part ∈ trimIdle parts) : part ∈ parts := by
  have h := List.dropWhile_sublist _ |>.mem (List.mem_reverse.1 h)
  exact List.dropWhile_sublist _ |>.mem (List.mem_reverse.1 h)

/-- What is left after dropping steps was there before. -/
theorem mem_of_mem_dropSteps {part : List Char} {n : Nat} {parts : List (List Char)}
    (h : part ∈ dropSteps n parts) : part ∈ parts := by
  induction parts generalizing n with
  | nil => cases n <;> simp [dropSteps] at h
  | cons first rest ih =>
    cases n with
    | zero => exact h
    | succ n =>
      unfold dropSteps at h
      split at h <;> exact List.mem_cons_of_mem _ (ih h)

/-- What is left after trimming begins with a part that leads somewhere. -/
theorem isIdle_of_trimIdle_eq_cons {part : List Char} {rest parts : List (List Char)}
    (h : trimIdle parts = part :: rest) : isIdle part = false := by
  have hprefix : trimIdle parts <+: parts.dropWhile isIdle := List.rdropWhile_prefix isIdle _
  rw [h] at hprefix
  obtain ⟨after, hafter⟩ := hprefix
  have hhead := List.head?_dropWhile_not isIdle parts
  rw [← hafter] at hhead
  simpa using hhead

/-- Parts that are joined by slashes make the steps of those that lead somewhere. -/
theorem steps_joinWith {parts : List (List Char)} (h : ∀ part ∈ parts, '/' ∉ part) :
    (Path.mk (String.ofList (Text.joinWith '/' parts))).steps =
      (parts.filter fun part => !isIdle part).map Component.ofPart := by
  unfold steps Path.parts
  rw [chars_mk_ofList]
  by_cases hempty : parts = []
  · subst hempty
    rfl
  · rw [Text.split_joinWith hempty h]

/-- `below?` leaves the steps that the path has after as many as the base has. -/
theorem steps_of_below? (h : base.below? p = some q) :
    q.steps = p.steps.drop base.steps.length := by
  unfold below? at h
  split at h
  · obtain rfl := Option.some.inj h
    have hslash : ∀ part ∈ trimIdle (dropSteps base.steps.length p.parts), '/' ∉ part :=
      fun part hpart =>
        Text.notMem_of_mem_split (mem_of_mem_dropSteps (mem_of_mem_trimIdle hpart))
    rw [steps_joinWith hslash, filter_trimIdle, filter_dropSteps, List.map_drop]
    rfl
  · cases h

/-- `below?` leaves a relative path. -/
theorem isAbsolute_of_below? (h : base.below? p = some q) : q.isAbsolute = false := by
  unfold below? at h
  split at h
  · obtain rfl := Option.some.inj h
    rw [Bool.eq_false_iff]
    intro habs
    obtain ⟨cs, hcs⟩ := isAbsolute_iff.1 habs
    rw [chars_mk_ofList] at hcs
    cases hleft : trimIdle (dropSteps base.steps.length p.parts) with
    | nil => simp [hleft, Text.joinWith] at hcs
    | cons part rest =>
      -- The first part is neither empty nor does it begin with a slash.
      have hidle := isIdle_of_trimIdle_eq_cons hleft
      have hpart : part ∈ p.parts :=
        mem_of_mem_dropSteps (mem_of_mem_trimIdle (hleft ▸ List.mem_cons_self))
      have hslash : '/' ∉ part := Text.notMem_of_mem_split hpart
      cases part with
      | nil => simp [isIdle] at hidle
      | cons c cs => cases rest <;> simp_all [Text.joinWith]
  · cases h

/-- A path lies below every base whose components begin its own. -/
theorem exists_below? (h : base.components <+: p.components) : ∃ q, base.below? p = some q := by
  unfold below?
  rw [if_pos (List.isPrefixOf_iff_prefix.2 h)]
  exact ⟨_, rfl⟩

/-- It lies below no other base. -/
theorem below?_eq_none (h : ¬ base.components <+: p.components) : base.below? p = none := by
  unfold below?
  exact if_neg fun hprefix => h (List.isPrefixOf_iff_prefix.1 hprefix)

/-- A path that lies below a base begins with its components. -/
theorem prefix_of_below? (h : base.below? p = some q) : base.components <+: p.components := by
  by_contra hnot
  rw [below?_eq_none hnot] at h
  cases h

/-- What lies below an absolute base has the components of the base and then the steps that
`below?` leaves. -/
theorem components_of_below? (hbase : base.isAbsolute = true) (h : base.below? p = some q) :
    p.components = base.components ++ q.steps := by
  have habs : p.isAbsolute = true := isAbsolute_of_below hbase (prefix_of_below? h)
  obtain ⟨after, hafter⟩ := prefix_of_below? h
  rw [components_of_isAbsolute hbase, components_of_isAbsolute habs, List.cons_append,
    List.cons.injEq] at hafter
  have hsteps : q.steps = after := by
    rw [steps_of_below? h, ← hafter.2, List.drop_left]
  rw [components_of_isAbsolute habs, components_of_isAbsolute hbase, ← hafter.2, hsteps,
    List.cons_append]

end Path

end JobStaging
