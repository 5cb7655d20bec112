import JobStaging.Environment.File
import JobStaging.Environment.Names
import Mathlib.Data.List.Basic

/-!
# Files of variables as a shell reads them

The job does not parse its file of variables, a shell sources it. So what the job gets is what the
quoting rules of the shell make of the text. The reader below knows of the shell what such a file
needs: a sequence of commands `export NAME="VALUE"` with line feeds between them. Between the quotes
a backslash takes the meaning from one of four characters, line feeds stand for themselves, and a
dollar or a backquote that has kept its meaning would start an expansion, which is refused like
anything that stands outside the quotes.

The main statement is `sourcing_sets_only_the_entries`: a file that was rendered for valid names is
read as exactly the variables it was rendered from, whatever the values hold, and leaves the reader
where it was for what comes next. The induction over the entries rests on
`readAssignment_renderLine`, which takes one line from the front of any text.
-/

set_option autoImplicit false

namespace JobStaging.Environment.ShellText

/-- The characters that have a meaning between double quotes. -/
def specials : List Char := ['\\', '"', '$', '\x60']

/-- What has been read with a character before it. -/
def prepend (c : Char) (read : List Char × List Char) : List Char × List Char :=
  (c :: read.1, read.2)

/-- A value up to its closing quote, and the text behind the quote. A backslash before a character
that has no meaning stands for itself. Shells differ from this before a line feed, where the
backslash joins two lines; `joins` says whether it does. -/
def readValue (joins : Bool) : List Char → Option (List Char × List Char)
  | [] => none
  | ['\\'] => none
  | '\\' :: c :: rest =>
    if c ∈ specials then (readValue joins rest).map (prepend c)
    else if joins ∧ c = '\n' then readValue joins rest
    else (readValue joins rest).map fun read => prepend '\\' (prepend c read)
  | '"' :: rest => some ([], rest)
  | c :: rest => if c ∈ specials then none else (readValue joins rest).map (prepend c)

/-- One command and the text behind it. -/
def readAssignment (joins : Bool) (cs : List Char) : Option ((String × String) × List Char) :=
  match afterExport cs with
  | none => none
  | some assignment =>
    match Text.cutAt '=' assignment with
    | some (name, '"' :: quotedValue) =>
      if isValidName (String.ofList name) then
        (readValue joins quotedValue).map fun read =>
          ((String.ofList name, String.ofList read.1), read.2)
      else none
    | _ => none

/-- Reading a value leaves less than there was. -/
theorem length_readValue {joins : Bool} {cs : List Char} {read : List Char × List Char}
    (h : readValue joins cs = some read) : read.2.length < cs.length := by
  fun_induction readValue joins cs generalizing read with
  | case1 | case2 | case7 => cases h
  | case3 c rest hc ih =>
    obtain ⟨inner, hinner, rfl⟩ := Option.map_eq_some_iff.1 h
    have := ih hinner
    simp only [prepend, List.length_cons]
    omega
  | case4 c rest hc hj ih =>
    have := ih h
    simp only [List.length_cons]
    omega
  | case5 c rest hc hj ih =>
    obtain ⟨inner, hinner, rfl⟩ := Option.map_eq_some_iff.1 h
    have := ih hinner
    simp only [prepend, List.length_cons]
    omega
  | case6 rest =>
    cases h
    simp
  | case8 c rest h1 h2 h3 h4 ih =>
    obtain ⟨inner, hinner, rfl⟩ := Option.map_eq_some_iff.1 h
    have := ih hinner
    simp only [prepend, List.length_cons]
    omega

/-- Reading an assignment leaves less than there was. -/
theorem length_readAssignment {joins : Bool} {cs : List Char}
    {read : (String × String) × List Char} (h : readAssignment joins cs = some read) :
    read.2.length < cs.length := by
  unfold readAssignment at h
  split at h
  · cases h
  · next assignment hassignment =>
    split at h
    · next name quotedValue hcut =>
      split at h
      · obtain ⟨inner, hinner, rfl⟩ := Option.map_eq_some_iff.1 h
        have hvalue := length_readValue hinner
        have hlength := congrArg List.length (Text.cutAt_eq_some_iff.1 hcut).2
        have hassign : assignment.length ≤ cs.length := by
          unfold afterExport at hassignment
          split at hassignment
          · cases hassignment
            simp
          · cases hassignment
        simp only [List.length_append, List.length_cons] at hlength
        dsimp only
        omega
      · cases h
    · cases h

/-- All commands of a text, which must have at least one. -/
def readAll (joins : Bool) (cs : List Char) : Option (List (String × String)) :=
  match _hread : readAssignment joins cs with
  | some (entry, []) => some [entry]
  | some (entry, '\n' :: rest) => (readAll joins rest).map (entry :: ·)
  | _ => none
termination_by cs.length
decreasing_by
  have := length_readAssignment _hread
  simp only [List.length_cons] at this
  omega

/-- The variables that a shell has after it has read a text, in the order in which they are set. A
text without commands sets none. -/
def read (joins : Bool) (text : String) : Option (List (String × String)) :=
  if text = "" then some [] else readAll joins text.toList

/-! ## Reading what was rendered -/

variable {joins : Bool} {name : String} {cs rest : List Char}

/-- Exactly the characters that have a meaning are written with a backslash before them. -/
theorem isActive_iff (c : Char) : isActive c = true ↔ c ∈ specials := by
  simp [isActive, specials, or_assoc]

/-- A character that has no meaning stands for itself. -/
theorem readValue_cons {c : Char} (hc : c ∉ specials) :
    readValue joins (c :: rest) = (readValue joins rest).map (prepend c) := by
  simp only [specials, List.mem_cons, not_or] at hc
  rw [readValue]
  · rw [if_neg (by simpa [specials] using hc)]
  · exact fun h _ => hc.1 h
  · exact fun _ _ h _ => hc.1 h
  · exact hc.2.1

/-- An escaped value is read as the value. -/
theorem readValue_escapeValue (value : List Char) :
    readValue joins (escapeValue value ++ '"' :: rest) = some (value, rest) := by
  induction value with
  | nil => simp [escapeValue, readValue]
  | cons c value ih =>
    rw [escapeValue_cons, escapeValue_singleton, List.append_assoc]
    by_cases hc : c ∈ specials
    · rw [if_pos ((isActive_iff c).2 hc), List.cons_append, List.cons_append, List.nil_append,
        readValue, if_pos hc, ih]
      rfl
    · rw [if_neg (mt (isActive_iff c).1 hc), List.cons_append, List.nil_append, readValue_cons hc,
        ih]
      rfl

/-- No name that is valid has an equals sign. -/
theorem equals_notMem_of_isValidName (h : isValidName name = true) : '=' ∉ name.toList := by
  have hstart : isNameStart '=' = false := by decide
  have hchar : isNameChar '=' = false := by decide
  unfold isValidName at h
  cases hname : name.toList with
  | nil => exact List.not_mem_nil
  | cons c cs =>
    rw [hname] at h
    simp only [Bool.and_eq_true, List.all_eq_true] at h
    intro hmem
    rcases List.mem_cons.1 hmem with rfl | hmem
    · rw [hstart] at h
      exact absurd h.1 Bool.false_ne_true
    · have := h.2 _ hmem
      rw [hchar] at this
      exact absurd this Bool.false_ne_true

/-- A rendered line is read as the variable that it was rendered from. -/
theorem readAssignment_renderLine (hname : isValidName name = true) (value : String) :
    readAssignment joins (renderLine (name, value) ++ rest) = some ((name, value), rest) := by
  have hline : renderLine (name, value) ++ rest =
      exportWord ++ (name.toList ++ '=' :: '"' :: (escapeValue value.toList ++ '"' :: rest)) := by
    simp [renderLine]
  have hcut : Text.cutAt '='
      (name.toList ++ '=' :: '"' :: (escapeValue value.toList ++ '"' :: rest)) =
      some (name.toList, '"' :: (escapeValue value.toList ++ '"' :: rest)) :=
    Text.cutAt_eq_some_iff.2 ⟨equals_notMem_of_isValidName hname, rfl⟩
  unfold readAssignment
  rw [hline, afterExport_append]
  simp only [hcut]
  rw [String.ofList_toList, if_pos hname, readValue_escapeValue]
  simp

/-- An assignment with nothing behind it is the last one. -/
theorem readAll_of_last {entry : String × String}
    (h : readAssignment joins cs = some (entry, [])) : readAll joins cs = some [entry] := by
  rw [readAll]
  split <;> simp_all

/-- After an assignment and a line feed the others are read. -/
theorem readAll_of_next {entry : String × String}
    (h : readAssignment joins cs = some (entry, '\n' :: rest)) :
    readAll joins cs = (readAll joins rest).map (entry :: ·) := by
  rw [readAll]
  split <;> simp_all

/-- Rendered lines before the last are read one by one, whatever follows the last. -/
theorem readAll_joinWith_renderLine {entries : List (String × String)}
    (hnames : ∀ entry ∈ entries, isValidName entry.1 = true) (last : String × String)
    (after : List Char) :
    readAll joins (Text.joinWith '\n' ((entries ++ [last]).map renderLine) ++ after) =
      (readAll joins (renderLine last ++ after)).map (entries ++ ·) := by
  induction entries with
  | nil =>
    have hnone : (fun read : List (String × String) => [] ++ read) = id := rfl
    rw [hnone, Option.map_id]
    rfl
  | cons entry entries ih =>
    have hline : ∀ more, readAssignment joins (renderLine entry ++ more) = some (entry, more) := by
      intro more
      apply readAssignment_renderLine
      exact hnames entry List.mem_cons_self
    have hrest := ih fun e he => hnames e (List.mem_cons_of_mem _ he)
    obtain ⟨next, more, hnext⟩ := List.exists_cons_of_ne_nil (List.concat_ne_nil last entries)
    rw [hnext] at hrest
    rw [List.cons_append, hnext, List.map_cons, List.map_cons, Text.joinWith, List.append_assoc,
      List.cons_append, readAll_of_next (hline _), ← List.map_cons, hrest, Option.map_map]
    rfl

/-- Rendered lines are read as the variables that they were rendered from, in their order. -/
theorem readAll_renderLines {entries : List (String × String)} (hne : entries ≠ [])
    (hnames : ∀ entry ∈ entries, isValidName entry.1 = true) :
    readAll joins (Text.joinWith '\n' (entries.map renderLine)) = some entries := by
  obtain rfl | ⟨entries, last, rfl⟩ := List.eq_nil_or_concat' entries
  · exact absurd rfl hne
  · have hlast : readAssignment joins (renderLine last ++ []) = some (last, []) :=
      readAssignment_renderLine (hnames last (by simp)) last.2
    rw [← List.append_nil (Text.joinWith _ _),
      readAll_joinWith_renderLine fun e he => hnames e (List.mem_append_left _ he),
      readAll_of_last hlast]
    rfl

/-- Behind rendered lines the reader goes on as if nothing had been before. -/
theorem readAll_renderLines_append {entries : List (String × String)} (hne : entries ≠ [])
    (hnames : ∀ entry ∈ entries, isValidName entry.1 = true) (after : List Char) :
    readAll joins (Text.joinWith '\n' (entries.map renderLine) ++ '\n' :: after) =
      (readAll joins after).map (entries ++ ·) := by
  obtain rfl | ⟨entries, last, rfl⟩ := List.eq_nil_or_concat' entries
  · exact absurd rfl hne
  · have hlast : readAssignment joins (renderLine last ++ '\n' :: after) =
        some (last, '\n' :: after) :=
      readAssignment_renderLine (hnames last (by simp)) last.2
    rw [readAll_joinWith_renderLine fun e he => hnames e (List.mem_append_left _ he),
      readAll_of_next hlast, Option.map_map]
    simp [Function.comp_def]

/-- A shell that reads a rendered file has exactly the variables that were rendered. -/
theorem read_render {vars : OrderedMap String}
    (hnames : ∀ entry ∈ vars.entries, isValidName entry.1 = true) :
    read joins (render vars) = some vars.entries := by
  unfold read render
  by_cases hne : vars.entries = []
  · rw [hne]
    rfl
  · have hall : readAll joins (Text.joinWith '\n' (vars.entries.map renderLine)) =
        some vars.entries := readAll_renderLines hne hnames
    have htext : String.ofList (Text.joinWith '\n' (vars.entries.map renderLine)) ≠ "" := by
      intro htext
      rw [String.ofList_eq_empty_iff.1 htext, readAll] at hall
      simp [readAssignment, afterExport, exportWord] at hall
    rw [if_neg htext, String.toList_ofList, hall]

/-- Whatever the values hold, a shell that sources a rendered file sets exactly the variables that
were rendered, in their order, and expands and runs nothing. What follows on further lines is read
as if it stood alone, so no value reaches out of its quotes. -/
theorem sourcing_sets_only_the_entries {vars : OrderedMap String}
    (hnames : ∀ n ∈ vars.keys, isValidName n = true) (joins : Bool) :
    read joins (render vars) = some vars.entries ∧
      (vars.entries ≠ [] → ∀ after, readAll joins ((render vars).toList ++ '\n' :: after) =
        (readAll joins after).map (vars.entries ++ ·)) := by
  have hentries : ∀ entry ∈ vars.entries, isValidName entry.1 = true :=
    fun entry hentry => hnames entry.1 (List.mem_map_of_mem hentry)
  refine ⟨read_render hentries, ?_⟩
  intro hne after
  have htext : (render vars).toList = Text.joinWith '\n' (vars.entries.map renderLine) :=
    String.toList_ofList
  rw [htext]
  exact readAll_renderLines_append hne hentries after

/-- Values that close their quotes, start expansions, end with a backslash or look like further
lines. -/
theorem sourcing_sets_only_the_entries_of_sample :
    let vars := OrderedMap.ofList [("A", "\"; rm -rf $HOME `id` \\"), ("_B1", "1\"\nexport A=\"2"),
      ("C", "\\\n")]
    (∀ n ∈ vars.keys, isValidName n = true) ∧
      ∀ joins, read joins (render vars) = some vars.entries ∧
        ∀ after, readAll joins ((render vars).toList ++ '\n' :: after) =
          (readAll joins after).map (vars.entries ++ ·) := by
  intro vars
  have hnames : ∀ n ∈ vars.keys, isValidName n = true := by decide
  refine ⟨hnames, fun joins => ?_⟩
  obtain ⟨hread, hafter⟩ := sourcing_sets_only_the_entries hnames joins
  exact ⟨hread, hafter (by decide)⟩

end JobStaging.Environment.ShellText
