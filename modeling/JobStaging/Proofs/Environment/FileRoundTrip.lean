import JobStaging.Environment.File
import JobStaging.Proofs.Fallible
import JobStaging.Proofs.OrderedMap

/-!
# Which variables come back from a file

A file of variables is written for a shell, which reads a value up to its closing quote, and is read
here line by line. So the two agree only as long as every value stands on one line. The main
statement is `parse_render_iff`: variables whose names can stand before the first equals sign come
back from their file exactly when no value holds a line feed, and are refused otherwise; and
whatever is read from any file at all comes back when it is written again.

That a file is refused, and not read as other variables, is due to the escaping. The first line of a
value with a line feed has no closing quote of its own: if it ends with a quote then a backslash
stands before it, and the quote taken away leaves a backslash with nothing after it.
-/

set_option autoImplicit false

/-- What is joined begins with its first piece. -/
theorem JobStaging.Text.exists_joinWith_cons (sep : Char) (piece : List Char)
    (pieces : List (List Char)) : ∃ more, joinWith sep (piece :: pieces) = piece ++ more := by
  cases pieces with
  | nil => exact ⟨[], by rw [joinWith, List.append_nil]⟩
  | cons next pieces => exact ⟨_, rfl⟩

namespace JobStaging.Environment

variable {name : String} {value line cs : List Char} {vars : OrderedMap String} {content : String}

/-! ## Escapes -/

/-- A character is read back from its escaped form, whatever follows. -/
theorem unescape_escapeValue_singleton (c : Char) (rest : List Char) :
    unescape (escapeValue [c] ++ rest) = (unescape rest).map (c :: ·) := by
  rw [escapeValue_singleton]
  by_cases hc : isActive c = true
  · rw [if_pos hc]
    rfl
  · have hslash : c ≠ '\\' := by
      rintro rfl
      exact hc (by decide)
    rw [if_neg hc, List.cons_append, List.nil_append, unescape]
    · exact fun h => absurd h hslash
    · exact fun _ _ h => absurd h hslash

/-- So is a text, character by character. -/
theorem unescape_escapeValue_append (value rest : List Char) :
    unescape (escapeValue value ++ rest) = (unescape rest).map (value ++ ·) := by
  induction value with
  | nil => simp [escapeValue]
  | cons c value ih =>
    rw [escapeValue_cons, List.append_assoc, unescape_escapeValue_singleton, ih, Option.map_map]
    rfl

/-- A value is read back from its escaped form. -/
theorem unescape_escapeValue (value : List Char) : unescape (escapeValue value) = some value := by
  have h := unescape_escapeValue_append value []
  rw [List.append_nil] at h
  rw [h, unescape, Option.map_some, List.append_nil]

/-- If an escaped value ends with a quote, a backslash stands before the quote. -/
theorem unescape_of_escapeValue_eq {inner : List Char} (h : escapeValue value = inner ++ ['"']) :
    unescape inner = none := by
  rcases List.eq_nil_or_concat' value with rfl | ⟨before, c, rfl⟩
  · simp [escapeValue] at h
  · rw [escapeValue_append, escapeValue_singleton] at h
    by_cases hc : isActive c = true
    · have hlast : (escapeValue before ++ ['\\']) ++ [c] = inner ++ ['"'] := by
        rw [← h, if_pos hc, List.append_assoc]
        rfl
      have hinner : escapeValue before ++ ['\\'] = inner := (List.append_inj' hlast rfl).1
      rw [← hinner, unescape_escapeValue_append, unescape, Option.map_none]
    · rw [if_neg hc] at h
      have hquote : [c] = ['"'] := (List.append_inj' h rfl).2
      rw [List.cons.inj hquote |>.1] at hc
      exact absurd (by decide) hc

/-- Reading takes characters away and adds none. -/
theorem mem_of_unescape {read : List Char} (h : unescape cs = some read) {c : Char}
    (hc : c ∈ read) : c ∈ cs := by
  fun_induction unescape cs generalizing read with
  | case1 =>
    cases h
    exact hc
  | case2 => cases h
  | case3 d rest ih =>
    obtain ⟨inner, hinner, rfl⟩ := Option.map_eq_some_iff.1 h
    rcases List.mem_cons.1 hc with rfl | hc
    · simp
    · have := ih hinner hc
      simp [this]
  | case4 d rest h1 h2 ih =>
    obtain ⟨inner, hinner, rfl⟩ := Option.map_eq_some_iff.1 h
    rcases List.mem_cons.1 hc with rfl | hc
    · simp
    · have := ih hinner hc
      simp [this]

/-! ## Lines -/

/-- Pieces before others are lines, each without a return at its end. -/
theorem linesOfPieces_append {pieces more : List (List Char)} (hmore : more ≠ []) :
    linesOfPieces (pieces ++ more) = pieces.map dropReturn ++ linesOfPieces more := by
  induction pieces with
  | nil => rfl
  | cons piece pieces ih =>
    cases hrest : pieces ++ more with
    | nil => exact absurd (List.append_eq_nil_iff.1 hrest).2 hmore
    | cons next rest =>
      rw [List.cons_append, hrest, linesOfPieces, ← hrest, ih]
      rfl

/-- A line feed ends the lines before it. -/
theorem lines_append (xs ys : List Char) :
    lines (xs ++ '\n' :: ys) = (Text.split '\n' xs).map dropReturn ++ lines ys := by
  unfold lines
  rw [Text.split_append_sep, linesOfPieces_append (Text.split_ne_nil _ _)]

/-- A text on one line is that line, unless it is empty. -/
theorem lines_of_notMem (h : '\n' ∉ cs) (hne : cs ≠ []) : lines cs = [cs] := by
  unfold lines
  rw [Text.split_of_notMem h, linesOfPieces, if_neg hne]

/-- Taking away a return adds no characters. -/
theorem mem_of_mem_dropReturn {c : Char} (h : c ∈ dropReturn line) : c ∈ line := by
  unfold dropReturn at h
  cases hdrop : Text.dropLast? '\r' line with
  | none => simpa [hdrop] using h
  | some rest =>
    rw [Text.dropLast?_eq_some_iff.1 hdrop]
    simp only [hdrop, Option.getD_some] at h
    exact List.mem_append_left _ h

/-- Every line comes from a piece. -/
theorem linesOfPieces_subset {pieces : List (List Char)} (h : line ∈ linesOfPieces pieces) :
    ∃ piece ∈ pieces, ∀ c ∈ line, c ∈ piece := by
  fun_induction linesOfPieces pieces with
  | case1 => cases h
  | case2 => cases h
  | case3 last hlast =>
    obtain rfl := List.mem_singleton.1 h
    exact ⟨line, List.mem_cons_self, fun _ hc => hc⟩
  | case4 piece next rest ih =>
    rcases List.mem_cons.1 h with rfl | h
    · exact ⟨piece, List.mem_cons_self, fun c hc => mem_of_mem_dropReturn hc⟩
    · obtain ⟨piece', hmem, hsub⟩ := ih h
      exact ⟨piece', List.mem_cons_of_mem _ hmem, hsub⟩

/-- No line holds a line feed. -/
theorem notMem_of_mem_lines (h : line ∈ lines cs) : '\n' ∉ line := by
  intro hfeed
  obtain ⟨piece, hpiece, hsub⟩ := linesOfPieces_subset h
  exact Text.notMem_of_mem_split hpiece (hsub _ hfeed)

/-! ## Lines of variables -/

/-- A line up to a place in the value, with no quote to close it. -/
def openLine (name value : List Char) : List Char :=
  exportWord ++ name ++ '=' :: '"' :: escapeValue value

/-- The line of a variable is an open line with the closing quote after it. -/
theorem renderLine_eq (name value : String) :
    renderLine (name, value) = openLine name.toList value.toList ++ ['"'] := by
  simp [renderLine, openLine]

/-- What a line holds is read from what stands after its first equals sign. -/
theorem parseLine_eq {name rest : List Char} (hname : '=' ∉ name) :
    parseLine (exportWord ++ name ++ '=' :: rest) =
      ((unquote rest).bind unescape).map fun value => (String.ofList name, String.ofList value) := by
  have hcut : Text.cutAt '=' (name ++ '=' :: rest) = some (name, rest) :=
    Text.cutAt_eq_some_iff.2 ⟨hname, rfl⟩
  unfold parseLine
  rw [List.append_assoc, afterExport_append]
  simp only [Option.bind_eq_bind, Option.bind_some, hcut]
  cases unquote rest with
  | none => rfl
  | some inner =>
    rw [Option.bind_some, Option.bind_some]
    cases unescape inner <;> rfl

/-- A variable is read back from its line when its name has no equals sign. -/
theorem parseLine_renderLine {entry : String × String} (hname : '=' ∉ entry.1.toList) :
    parseLine (renderLine entry) = some entry := by
  obtain ⟨name, value⟩ := entry
  have hquoted : unquote ('"' :: (escapeValue value.toList ++ ['"'])) =
      some (escapeValue value.toList) := Text.dropLast?_append _ _
  have hline : renderLine (name, value) =
      exportWord ++ name.toList ++ '=' :: '"' :: (escapeValue value.toList ++ ['"']) := rfl
  rw [hline, parseLine_eq hname, hquoted, Option.bind_some, unescape_escapeValue, Option.map_some,
    String.ofList_toList, String.ofList_toList]

/-- An open line is malformed, whatever its value ends with. -/
theorem parseLine_openLine {name value : List Char} (hname : '=' ∉ name) :
    parseLine (openLine name value) = none := by
  unfold openLine
  rw [parseLine_eq hname, Option.map_eq_none_iff]
  cases hinner : unquote ('"' :: escapeValue value) with
  | none => rfl
  | some inner =>
    have hvalue : escapeValue value = inner ++ ['"'] := Text.dropLast?_eq_some_iff.1 hinner
    exact unescape_of_escapeValue_eq hvalue

/-- A carriage return at the end of an open line is one of the value's characters. -/
theorem exists_dropReturn_openLine (name value : List Char) :
    ∃ value', dropReturn (openLine name value) = openLine name value' := by
  unfold dropReturn
  cases hdrop : Text.dropLast? '\r' (openLine name value) with
  | none => exact ⟨value, rfl⟩
  | some rest =>
    have hline := Text.dropLast?_eq_some_iff.1 hdrop
    rcases List.eq_nil_or_concat' value with rfl | ⟨before, c, rfl⟩
    · have hquote : exportWord ++ name ++ ['='] ++ ['"'] = rest ++ ['\r'] := by
        rw [← hline]
        simp [openLine, escapeValue]
      exact absurd (List.append_inj' hquote rfl).2 (by decide)
    · refine ⟨before, ?_⟩
      have hsplit : openLine name (before ++ [c]) = openLine name before ++ escapeValue [c] := by
        simp [openLine, escapeValue_append]
      rw [hsplit, escapeValue_singleton] at hline
      by_cases hc : isActive c = true
      · rw [if_pos hc] at hline
        have hlast : (openLine name before ++ ['\\']) ++ [c] = rest ++ ['\r'] := by
          rw [← hline, List.append_assoc]
          rfl
        rw [List.cons.inj (List.append_inj' hlast rfl).2 |>.1] at hc
        exact absurd hc (by decide)
      · rw [if_neg hc] at hline
        exact (List.append_inj' hline rfl).1.symm

/-! ## Files -/

/-- No line with a variable is blank. -/
theorem allBlank_exportWord_append (rest : List Char) :
    Text.allBlank (exportWord ++ rest) = false := by
  have he : Text.isBlank 'e' = false := by decide
  unfold exportWord Text.allBlank
  rw [List.cons_append, List.all_cons, he, Bool.false_and]

/-- A file is read when each of its lines is, apart from the blank ones. -/
theorem parse_eq_ok_iff : parse content = .ok vars ↔ ∃ entries,
    List.Forall₂ (fun line entry => parseLine line = some entry)
      ((lines content.toList).filter fun line => !Text.allBlank line) entries ∧
    vars = OrderedMap.ofList entries := by
  have hcheck : ∀ line entry, checkLine line = .ok entry ↔ parseLine line = some entry := by
    intro line entry
    unfold checkLine
    cases parseLine line <;> simp
  unfold parse
  rw [Fallible.bind_eq_ok_iff]
  refine exists_congr fun entries => ?_
  rw [Fallible.mapM_eq_ok_iff]
  simp only [hcheck]
  refine and_congr_right fun _ => ?_
  constructor
  · intro h
    cases h
    rfl
  · rintro rfl
    rfl

/-- Reading a file fails only for a malformed line. -/
theorem parse_eq_error {cause : Rejection} (h : parse content = .error cause) :
    ∃ line, cause = .malformedLine line := by
  unfold parse at h
  cases hread : ((lines content.toList).filter fun line => !Text.allBlank line).mapM checkLine with
  | ok entries =>
    rw [hread] at h
    cases h
  | error e =>
    rw [hread] at h
    cases h
    obtain ⟨line, -, hline⟩ := Fallible.exists_mem_of_mapM_eq_error hread
    unfold checkLine at hline
    split at hline
    · cases hline
    · cases hline
      exact ⟨_, rfl⟩

/-- A line with something on it that is malformed spoils the whole file. -/
theorem exists_parse_eq_error (hmem : line ∈ lines content.toList)
    (hblank : Text.allBlank line = false) (hline : parseLine line = none) :
    ∃ line, parse content = .error (.malformedLine line) := by
  cases hread : parse content with
  | error cause =>
    obtain ⟨line', rfl⟩ := parse_eq_error hread
    exact ⟨line', rfl⟩
  | ok vars =>
    obtain ⟨entries, hentries, -⟩ := parse_eq_ok_iff.1 hread
    have hmem' : line ∈ (lines content.toList).filter fun line => !Text.allBlank line :=
      List.mem_filter.2 ⟨hmem, by rw [hblank]; rfl⟩
    obtain ⟨entry, -, hentry⟩ := Lists.exists_mem_of_forall₂ hentries.flip hmem'
    rw [hline] at hentry
    cases hentry

/-! ## Rendered files -/

/-- The names of variables can stand in a file: they are on one line and before the first equals
sign. -/
def NamesFit (vars : OrderedMap String) : Prop :=
  ∀ n ∈ vars.keys, '=' ∉ n.toList ∧ '\n' ∉ n.toList

/-- The values of variables are on one line each. -/
def ValuesFit (vars : OrderedMap String) : Prop := ∀ e ∈ vars.entries, '\n' ∉ e.2.toList

/-- Escaping keeps line feeds as they are. -/
theorem feed_mem_escapeValue_iff : '\n' ∈ escapeValue value ↔ '\n' ∈ value := by
  unfold escapeValue
  rw [List.mem_flatMap]
  constructor
  · rintro ⟨c, hc, hfeed⟩
    by_cases hactive : isActive c = true
    · simp only [hactive, if_true, List.mem_cons, List.not_mem_nil, or_false] at hfeed
      rcases hfeed with h | rfl
      · exact absurd h (by decide)
      · exact hc
    · simp only [hactive] at hfeed
      exact List.mem_singleton.1 hfeed ▸ hc
  · intro hfeed
    exact ⟨'\n', hfeed, by decide⟩

/-- An open line is a single line when its name and its value are. -/
theorem feed_notMem_openLine {name value : List Char} (hname : '\n' ∉ name) (hvalue : '\n' ∉ value) :
    '\n' ∉ openLine name value := by
  have hword : '\n' ∉ exportWord := by decide
  have hescaped : '\n' ∉ escapeValue value := mt feed_mem_escapeValue_iff.1 hvalue
  simp [openLine, hword, hname, hescaped]

/-- The lines of a rendered file are those of its variables, when every value is on one line. -/
theorem lines_joinWith_renderLine {entries : List (String × String)}
    (hnames : ∀ e ∈ entries, '\n' ∉ e.1.toList) (hvalues : ∀ e ∈ entries, '\n' ∉ e.2.toList) :
    lines (Text.joinWith '\n' (entries.map renderLine)) = entries.map renderLine := by
  have hline : ∀ e ∈ entries, '\n' ∉ renderLine e := by
    rintro ⟨name, value⟩ he
    rw [renderLine_eq, List.mem_append, not_or]
    exact ⟨feed_notMem_openLine (hnames _ he) (hvalues _ he), by decide⟩
  have hkept : ∀ e : String × String, dropReturn (renderLine e) = renderLine e := by
    rintro ⟨name, value⟩
    rw [renderLine_eq]
    simp [dropReturn, Text.dropLast?]
  induction entries with
  | nil => rfl
  | cons entry entries ih =>
    have hentry := hline entry List.mem_cons_self
    have hrest := ih (fun e he => hnames e (List.mem_cons_of_mem _ he))
      (fun e he => hvalues e (List.mem_cons_of_mem _ he))
      (fun e he => hline e (List.mem_cons_of_mem _ he))
    cases entries with
    | nil =>
      refine lines_of_notMem hentry ?_
      simp [Text.joinWith, renderLine, exportWord]
    | cons next entries =>
      rw [List.map_cons, List.map_cons, Text.joinWith, lines_append, ← List.map_cons, hrest,
        Text.split_of_notMem hentry, List.map_singleton, hkept]
      rfl

/-- Variables that fit are read back from their file. -/
theorem parse_render (hnames : NamesFit vars) (hvalues : ValuesFit vars) :
    parse (render vars) = .ok vars := by
  have hname : ∀ e ∈ vars.entries, '=' ∉ e.1.toList ∧ '\n' ∉ e.1.toList :=
    fun e he => hnames e.1 (List.mem_map_of_mem he)
  have hlines : lines (render vars).toList = vars.entries.map renderLine := by
    unfold render
    rw [String.toList_ofList]
    exact lines_joinWith_renderLine (fun e he => (hname e he).2) hvalues
  have hnonblank : (vars.entries.map renderLine).filter (fun line => !Text.allBlank line) =
      vars.entries.map renderLine := by
    rw [List.filter_eq_self]
    intro line hline
    obtain ⟨entry, -, rfl⟩ := List.mem_map.1 hline
    unfold renderLine
    rw [List.append_assoc, allBlank_exportWord_append]
    rfl
  refine parse_eq_ok_iff.2 ⟨vars.entries, ?_, ?_⟩
  · rw [hlines, hnonblank, List.forall₂_map_left_iff, List.forall₂_same]
    exact fun e he => parseLine_renderLine (hname e he).1
  · exact OrderedMap.ext (OrderedMap.entries_ofList vars.nodup).symm

/-- The line of a variable with a line feed in its value stops short of the closing quote. -/
theorem exists_renderLine_eq_openLine {entry : String × String} (hfeed : '\n' ∈ entry.2.toList) :
    ∃ before after, '\n' ∉ before ∧
      renderLine entry = openLine entry.1.toList before ++ '\n' :: after := by
  obtain ⟨name, value⟩ := entry
  cases hcut : Text.cutAt '\n' value.toList with
  | none => exact absurd hfeed (Text.cutAt_eq_none_iff.1 hcut)
  | some parts =>
    obtain ⟨before, after⟩ := parts
    obtain ⟨hbefore, hvalue⟩ := Text.cutAt_eq_some_iff.1 hcut
    have hplain : escapeValue ('\n' :: after) = '\n' :: escapeValue after := by
      simp [escapeValue, isActive]
    refine ⟨before, escapeValue after ++ ['"'], hbefore, ?_⟩
    rw [renderLine_eq, hvalue]
    unfold openLine
    rw [escapeValue_append, hplain]
    simp

/-- Where a value has a line feed, a line of the file is left open. -/
theorem exists_openLine_mem_lines {entries : List (String × String)}
    (hnames : ∀ e ∈ entries, '=' ∉ e.1.toList ∧ '\n' ∉ e.1.toList) {entry : String × String}
    (hentry : entry ∈ entries) (hfeed : '\n' ∈ entry.2.toList) :
    ∃ name value, '=' ∉ name ∧
      openLine name value ∈ lines (Text.joinWith '\n' (entries.map renderLine)) := by
  induction entries with
  | nil => cases hentry
  | cons first entries ih =>
    rcases List.mem_cons.1 hentry with rfl | hentry
    · obtain ⟨hequals, hname⟩ := hnames entry List.mem_cons_self
      obtain ⟨before, after, hbefore, hline⟩ := exists_renderLine_eq_openLine hfeed
      obtain ⟨value, hvalue⟩ := exists_dropReturn_openLine entry.1.toList before
      obtain ⟨more, htext⟩ := Text.exists_joinWith_cons '\n' (renderLine entry)
        (entries.map renderLine)
      refine ⟨entry.1.toList, value, hequals, ?_⟩
      rw [List.map_cons, htext, hline, List.append_assoc, List.cons_append, lines_append,
        Text.split_of_notMem (feed_notMem_openLine hname hbefore), List.map_singleton, hvalue]
      exact List.mem_append_left _ List.mem_cons_self
    · obtain ⟨name, value, hequals, hmem⟩ :=
        ih (fun e he => hnames e (List.mem_cons_of_mem _ he)) hentry
      refine ⟨name, value, hequals, ?_⟩
      cases entries with
      | nil => cases hentry
      | cons next entries =>
        rw [List.map_cons, List.map_cons, Text.joinWith, lines_append]
        exact List.mem_append_right _ hmem

/-- Variables cannot be read back when a value is on several lines. -/
theorem exists_parse_render_eq_error (hnames : NamesFit vars) (hvalues : ¬ ValuesFit vars) :
    ∃ line, parse (render vars) = .error (.malformedLine line) := by
  unfold ValuesFit at hvalues
  push Not at hvalues
  obtain ⟨entry, hentry, hfeed⟩ := hvalues
  obtain ⟨name, value, hequals, hmem⟩ := exists_openLine_mem_lines
    (fun e he => hnames e.1 (List.mem_map_of_mem he)) hentry hfeed
  have hblank : Text.allBlank (openLine name value) = false := by
    unfold openLine
    rw [List.append_assoc, allBlank_exportWord_append]
  refine exists_parse_eq_error ?_ hblank (parseLine_openLine hequals)
  unfold render
  rw [String.toList_ofList]
  exact hmem

/-! ## Files that are read -/

/-- What is read from a line stands on it, the name before the first equals sign. -/
theorem mem_of_parseLine {entry : String × String} (h : parseLine line = some entry) :
    '=' ∉ entry.1.toList ∧ (∀ c ∈ entry.1.toList, c ∈ line) ∧ ∀ c ∈ entry.2.toList, c ∈ line := by
  unfold parseLine at h
  simp only [Option.bind_eq_bind, Option.bind_eq_some_iff, Option.pure_def, Option.some.injEq] at h
  obtain ⟨assignment, hafter, ⟨name, quotedValue⟩, hcut, inner, hinner, value, hvalue, rfl⟩ := h
  obtain ⟨hequals, hassignment⟩ := Text.cutAt_eq_some_iff.1 hcut
  have hline : ∀ c ∈ assignment, c ∈ line := by
    unfold afterExport at hafter
    split at hafter
    · obtain rfl := Option.some.inj hafter
      exact fun c hc => List.mem_of_mem_drop hc
    · cases hafter
  have hquoted : ∀ c ∈ inner, c ∈ quotedValue := by
    unfold unquote at hinner
    split at hinner
    · next rest heq =>
      have hquotes : quotedValue = '"' :: rest := heq
      intro c hc
      rw [hquotes, Text.dropLast?_eq_some_iff.1 hinner]
      simp [hc]
    · cases hinner
  dsimp only
  rw [String.toList_ofList, String.toList_ofList]
  refine ⟨hequals, fun c hc => hline c ?_, fun c hc => hline c ?_⟩
  · rw [hassignment]
    exact List.mem_append_left _ hc
  · have hread : c ∈ quotedValue := hquoted c (mem_of_unescape hvalue hc)
    rw [hassignment]
    exact List.mem_append_right _ (List.mem_cons_of_mem _ hread)

/-- The names and values that are read from any file fit into one. -/
theorem fit_of_parse (h : parse content = .ok vars) : NamesFit vars ∧ ValuesFit vars := by
  obtain ⟨entries, hentries, rfl⟩ := parse_eq_ok_iff.1 h
  have hfit : ∀ e ∈ (OrderedMap.ofList entries).entries,
      '=' ∉ e.1.toList ∧ '\n' ∉ e.1.toList ∧ '\n' ∉ e.2.toList := by
    intro e he
    obtain ⟨line, hline, hparsed⟩ :=
      Lists.exists_mem_of_forall₂ hentries (OrderedMap.mem_of_mem_ofList he)
    have hfeed : '\n' ∉ line := notMem_of_mem_lines (List.mem_of_mem_filter hline)
    obtain ⟨hequals, hname, hvalue⟩ := mem_of_parseLine hparsed
    exact ⟨hequals, mt (hname _) hfeed, mt (hvalue _) hfeed⟩
  constructor
  · intro n hn
    obtain ⟨e, he, rfl⟩ := List.mem_map.1 hn
    exact ⟨(hfit e he).1, (hfit e he).2.1⟩
  · exact fun e he => (hfit e he).2.2

/-- Variables whose names can stand in a file come back from it, in their order, exactly when no
value holds a line feed; otherwise the file is refused. What is read from any file can stand in one
and comes back when it is written again. -/
theorem parse_render_iff :
    (∀ vars, NamesFit vars →
      (parse (render vars) = .ok vars ↔ ValuesFit vars) ∧
      (¬ ValuesFit vars → ∃ line, parse (render vars) = .error (.malformedLine line))) ∧
    ∀ content vars, parse content = .ok vars →
      NamesFit vars ∧ ValuesFit vars ∧ parse (render vars) = .ok vars := by
  constructor
  · intro vars hnames
    refine ⟨⟨?_, parse_render hnames⟩, exists_parse_render_eq_error hnames⟩
    intro hread
    exact (fit_of_parse hread).2
  · intro content vars hread
    obtain ⟨hnames, hvalues⟩ := fit_of_parse hread
    exact ⟨hnames, hvalues, parse_render hnames hvalues⟩

/-- Quotes, backslashes and carriage returns come back, a value with a further line is refused, and
a file with blank lines, needless backslashes and a name given twice is read as one that comes back.
-/
theorem parse_render_iff_of_samples :
    let vars := OrderedMap.ofList [("A B", "say \"hi\"\\\r"), ("", "a=$B"), ("C", "\"")]
    let injected := OrderedMap.ofList [("A", "1\"\nexport B=\"2")]
    let content := "export A=\"\\1\"\r\n\n  \nexport B=\"2\"\nexport A=\"3\"\n"
    let read := OrderedMap.ofList [("A", "3"), ("B", "2")]
    (NamesFit vars ∧ ValuesFit vars ∧ parse (render vars) = .ok vars) ∧
      (NamesFit injected ∧ ¬ ValuesFit injected ∧
        ∃ line, parse (render injected) = .error (.malformedLine line)) ∧
      parse content = .ok read ∧ parse (render read) = .ok read := by
  intro vars injected content read
  obtain ⟨hround, hreread⟩ := parse_render_iff
  have hvars : NamesFit vars ∧ ValuesFit vars := by
    unfold NamesFit ValuesFit
    decide
  have hinjected : NamesFit injected ∧ ¬ ValuesFit injected := by
    unfold NamesFit ValuesFit
    decide
  have hread : parse content = .ok read := by decide
  exact ⟨⟨hvars.1, hvars.2, (hround vars hvars.1).1.2 hvars.2⟩,
    ⟨hinjected.1, hinjected.2, (hround injected hinjected.1).2 hinjected.2⟩, hread,
    (hreread content read hread).2.2⟩

end JobStaging.Environment
