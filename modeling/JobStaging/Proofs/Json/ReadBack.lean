import JobStaging.Json.Printer
import JobStaging.Json.Reader
import Mathlib.Data.List.Basic
import Mathlib.Tactic.SplitIfs

/-!
# Reading what was printed

The compact text of a value determines the value. The main statement is `readBack_of_plain`: from
any text that begins with the compact text of a value the reader takes exactly that part and gives
the value back, so no two values have texts of which one begins the other. Values with numbers are
left out, since a double is printed in fewer digits than it holds.

The proof goes along the reader. A string is read back character by character. For arrays and
objects there is one lemma for what the reader does at the last part and one for every part before
it, and the induction over the parts puts these together.
-/

set_option autoImplicit false

namespace JobStaging.Json

/-! ## Strings -/

/-- The two digits of a control character are read as its number. -/
theorem hexUnit?_hexByte {n : Nat} (hn : n < 32) :
    ∃ a b, Text.hexByte (UInt8.ofNat n) = [a, b] ∧ hexUnit? '0' '0' a b = some n := by
  refine ⟨_, _, rfl, ?_⟩
  have key : ∀ i : Fin 32, hexUnit? '0' '0' (Text.hexDigit ((UInt8.ofNat i).toNat / 16))
      (Text.hexDigit ((UInt8.ofNat i).toNat % 16)) = some i.val := by decide
  exact key ⟨n, hn⟩

/-- An escaped number that is no half of a pair is read as its character. -/
theorem stringBody_unit {a b c d : Char} {n : Nat} (done rest : List Char)
    (h : hexUnit? a b c d = some n) (hhigh : isHighUnit n = false) (hlow : isLowUnit n = false) :
    stringBody done ('\\' :: 'u' :: a :: b :: c :: d :: rest) =
      stringBody (Char.ofNat n :: done) rest := by
  rw [stringBody.eq_def]
  split
  · simp_all
  · simp_all
  · simp_all
  · next hother heq =>
    obtain ⟨rfl, rfl⟩ := List.cons.inj (List.cons.inj heq).2
    exact absurd rfl (hother a b c d rest rfl)
  · next _ hother heq =>
    obtain ⟨rfl, rfl⟩ := List.cons.inj heq
    exact absurd rfl (hother 'u' _ rfl)
  · simp_all

/-- A character that needs no escape is read as itself. -/
theorem stringBody_cons {c : Char} (done rest : List Char) (hquote : c ≠ '"') (hslash : c ≠ '\\')
    (hcontrol : 0x20 ≤ c.toNat) : stringBody done (c :: rest) = stringBody (c :: done) rest := by
  rw [stringBody]
  · rw [if_neg (by simp [hslash]; omega)]
  all_goals simp_all

/-- However a character is written, it is read as itself. -/
theorem stringBody_escapeChar (done : List Char) (c : Char) (rest : List Char) :
    stringBody done (escapeChar c ++ rest) = stringBody (c :: done) rest := by
  unfold escapeChar
  split_ifs with h1 h2 h3 h4 h5 h6 h7 h8
  -- Seven characters have a short escape, and the other control characters are written as units.
  all_goals try (subst c; rw [List.cons_append, stringBody.eq_def]; simp [escaped?])
  · obtain ⟨a, b, hbyte, hunit⟩ := hexUnit?_hexByte h8
    have hhigh : isHighUnit c.toNat = false := by simp [isHighUnit]; omega
    have hlow : isLowUnit c.toNat = false := by simp [isLowUnit]; omega
    have hread := stringBody_unit done rest hunit hhigh hlow
    rw [Char.ofNat_toNat] at hread
    rw [hbyte]
    exact hread
  · exact stringBody_cons done rest h1 h2 (by omega)

/-- A text is read back up to its closing quote. -/
theorem stringBody_flatMap_escapeChar (done cs rest : List Char) :
    stringBody done (cs.flatMap escapeChar ++ '"' :: rest) =
      some (String.ofList (done.reverse ++ cs), rest) := by
  induction cs generalizing done with
  | nil => rw [List.flatMap_nil, List.nil_append, stringBody, List.append_nil]
  | cons c cs ih =>
    rw [List.flatMap_cons, List.append_assoc, stringBody_escapeChar, ih]
    simp

/-- A quoted string opens with a quote, and the string is read from what follows. -/
theorem exists_quoteChars (s : String) (rest : List Char) :
    ∃ body, quoteChars s ++ rest = '"' :: body ∧ stringBody [] body = some (s, rest) := by
  refine ⟨s.toList.flatMap escapeChar ++ '"' :: rest, by simp [quoteChars], ?_⟩
  rw [stringBody_flatMap_escapeChar]
  simp

/-! ## How texts of values begin -/

/-- Values without numbers whose containers are nested at most so deep. -/
inductive Plain : Nat → Json → Prop where
  | null (depth : Nat) : Plain depth .null
  | bool (depth : Nat) (b : Bool) : Plain depth (.bool b)
  | string (depth : Nat) (s : String) : Plain depth (.string s)
  | array {depth : Nat} {elements : List Json} (h : ∀ j ∈ elements, Plain depth j) :
    Plain (depth + 1) (.array elements)
  | object {depth : Nat} {members : List (String × Json)} (h : ∀ e ∈ members, Plain depth e.2) :
    Plain (depth + 1) (.object members)

variable {steps depth : Nat} {j : Json} {elements : List Json} {members : List (String × Json)}
  {cs rest : List Char}

/-- A text begins like that of a value without numbers. -/
inductive BeginsValue : List Char → Prop where
  | n (after : List Char) : BeginsValue ('n' :: after)
  | t (after : List Char) : BeginsValue ('t' :: after)
  | f (after : List Char) : BeginsValue ('f' :: after)
  | quote (after : List Char) : BeginsValue ('"' :: after)
  | bracket (after : List Char) : BeginsValue ('[' :: after)
  | brace (after : List Char) : BeginsValue ('\x7b' :: after)

/-- What begins like a value does so whatever comes after it. -/
theorem BeginsValue.append (h : BeginsValue cs) (more : List Char) : BeginsValue (cs ++ more) := by
  cases h <;> constructor

/-- Before a value there is nothing to be skipped. -/
theorem BeginsValue.skipBlanks (h : BeginsValue cs) : skipBlanks cs = cs := by
  cases h <;> rfl

/-- The text of a plain value begins like that of a value. -/
theorem Plain.beginsValue (h : Plain depth j) : BeginsValue (compactChars j) := by
  cases h with
  | null => exact .n _
  | bool _ b =>
    cases b with
    | false => exact .f _
    | true => exact .t _
  | string => exact .quote _
  | array =>
    rw [compactChars]
    exact .bracket _
  | object =>
    rw [compactChars]
    exact .brace _

/-- So do its elements, when it has some. -/
theorem beginsValue_compactElements (hne : elements ≠ []) (h : ∀ j ∈ elements, Plain depth j) :
    BeginsValue (compactElements elements) := by
  cases elements with
  | nil => exact absurd rfl hne
  | cons j elements =>
    have hj : BeginsValue (compactChars j) := (h j List.mem_cons_self).beginsValue
    cases elements with
    | nil =>
      rw [compactElements]
      exact hj
    | cons next elements =>
      rw [compactElements]
      exact hj.append _

/-- So do its members, when it has some. -/
theorem beginsValue_compactMembers (hne : members ≠ []) :
    BeginsValue (compactMembers members) := by
  cases members with
  | nil => exact absurd rfl hne
  | cons e members =>
    have hquote : ∀ more, BeginsValue (quoteChars e.1 ++ more) :=
      fun more => .append (.quote _) more
    cases members with
    | nil =>
      rw [compactMembers]
      exact hquote _
    | cons next members =>
      rw [compactMembers]
      exact hquote _

/-! ## Parts of containers -/

/-- A value is read back when the reader, with at least as many steps as the text of the value has
characters, takes this text from the front of any other. -/
def ReadBack (depth : Nat) (j : Json) : Prop :=
  ∀ steps rest, (compactChars j).length ≤ steps →
    readValue steps depth (compactChars j ++ rest) = some (j, rest)

/-- An element is the last one when a bracket follows. -/
theorem readElements_last (h : readValue steps depth cs = some (j, ']' :: rest)) :
    readElements (steps + 1) depth cs = some ([j], rest) := by
  rw [readElements, h]
  rfl

/-- More elements are read when a comma follows. -/
theorem readElements_next (h : readValue steps depth cs = some (j, ',' :: rest)) :
    readElements (steps + 1) depth cs =
      (readElements steps depth (skipBlanks rest)).map fun r => (j :: r.1, r.2) := by
  rw [readElements, h]
  rfl

/-- A member is the last one when a brace follows. -/
theorem readMembers_last (name : String) (hcs : BeginsValue cs)
    (h : readValue steps depth cs = some (j, '\x7d' :: rest)) :
    readMembers (steps + 1) depth (quoteChars name ++ ':' :: cs) = some ([(name, j)], rest) := by
  obtain ⟨body, hbody, hname⟩ := exists_quoteChars name (':' :: cs)
  have hcolon : skipBlanks (':' :: cs) = ':' :: cs := rfl
  have hend : skipBlanks ('\x7d' :: rest) = '\x7d' :: rest := rfl
  rw [hbody, readMembers, hname]
  simp only [hcolon, hcs.skipBlanks, h, hend]

/-- More members are read when a comma follows. -/
theorem readMembers_next (name : String) (hcs : BeginsValue cs)
    (h : readValue steps depth cs = some (j, ',' :: rest)) :
    readMembers (steps + 1) depth (quoteChars name ++ ':' :: cs) =
      (readMembers steps depth (skipBlanks rest)).map fun r => ((name, j) :: r.1, r.2) := by
  obtain ⟨body, hbody, hname⟩ := exists_quoteChars name (':' :: cs)
  have hcolon : skipBlanks (':' :: cs) = ':' :: cs := rfl
  have hcomma : skipBlanks (',' :: rest) = ',' :: rest := rfl
  rw [hbody, readMembers, hname]
  simp only [hcolon, hcs.skipBlanks, h, hcomma]

/-- Elements that are read back one by one are read back together, up to the bracket. -/
theorem readElements_compactElements (hne : elements ≠ []) (hplain : ∀ j ∈ elements, Plain depth j)
    (hread : ∀ j ∈ elements, ReadBack depth j) (steps : Nat)
    (hsteps : (compactElements elements).length < steps) :
    readElements steps depth (compactElements elements ++ ']' :: rest) = some (elements, rest) := by
  induction elements generalizing steps with
  | nil => exact absurd rfl hne
  | cons j elements ih =>
    obtain ⟨steps, rfl⟩ : ∃ n, steps = n + 1 := ⟨steps - 1, by omega⟩
    have hj : ReadBack depth j := hread j List.mem_cons_self
    cases elements with
    | nil =>
      rw [compactElements] at hsteps ⊢
      exact readElements_last (hj steps _ (by omega))
    | cons next elements =>
      have hplain' : ∀ j ∈ next :: elements, Plain depth j :=
        fun j hj => hplain j (List.mem_cons_of_mem _ hj)
      have hbegins := (beginsValue_compactElements (List.cons_ne_nil _ _) hplain').append
        (']' :: rest)
      have hrest := ih (List.cons_ne_nil _ _) hplain'
        (fun j hj => hread j (List.mem_cons_of_mem _ hj)) steps
      rw [compactElements, List.length_append, List.length_cons] at hsteps
      rw [compactElements, List.append_assoc, List.cons_append,
        readElements_next (hj steps _ (by omega)), hbegins.skipBlanks, hrest (by omega)]
      rfl

/-- Members whose values are read back are read back together, up to the brace. -/
theorem readMembers_compactMembers (hne : members ≠ [])
    (hplain : ∀ e ∈ members, Plain depth e.2) (hread : ∀ e ∈ members, ReadBack depth e.2)
    (steps : Nat) (hsteps : (compactMembers members).length < steps) :
    readMembers steps depth (compactMembers members ++ '\x7d' :: rest) = some (members, rest) := by
  induction members generalizing steps with
  | nil => exact absurd rfl hne
  | cons e members ih =>
    obtain ⟨name, j⟩ := e
    obtain ⟨steps, rfl⟩ : ∃ n, steps = n + 1 := ⟨steps - 1, by omega⟩
    have hj : ReadBack depth j := hread (name, j) List.mem_cons_self
    have hvalue : BeginsValue (compactChars j) := (hplain (name, j) List.mem_cons_self).beginsValue
    cases members with
    | nil =>
      rw [compactMembers] at hsteps ⊢
      simp only [List.length_append, List.length_cons] at hsteps
      rw [List.append_assoc, List.cons_append]
      exact readMembers_last name (hvalue.append _) (hj steps _ (by omega))
    | cons next members =>
      have hbegins := (beginsValue_compactMembers (List.cons_ne_nil next members)).append
        ('\x7d' :: rest)
      have hrest := ih (List.cons_ne_nil _ _) (fun e he => hplain e (List.mem_cons_of_mem _ he))
        (fun e he => hread e (List.mem_cons_of_mem _ he)) steps
      rw [compactMembers] at hsteps ⊢
      simp only [List.length_append, List.length_cons] at hsteps
      rw [List.append_assoc, List.cons_append, List.append_assoc, List.cons_append,
        readMembers_next name (hvalue.append _) (hj steps _ (by omega)), hbegins.skipBlanks,
        hrest (by omega)]
      rfl

/-! ## Values -/

/-- The reader always has a first step, since no text of a value is empty. -/
theorem readBack_of_step (hne : compactChars j ≠ [])
    (h : ∀ steps rest, (compactChars j).length ≤ steps + 1 →
      readValue (steps + 1) depth (compactChars j ++ rest) = some (j, rest)) :
    ReadBack depth j := by
  intro steps rest hsteps
  cases steps with
  | zero => exact absurd (List.length_eq_zero_iff.1 (Nat.le_zero.1 hsteps)) hne
  | succ steps => exact h steps rest hsteps

/-- A text is read back at any depth. -/
theorem readBack_string (depth : Nat) (s : String) : ReadBack depth (.string s) := by
  refine readBack_of_step (List.cons_ne_nil _ _) fun steps rest _ => ?_
  obtain ⟨body, hbody, hs⟩ := exists_quoteChars s rest
  have hchars : compactChars (.string s) ++ rest = '"' :: body := hbody
  have hread : readValue (steps + 1) depth ('"' :: body) =
      (stringBody [] body).map fun r => (.string r.1, r.2) := by
    cases depth <;> rfl
  rw [hchars, hread, hs]
  rfl

/-- The elements of an array are read behind its bracket. -/
theorem readValue_bracket (hcs : BeginsValue cs) :
    readValue (steps + 1) (depth + 1) ('[' :: cs) =
      (readElements steps depth cs).map fun r => (.array r.1, r.2) := by
  cases hcs <;> rfl

/-- The members of an object are read behind its brace. -/
theorem readValue_brace (hcs : BeginsValue cs) :
    readValue (steps + 1) (depth + 1) ('\x7b' :: cs) =
      (readMembers steps depth cs).map fun r => (.object r.1, r.2) := by
  cases hcs <;> rfl

/-- An array is read back when its elements are. -/
theorem readBack_array (hplain : ∀ j ∈ elements, Plain depth j)
    (hread : ∀ j ∈ elements, ReadBack depth j) : ReadBack (depth + 1) (.array elements) := by
  refine readBack_of_step (by rw [compactChars]; exact List.cons_ne_nil _ _)
    fun steps rest hsteps => ?_
  by_cases hne : elements = []
  · subst hne
    rfl
  · have hbegins := (beginsValue_compactElements hne hplain).append (']' :: rest)
    rw [compactChars] at hsteps ⊢
    simp only [List.length_append, List.length_cons] at hsteps
    rw [List.cons_append, List.append_assoc, List.cons_append, List.nil_append,
      readValue_bracket hbegins, readElements_compactElements hne hplain hread steps (by omega)]
    rfl

/-- An object is read back when the values of its members are. -/
theorem readBack_object (hplain : ∀ e ∈ members, Plain depth e.2)
    (hread : ∀ e ∈ members, ReadBack depth e.2) : ReadBack (depth + 1) (.object members) := by
  refine readBack_of_step (by rw [compactChars]; exact List.cons_ne_nil _ _)
    fun steps rest hsteps => ?_
  by_cases hne : members = []
  · subst hne
    rfl
  · have hbegins := (beginsValue_compactMembers hne).append ('\x7d' :: rest)
    rw [compactChars] at hsteps ⊢
    simp only [List.length_append, List.length_cons] at hsteps
    rw [List.cons_append, List.append_assoc, List.cons_append, List.nil_append,
      readValue_brace hbegins, readMembers_compactMembers hne hplain hread steps (by omega)]
    rfl

/-- The reader takes the compact text of a value from the front of any text and gives the value
back. -/
theorem readBack_of_plain (h : Plain depth j) : ReadBack depth j := by
  induction h with
  | null => exact readBack_of_step (List.cons_ne_nil _ _) fun _ _ _ => rfl
  | bool _ b =>
    refine readBack_of_step (by cases b <;> exact List.cons_ne_nil _ _) fun _ _ _ => ?_
    cases b <;> rfl
  | string depth s => exact readBack_string depth s
  | array hplain ih => exact readBack_array hplain ih
  | object hplain ih => exact readBack_object hplain ih

/-- A whole text is read as the value that it was printed from. -/
theorem parseTree_compact (h : Plain depth j) : parseTree depth j.compact = some j := by
  have hread := readBack_of_plain h (2 * (compactChars j).length + 1) [] (by omega)
  rw [List.append_nil] at hread
  unfold parseTree compact
  dsimp only
  rw [String.toList_ofList, h.beginsValue.skipBlanks, hread]
  rfl

/-- Values with the same compact text are the same. -/
theorem compact_inj {j' : Json} (h : Plain depth j) (h' : Plain depth j') :
    j.compact = j'.compact ↔ j = j' := by
  constructor
  · intro htext
    have hread := parseTree_compact h
    rw [htext, parseTree_compact h'] at hread
    exact (Option.some.inj hread).symm
  · rintro rfl
    rfl

end JobStaging.Json
