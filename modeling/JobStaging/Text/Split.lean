/-!
# Cutting texts at separators

Texts are lists of characters here. `split` cuts at every occurrence of one character and
`joinWith` puts pieces together again; `cutAt` and `cutAtText` cut at the first occurrence only. The
laws say what the pieces are: none of them holds the separator, and neither does the text before the
first cut.
-/

set_option autoImplicit false

namespace JobStaging.Text

/-- The pieces of a text between the occurrences of a character; there is always at least one. -/
def split (sep : Char) : List Char → List (List Char)
  | [] => [[]]
  | c :: cs =>
    if c = sep then [] :: split sep cs
    else
      let pieces := split sep cs
      (c :: pieces.headD []) :: pieces.tail

/-- The pieces one after the other with a character between neighbours. -/
def joinWith (sep : Char) : List (List Char) → List Char
  | [] => []
  | [piece] => piece
  | piece :: next :: rest => piece ++ sep :: joinWith sep (next :: rest)

/-- What stands before and after the first occurrence of a character. -/
def cutAt (sep : Char) : List Char → Option (List Char × List Char)
  | [] => none
  | c :: cs =>
    if c = sep then some ([], cs)
    else (cutAt sep cs).map fun parts => (c :: parts.1, parts.2)

/-- What stands before and after the first occurrence of a text. -/
def cutAtText (sep : List Char) : List Char → Option (List Char × List Char)
  | [] => if sep = [] then some ([], []) else none
  | c :: cs =>
    if sep.isPrefixOf (c :: cs) then some ([], (c :: cs).drop sep.length)
    else (cutAtText sep cs).map fun parts => (c :: parts.1, parts.2)

/-- The text without its last character, if that character is the given one. -/
def dropLast? (last : Char) (cs : List Char) : Option (List Char) :=
  match cs.reverse with
  | [] => none
  | c :: rest => if c = last then some rest.reverse else none

/-- Every text has a piece. -/
theorem split_ne_nil (sep : Char) (cs : List Char) : split sep cs ≠ [] := by
  cases cs with
  | nil => simp [split]
  | cons c cs => by_cases h : c = sep <;> simp [split, h]

/-- The first piece and the others. -/
theorem split_eq_cons (sep : Char) (cs : List Char) :
    split sep cs = (split sep cs).headD [] :: (split sep cs).tail := by
  cases h : split sep cs with
  | nil => exact absurd h (split_ne_nil sep cs)
  | cons p ps => rfl

/-- A character that is not the separator belongs to the first piece. -/
theorem split_cons_of_ne {sep c : Char} (cs : List Char) (h : c ≠ sep) :
    split sep (c :: cs) = (c :: (split sep cs).headD []) :: (split sep cs).tail := by
  simp [split, h]

/-- A separator between two texts cuts exactly there. -/
theorem split_append_sep (sep : Char) (xs ys : List Char) :
    split sep (xs ++ sep :: ys) = split sep xs ++ split sep ys := by
  induction xs with
  | nil => simp [split]
  | cons c xs ih =>
    by_cases h : c = sep
    · simp [split, h, ih]
    · rw [List.cons_append, split_cons_of_ne _ h, split_cons_of_ne _ h, ih, split_eq_cons sep xs]
      simp

/-- A text without the separator is one piece. -/
theorem split_of_notMem {sep : Char} {cs : List Char} (h : sep ∉ cs) : split sep cs = [cs] := by
  induction cs with
  | nil => rfl
  | cons c cs ih =>
    rw [List.mem_cons, not_or] at h
    rw [split_cons_of_ne _ (Ne.symm h.1), ih h.2]
    rfl

/-- No piece holds the separator. -/
theorem notMem_of_mem_split {sep : Char} {cs piece : List Char} (h : piece ∈ split sep cs) :
    sep ∉ piece := by
  induction cs generalizing piece with
  | nil => simp_all [split]
  | cons c cs ih =>
    by_cases hc : c = sep
    · rw [split, if_pos hc] at h
      rcases List.mem_cons.1 h with rfl | h
      · simp
      · exact ih h
    · rw [split_cons_of_ne _ hc] at h
      rcases List.mem_cons.1 h with rfl | h
      · have hd : sep ∉ (split sep cs).headD [] := ih (by rw [split_eq_cons sep cs]; simp)
        rw [List.mem_cons, not_or]
        exact ⟨Ne.symm hc, hd⟩
      · exact ih (List.mem_of_mem_tail h)

/-- A text is not cut when the separator is not in it. -/
theorem cutAt_eq_none_iff {sep : Char} {cs : List Char} : cutAt sep cs = none ↔ sep ∉ cs := by
  induction cs with
  | nil => simp [cutAt]
  | cons c cs ih =>
    by_cases h : c = sep
    · simp [cutAt, h]
    · simp [cutAt, h, ih, Ne.symm h]

/-- The cut is at the first occurrence: the left part does not hold the separator. -/
theorem cutAt_eq_some_iff {sep : Char} {cs before after : List Char} :
    cutAt sep cs = some (before, after) ↔ sep ∉ before ∧ cs = before ++ sep :: after := by
  induction cs generalizing before after with
  | nil => simp [cutAt]
  | cons c cs ih =>
    by_cases h : c = sep
    · subst h
      cases before with
      | nil => simp [cutAt]
      | cons b before => grind [cutAt]
    · cases before with
      | nil => simp [cutAt, h]
      | cons b before =>
        rw [cutAt, if_neg h, Option.map_eq_some_iff]
        constructor
        · rintro ⟨⟨p, q⟩, hp, he⟩
          obtain ⟨h1, h2⟩ := ih.1 hp
          grind
        · rintro ⟨h1, h2⟩
          refine ⟨(before, after), ih.2 ⟨?_, ?_⟩, ?_⟩ <;> grind

/-- The last character is dropped when it is the one that is given. -/
theorem dropLast?_append (last : Char) (cs : List Char) :
    dropLast? last (cs ++ [last]) = some cs := by
  simp [dropLast?]

/-- That is the only way to drop it. -/
theorem dropLast?_eq_some_iff {last : Char} {cs rest : List Char} :
    dropLast? last cs = some rest ↔ cs = rest ++ [last] := by
  constructor
  · intro h
    unfold dropLast? at h
    split at h
    · simp at h
    · next c r hr =>
      have hcs : cs = (c :: r).reverse := by rw [← hr, List.reverse_reverse]
      grind
  · rintro rfl
    exact dropLast?_append last rest

end JobStaging.Text
