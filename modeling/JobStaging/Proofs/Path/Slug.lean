import JobStaging.Path.Slug
import JobStaging.Proofs.Digest
import JobStaging.Proofs.Path.Components

/-!
# Slugs tell paths apart

A slug is made of the bytes of the names, each written by a code word, with a hyphen between names.
No code word begins another (`slugByte_append_inj`) and none begins with a hyphen, so a slug can be
read in one way only: a hyphen where a code word should begin is a boundary between names. The main
statement is `slug_eq_iff`: paths have the same slug exactly when they take the same steps, and so
absolute paths when they are the same place. `slug_is_code` adds which characters a slug has, and
that none of this depends on the names being texts: any bytes will do.
-/

set_option autoImplicit false

namespace JobStaging

namespace Text

/-- No hexadecimal digit is a hyphen or an underscore. -/
theorem hexDigit_ne {n : Nat} (h : n < 16) : hexDigit n ≠ '-' ∧ hexDigit n ≠ '_' := by
  have key : ∀ i : Fin 16, hexDigit i ≠ '-' ∧ hexDigit i ≠ '_' := by decide
  exact key ⟨n, h⟩

/-- Pieces are joined by putting the separator before all but the first. -/
theorem joinWith_cons (sep : Char) (piece : List Char) (pieces : List (List Char)) :
    joinWith sep (piece :: pieces) =
      piece ++ if pieces = [] then [] else sep :: joinWith sep pieces := by
  cases pieces with
  | nil => simp [joinWith]
  | cons next pieces => simp [joinWith]

/-- A joined text has no characters but the separator and those of its pieces. -/
theorem eq_or_mem_of_mem_joinWith {sep c : Char} {pieces : List (List Char)}
    (h : c ∈ joinWith sep pieces) : c = sep ∨ ∃ piece ∈ pieces, c ∈ piece := by
  induction pieces with
  | nil => cases h
  | cons piece rest ih =>
    rw [joinWith_cons, List.mem_append] at h
    rcases h with h | h
    · exact .inr ⟨piece, List.mem_cons_self, h⟩
    · split at h
      · cases h
      · rcases List.mem_cons.1 h with hsep | h
        · exact .inl hsep
        · obtain hsep | ⟨other, hother, hc⟩ := ih h
          · exact .inl hsep
          · exact .inr ⟨other, List.mem_cons_of_mem _ hother, hc⟩

/-- A hexadecimal digit is a letter or a digit. -/
theorem isAlphanum_hexDigit {n : Nat} (h : n < 16) : (hexDigit n).isAlphanum = true := by
  have key : ∀ i : Fin 16, (hexDigit i).isAlphanum = true := by decide
  exact key ⟨n, h⟩

/-- Only the empty text has no bytes. -/
theorem utf8_eq_nil_iff {s : String} : utf8 s = [] ↔ s = "" := by
  have hempty : utf8 "" = [] := rfl
  rw [← hempty, utf8_inj]

end Text

namespace Path

variable {p q : Path} {a b : UInt8} {x y : List Char}

/-! ## Code words -/

/-- A number below 256 is the number of its character. -/
theorem toNat_ofNat_of_lt {n : Nat} (h : n < 256) : (Char.ofNat n).toNat = n := by
  have hvalid : n.isValidChar := .inl (by omega)
  unfold Char.ofNat
  rw [dif_pos hvalid]
  exact UInt32.toNat_ofNatLT ..

/-- Bytes are told by their characters. -/
theorem ofNat_toNat_inj (h : Char.ofNat a.toNat = Char.ofNat b.toNat) : a = b := by
  have hnat := congrArg Char.toNat h
  rw [toNat_ofNat_of_lt a.toNat_lt, toNat_ofNat_of_lt b.toNat_lt] at hnat
  exact UInt8.toNat_inj.1 hnat

/-- The three kinds of code words: a letter or digit itself, a hyphen or an underscore after an
underscore, and two digits after an underscore for everything else. -/
theorem slugByte_cases (b : UInt8) :
    isPlainByte b = true ∧ slugByte b = [Char.ofNat b.toNat] ∨
    (b = 45 ∨ b = 95) ∧ slugByte b = ['_', Char.ofNat b.toNat] ∨
    slugByte b = '_' :: Text.hexByte b := by
  unfold slugByte
  split
  · next h => exact .inr (.inl ⟨.inl h, by rw [h]; rfl⟩)
  · split
    · next h => exact .inr (.inl ⟨.inr h, by rw [h]; rfl⟩)
    · split
      · next h => exact .inl ⟨h, rfl⟩
      · exact .inr (.inr rfl)

/-- A byte that stands for itself is no hyphen and no underscore. -/
theorem ofNat_toNat_ne_of_plain (h : isPlainByte a = true) :
    Char.ofNat a.toNat ≠ '-' ∧ Char.ofNat a.toNat ≠ '_' := by
  have hbyte : ∀ b : UInt8, isPlainByte b = false → Char.ofNat a.toNat ≠ Char.ofNat b.toNat := by
    intro b hb heq
    rw [ofNat_toNat_inj heq, hb] at h
    cases h
  exact ⟨hbyte 45 (by decide), hbyte 95 (by decide)⟩

/-- A hyphen or an underscore is not taken for the first digit of an escaped byte. -/
theorem ofNat_toNat_ne_hexDigit (h : a = 45 ∨ a = 95) (b : UInt8) :
    Char.ofNat a.toNat ≠ Text.hexDigit (b.toNat / 16) := by
  have hb := b.toNat_lt
  obtain ⟨hhyphen, hunderscore⟩ := Text.hexDigit_ne (show b.toNat / 16 < 16 by omega)
  rcases h with rfl | rfl
  · exact hhyphen.symm
  · exact hunderscore.symm

/-- An escaped byte and what follows it are told from their text. -/
theorem hexByte_append_inj (h : Text.hexByte a ++ x = Text.hexByte b ++ y) : a = b ∧ x = y := by
  obtain ⟨hcode, hrest⟩ := List.append_inj h rfl
  have hflat : [a].flatMap Text.hexByte = [b].flatMap Text.hexByte := by simpa using hcode
  have hbyte : [a] = [b] := Text.flatMap_hexByte_inj hflat
  exact ⟨List.head_eq_of_cons_eq hbyte, hrest⟩

/-- No code word begins another. -/
theorem slugByte_append_inj (h : slugByte a ++ x = slugByte b ++ y) : a = b ∧ x = y := by
  rcases slugByte_cases a with ⟨ha, hworda⟩ | ⟨ha, hworda⟩ | hworda <;>
    rcases slugByte_cases b with ⟨hb, hwordb⟩ | ⟨hb, hwordb⟩ | hwordb <;>
    rw [hworda, hwordb] at h <;>
    simp only [List.cons_append, List.nil_append, List.cons.injEq, true_and] at h
  · exact ⟨ofNat_toNat_inj h.1, h.2⟩
  · exact absurd h.1 (ofNat_toNat_ne_of_plain ha).2
  · exact absurd h.1 (ofNat_toNat_ne_of_plain ha).2
  · exact absurd h.1.symm (ofNat_toNat_ne_of_plain hb).2
  · exact ⟨ofNat_toNat_inj h.1, h.2⟩
  · exact absurd (List.head_eq_of_cons_eq h) (ofNat_toNat_ne_hexDigit ha b)
  · exact absurd h.1.symm (ofNat_toNat_ne_of_plain hb).2
  · exact absurd (List.head_eq_of_cons_eq h.symm) (ofNat_toNat_ne_hexDigit hb a)
  · exact hexByte_append_inj h

/-- No code word begins with a hyphen. -/
theorem slugByte_append_ne (b : UInt8) (x y : List Char) : slugByte b ++ x ≠ '-' :: y := by
  intro h
  rcases slugByte_cases b with ⟨hplain, hword⟩ | ⟨-, hword⟩ | hword
  · rw [hword] at h
    exact (ofNat_toNat_ne_of_plain hplain).1 (List.head_eq_of_cons_eq h)
  · rw [hword] at h
    exact absurd (List.head_eq_of_cons_eq h) (by decide)
  · rw [hword] at h
    exact absurd (List.head_eq_of_cons_eq h) (by decide)

/-- No code word is empty. -/
theorem slugByte_ne_nil (b : UInt8) : slugByte b ≠ [] := by
  rcases slugByte_cases b with ⟨-, hword⟩ | ⟨-, hword⟩ | hword <;> simp [hword]

/-! ## Names -/

/-- Whether a name has come to its end: nothing follows, or a hyphen does. -/
def EndsName (rest : List Char) : Prop := rest = [] ∨ ∃ more, rest = '-' :: more

/-- No name has come to its end where a code word begins. -/
theorem not_endsName_slugByte_append (b : UInt8) (x : List Char) :
    ¬ EndsName (slugByte b ++ x) := by
  rintro (hnil | ⟨more, hmore⟩)
  · exact slugByte_ne_nil b (List.append_eq_nil_iff.1 hnil).1
  · exact slugByte_append_ne b x more hmore

/-- A name and what follows it are told from their text. -/
theorem flatMap_slugByte_append_inj {name other : List UInt8} (hx : EndsName x) (hy : EndsName y)
    (h : name.flatMap slugByte ++ x = other.flatMap slugByte ++ y) : name = other ∧ x = y := by
  induction name generalizing other with
  | nil =>
    cases other with
    | nil => exact ⟨rfl, h⟩
    | cons b other =>
      rw [List.flatMap_cons, List.append_assoc] at h
      have hend : EndsName (slugByte b ++ (other.flatMap slugByte ++ y)) := h ▸ hx
      exact absurd hend (not_endsName_slugByte_append b _)
  | cons a name ih =>
    cases other with
    | nil =>
      rw [List.flatMap_cons, List.append_assoc] at h
      have hend : EndsName (slugByte a ++ (name.flatMap slugByte ++ x)) := h ▸ hy
      exact absurd hend (not_endsName_slugByte_append a _)
    | cons b other =>
      rw [List.flatMap_cons, List.flatMap_cons, List.append_assoc, List.append_assoc] at h
      obtain ⟨rfl, hrest⟩ := slugByte_append_inj h
      obtain ⟨rfl, hend⟩ := ih hrest
      exact ⟨rfl, hend⟩

/-- The text of several names. -/
def namesText (names : List (List UInt8)) : List Char :=
  Text.joinWith '-' (names.map fun name => name.flatMap slugByte)

/-- What stands after the first of several names. -/
def afterName (names : List (List UInt8)) : List Char :=
  if names = [] then [] else '-' :: namesText names

/-- Behind the first of several names, that name has come to its end. -/
theorem endsName_afterName (names : List (List UInt8)) : EndsName (afterName names) := by
  unfold afterName
  split
  · exact .inl rfl
  · exact .inr ⟨_, rfl⟩

/-- The text of several names begins with that of the first. -/
theorem namesText_cons (name : List UInt8) (names : List (List UInt8)) :
    namesText (name :: names) = name.flatMap slugByte ++ afterName names := by
  unfold namesText afterName
  rw [List.map_cons, Text.joinWith_cons]
  simp [namesText]

/-- Names that are not empty are told from their text. -/
theorem namesText_inj {names others : List (List UInt8)} (hnames : [] ∉ names)
    (hothers : [] ∉ others) (h : namesText names = namesText others) : names = others := by
  -- A text of at least one name is not empty, since the name is not.
  have hne : ∀ (name : List UInt8) (rest : List (List UInt8)), [] ∉ name :: rest →
      namesText (name :: rest) ≠ [] := by
    intro name rest hmem hnil
    rw [namesText_cons, List.append_eq_nil_iff] at hnil
    cases name with
    | nil => exact hmem List.mem_cons_self
    | cons b name =>
      rw [List.flatMap_cons, List.append_eq_nil_iff] at hnil
      exact slugByte_ne_nil b hnil.1.1
  induction names generalizing others with
  | nil =>
    cases others with
    | nil => rfl
    | cons other others => exact absurd h.symm (hne other others hothers)
  | cons name names ih =>
    cases others with
    | nil => exact absurd h (hne name names hnames)
    | cons other others =>
      rw [namesText_cons, namesText_cons] at h
      obtain ⟨rfl, hafter⟩ :=
        flatMap_slugByte_append_inj (endsName_afterName names) (endsName_afterName others) h
      rw [List.mem_cons, not_or] at hnames hothers
      unfold afterName at hafter
      by_cases hnil : names = [] <;> by_cases hnil' : others = []
      · rw [hnil, hnil']
      · simp [hnil, hnil'] at hafter
      · simp [hnil, hnil'] at hafter
      · rw [if_neg hnil, if_neg hnil', List.cons.injEq] at hafter
        rw [ih hnames.2 hothers.2 hafter.2]

/-! ## Paths -/

/-- The parts of a path that lead somewhere. -/
def busyParts (p : Path) : List (List Char) := p.parts.filter fun part => !isIdle part

/-- A part of a path adds its bytes to the slug. -/
theorem word_ofPart (part : List Char) :
    (Component.ofPart part).word = some (Text.utf8 (String.ofList part)) := by
  unfold Component.ofPart
  split
  · next h => rw [h]; rfl
  · rfl

/-- What a path starts with adds nothing to the slug. -/
theorem filterMap_word_components (p : Path) :
    p.components.filterMap Component.word = p.steps.filterMap Component.word := by
  have hstart : p.start.filterMap Component.word = [] := by
    unfold start
    split
    · rfl
    · split <;> rfl
  unfold components
  rw [List.filterMap_append, hstart, List.nil_append]

/-- The names of a slug are the bytes of the parts that lead somewhere. -/
theorem filterMap_word_steps (p : Path) : p.steps.filterMap Component.word =
    p.busyParts.map fun part => Text.utf8 (String.ofList part) := by
  have hword : Component.word ∘ Component.ofPart =
      some ∘ fun part => Text.utf8 (String.ofList part) := funext word_ofPart
  unfold steps
  rw [List.filterMap_map, hword, List.filterMap_eq_map]
  rfl

/-- A slug is the text of the parts that lead somewhere. -/
theorem toList_slug (p : Path) : p.slug.toList =
    namesText (p.busyParts.map fun part => Text.utf8 (String.ofList part)) := by
  unfold slug slugOf
  rw [String.toList_ofList, filterMap_word_components, filterMap_word_steps]
  rfl

/-- Parts are told by their bytes. -/
theorem utf8_ofList_inj {part other : List Char}
    (h : Text.utf8 (String.ofList part) = Text.utf8 (String.ofList other)) : part = other := by
  have hchars := congrArg String.toList (Text.utf8_inj.1 h)
  rwa [String.toList_ofList, String.toList_ofList] at hchars

/-- No part that leads somewhere is empty. -/
theorem nil_notMem_words (p : Path) :
    [] ∉ p.busyParts.map fun part => Text.utf8 (String.ofList part) := by
  intro hmem
  obtain ⟨part, hpart, hnil⟩ := List.mem_map.1 hmem
  have hempty := congrArg String.toList (Text.utf8_eq_nil_iff.1 hnil)
  rw [String.toList_ofList] at hempty
  have hbusy := (List.mem_filter.1 hpart).2
  rw [hempty] at hbusy
  cases hbusy

/-- Paths have the same slug exactly when they take the same steps. -/
theorem slug_eq_iff : p.slug = q.slug ↔ p.steps = q.steps := by
  constructor
  · intro h
    have htext := congrArg String.toList h
    rw [toList_slug, toList_slug] at htext
    have hwords := namesText_inj (nil_notMem_words p) (nil_notMem_words q) htext
    have hparts : p.busyParts = q.busyParts :=
      (List.map_inj_right fun _ _ => utf8_ofList_inj).1 hwords
    exact congrArg (List.map Component.ofPart) hparts
  · intro h
    unfold slug slugOf
    rw [filterMap_word_components, filterMap_word_components, h]

/-- Absolute paths have the same slug exactly when they are the same place. -/
theorem slug_eq_iff_of_isAbsolute (hp : p.isAbsolute = true) (hq : q.isAbsolute = true) :
    p.slug = q.slug ↔ p.components = q.components := by
  rw [slug_eq_iff, components_of_isAbsolute hp, components_of_isAbsolute hq, List.cons_inj_right]

/-! ## Characters -/

/-- A slug is written with ASCII letters and digits, the hyphen and the underscore. -/
def IsSlugChar (c : Char) : Prop := c.isAlphanum = true ∨ c = '-' ∨ c = '_'

/-- A byte that stands for itself is a letter or a digit. -/
theorem isAlphanum_of_plain (h : isPlainByte a = true) :
    (Char.ofNat a.toNat).isAlphanum = true := by
  have hbytes : ∀ n < 256, isPlainByte (UInt8.ofNat n) = true →
      (Char.ofNat n).isAlphanum = true := by decide +kernel
  have hbyte := hbytes a.toNat a.toNat_lt
  rw [UInt8.ofNat_toNat] at hbyte
  exact hbyte h

/-- Code words have the characters of slugs only. -/
theorem isSlugChar_of_mem_slugByte {c : Char} (h : c ∈ slugByte a) : IsSlugChar c := by
  have ha := a.toNat_lt
  rcases slugByte_cases a with ⟨hplain, hword⟩ | ⟨hbyte, hword⟩ | hword <;> rw [hword] at h
  · obtain rfl := List.mem_singleton.1 h
    exact .inl (isAlphanum_of_plain hplain)
  · have hchars : c = '_' ∨ c = Char.ofNat a.toNat := by simpa using h
    rcases hchars with rfl | rfl
    · exact .inr (.inr rfl)
    · rcases hbyte with rfl | rfl
      · exact .inr (.inl rfl)
      · exact .inr (.inr rfl)
  · simp only [Text.hexByte, List.mem_cons, List.not_mem_nil, or_false] at h
    rcases h with rfl | rfl | rfl
    · exact .inr (.inr rfl)
    · exact .inl (Text.isAlphanum_hexDigit (by omega))
    · exact .inl (Text.isAlphanum_hexDigit (by omega))

/-- So have several names, with the hyphens between them. -/
theorem isSlugChar_of_mem_namesText {c : Char} {names : List (List UInt8)}
    (h : c ∈ namesText names) : IsSlugChar c := by
  obtain rfl | ⟨text, htext, hc⟩ := Text.eq_or_mem_of_mem_joinWith h
  · exact .inr (.inl rfl)
  · obtain ⟨name, -, rfl⟩ := List.mem_map.1 htext
    obtain ⟨b, -, hb⟩ := List.mem_flatMap.1 hc
    exact isSlugChar_of_mem_slugByte hb

/-- Slugs are a code for absolute paths, made of letters, digits, hyphens and underscores: two of
them are equal exactly when the paths are the same place. The slug is made of the bytes of the
components, and it would tell any bytes apart that are not empty, whether they are a text or not. -/
theorem slug_is_code :
    (∀ p q : Path, p.isAbsolute = true → q.isAbsolute = true →
      (p.slug = q.slug ↔ p.components = q.components)) ∧
    (∀ p : Path, ∀ c ∈ p.slug.toList, IsSlugChar c) ∧
    (∀ p : Path, p.slug.toList = namesText (p.components.filterMap Component.word)) ∧
    ∀ names : List (List UInt8), [] ∉ names → (∀ c ∈ namesText names, IsSlugChar c) ∧
      ∀ others : List (List UInt8), [] ∉ others →
        (namesText names = namesText others ↔ names = others) := by
  refine ⟨fun p q hp hq => slug_eq_iff_of_isAbsolute hp hq, ?_, fun p => String.toList_ofList, ?_⟩
  · intro p c hc
    rw [toList_slug] at hc
    exact isSlugChar_of_mem_namesText hc
  · intro names hnames
    refine ⟨fun c hc => isSlugChar_of_mem_namesText hc, fun others hothers => ?_⟩
    exact ⟨namesText_inj hnames hothers, congrArg namesText⟩

/-- Two spellings of one place; a hyphen in a name and a boundary between names; and a name that is
no text. -/
theorem slug_is_code_of_samples :
    (Path.mk "/mnt//my data/.").slug = (Path.mk "/mnt/./my data/").slug ∧
    (Path.mk "/opt/efs-x").slug ≠ (Path.mk "/opt/efs/x").slug ∧
    (∀ c ∈ (Path.mk "/opt/efs_é/..").slug.toList, IsSlugChar c) ∧
    namesText [[0xff, 0x2d], [0x2d]] ≠ namesText [[0xff], [0x2d, 0x2d]] := by
  obtain ⟨hpaths, hchars, -, hnames⟩ := slug_is_code
  refine ⟨(hpaths _ _ (by decide) (by decide)).2 (by decide), ?_, hchars _, ?_⟩
  · rw [Ne, hpaths _ _ (by decide) (by decide)]
    decide
  · rw [Ne, (hnames _ (by decide)).2 _ (by decide)]
    decide

end Path

end JobStaging
