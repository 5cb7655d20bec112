import JobStaging.Config
import JobStaging.Proofs.OrderedMap
import JobStaging.Proofs.Path.Components
import Mathlib.Data.Nat.Digits.Defs
import Mathlib.Logic.Function.Basic

/-!
# Settings overridden by variables

The variables of the surroundings are read loosely: of the list of mounts every entry counts that
gives one (`GivesMount`), and all others are passed over; a threshold counts when it denotes a
number (`Denotes`). What the entries that count give is put, one after the other, over the mounts
that are there already. So the last entry for a file system decides (`Overlaid`), and a second run
finds every name in its place and every value set. The main statement is `override_settles`.
-/

set_option autoImplicit false

namespace JobStaging

namespace Config

variable {entry : List Char} {entries : List (List Char)} {mount : String × Path}
  {mounts : List (String × Path)} {text : String} {n : UInt64} {setting : String → Option String}
  {c : Config}

/-! ## Entries -/

/-- An entry gives a mount when there is an equals sign in it, and texts that are not blank before
and after the first one. Blanks around these do not count. -/
def GivesMount (entry : List Char) (mount : String × Path) : Prop :=
  ∃ id root, '=' ∉ id ∧ entry = id ++ '=' :: root ∧
    Text.trim id = mount.1.toList ∧ mount.1 ≠ "" ∧
    Text.trim root = mount.2.text.toList ∧ mount.2.text ≠ ""

/-- An entry is parsed as the mount that it gives. -/
theorem parseLocalMount_eq_ok_iff :
    parseLocalMount (String.ofList entry) = .ok mount ↔ GivesMount entry mount := by
  obtain ⟨fileSystem, ⟨directory⟩⟩ := mount
  have hempty : ∀ text : String, text ≠ "" ↔ text.toList ≠ [] := by
    intro text
    rw [ne_eq, ne_eq, String.toList_eq_nil_iff]
  unfold parseLocalMount GivesMount
  rw [String.toList_ofList]
  constructor
  · intro h
    split at h
    · next id root hcut =>
      obtain ⟨hid, hentry⟩ := Text.cutAt_eq_some_iff.1 hcut
      split at h
      · cases h
      · next hblank =>
        rw [not_or] at hblank
        cases h
        refine ⟨id, root, hid, hentry, String.toList_ofList.symm, ?_, String.toList_ofList.symm, ?_⟩
        · rw [hempty, String.toList_ofList]
          exact hblank.1
        · rw [hempty, String.toList_ofList]
          exact hblank.2
    · cases h
  · rintro ⟨id, root, hid, hentry, hsystem, hsystem', hdirectory, hdirectory'⟩
    rw [Text.cutAt_eq_some_iff.2 ⟨hid, hentry⟩]
    dsimp only at hsystem hsystem' hdirectory hdirectory' ⊢
    rw [hempty] at hsystem' hdirectory'
    rw [hsystem, hdirectory, if_neg (not_or.2 ⟨hsystem', hdirectory'⟩), String.ofList_toList,
      String.ofList_toList]

/-- What a list of entries gives: the mounts of those entries that give one, in order. -/
inductive Given : List (List Char) → List (String × Path) → Prop
  | nil : Given [] []
  | mount {entry rest mount mounts} (h : GivesMount entry mount) (hrest : Given rest mounts) :
    Given (entry :: rest) (mount :: mounts)
  | malformed {entry rest mounts} (h : ∀ mount, ¬ GivesMount entry mount)
    (hrest : Given rest mounts) : Given (entry :: rest) mounts

/-- The mount that an entry gives, if it gives one. -/
def mountOf? (entry : List Char) : Option (String × Path) :=
  (parseLocalMount (String.ofList entry)).toOption

/-- An entry has the mount that it gives. -/
theorem mountOf?_eq_some_iff : mountOf? entry = some mount ↔ GivesMount entry mount := by
  rw [← parseLocalMount_eq_ok_iff]
  unfold mountOf?
  cases parseLocalMount (String.ofList entry) <;> simp [Except.toOption]

/-- It has none when it gives none. -/
theorem mountOf?_eq_none_iff : mountOf? entry = none ↔ ∀ mount, ¬ GivesMount entry mount := by
  simp only [← mountOf?_eq_some_iff, Option.eq_none_iff_forall_ne_some, ne_eq]

/-- The mounts that entries have are what they give. -/
theorem given_filterMap (entries : List (List Char)) :
    Given entries (entries.filterMap mountOf?) := by
  induction entries with
  | nil => exact .nil
  | cons entry entries ih =>
    cases h : mountOf? entry with
    | none =>
      rw [List.filterMap_cons_none h]
      exact .malformed (mountOf?_eq_none_iff.1 h) ih
    | some mount =>
      rw [List.filterMap_cons_some h]
      exact .mount (mountOf?_eq_some_iff.1 h) ih

/-- Nothing else is given by them. -/
theorem Given.eq (h : Given entries mounts) : mounts = entries.filterMap mountOf? := by
  induction h with
  | nil => rfl
  | mount h _ ih => rw [List.filterMap_cons_some (mountOf?_eq_some_iff.2 h), ih]
  | malformed h _ ih => rw [List.filterMap_cons_none (mountOf?_eq_none_iff.2 h), ih]

/-- A blank entry gives nothing, since an equals sign is not blank. -/
theorem mountOf?_of_blank (h : Text.allBlank entry = true) : mountOf? entry = none := by
  rw [mountOf?_eq_none_iff]
  rintro mount ⟨id, root, -, rfl, -⟩
  have hsign : Text.isBlank '=' = true := by
    rw [Text.allBlank, List.all_eq_true] at h
    exact h '=' (by simp)
  exact absurd hsign (by decide)

/-- The mounts in a text are those of its entries, which stand between commas. -/
theorem mountEntries_eq (text : String) :
    mountEntries text = (Text.split ',' text.toList).filterMap mountOf? := by
  unfold mountEntries mountOf?
  congr 1
  funext entry
  cases parseLocalMount (String.ofList entry) <;> rfl

/-- So they are what the entries give. -/
theorem given_mountEntries (text : String) :
    Given (Text.split ',' text.toList) (mountEntries text) := by
  rw [mountEntries_eq]
  exact given_filterMap _

/-- Entries as one text, with commas between them. -/
def listed (entries : List (List Char)) : String := String.ofList (Text.joinWith ',' entries)

/-- They are read one by one, also when there are none: the empty text is an entry that gives
nothing. -/
theorem mountEntries_listed (h : ∀ entry ∈ entries, ',' ∉ entry) :
    mountEntries (listed entries) = entries.filterMap mountOf? := by
  rw [mountEntries_eq, listed, String.toList_ofList]
  by_cases hnil : entries = []
  · rw [hnil]
    rfl
  · rw [Text.split_joinWith hnil h]

/-! ## Mounts over mounts -/

/-- Some mounts have been put over others: each file system that is named has the directory that is
named for it last, the others have theirs; those that were there keep their places, and new ones
follow in the order in which they are first named. -/
structure Overlaid (old : OrderedMap Path) (mounts : List (String × Path))
    (new : OrderedMap Path) : Prop where
  named : ∀ before mount after, mounts = before ++ mount :: after →
    mount.1 ∉ after.map Prod.fst → new.get? mount.1 = some mount.2
  others : ∀ id, id ∉ mounts.map Prod.fst → new.get? id = old.get? id
  places : new.keys =
    old.keys ++ ((mounts.map Prod.fst).filter fun id => id ∉ old.keys).eraseDups

/-- Mounts that are inserted one by one lie over those that were there. -/
theorem overlaid_insertAll (old : OrderedMap Path) (mounts : List (String × Path)) :
    Overlaid old mounts (old.insertAll mounts) := by
  constructor
  case named =>
    rintro before ⟨id, root⟩ after rfl hlast
    have habsent : after.reverse.lookup id = none := by
      rw [List.lookup_eq_none_iff]
      intro e he
      have hname : e.1 ∈ after.map Prod.fst := List.mem_map_of_mem (List.mem_reverse.1 he)
      have hne : id ≠ e.1 := fun hid => hlast (hid ▸ hname)
      simpa using hne
    rw [OrderedMap.get?_insertAll, List.reverse_append, List.reverse_cons, List.append_assoc,
      List.lookup_append, habsent, Option.none_or]
    simp
  case others => exact fun id hid => OrderedMap.get?_insertAll_of_notMem hid
  case places => exact OrderedMap.keys_insertAll old mounts

/-! ## The threshold -/

/-- The number that digits stand for. -/
def valueOf (digits : List Char) : Nat :=
  Nat.ofDigits 10 (digits.reverse.map fun d => d.toNat - 48)

/-- A text denotes a number when it is the number in decimal digits, with or without a plus sign
before them. -/
def Denotes (text : String) (n : UInt64) : Prop :=
  ∃ digits, (text.toList = digits ∨ text.toList = '+' :: digits) ∧ digits ≠ [] ∧
    (∀ d ∈ digits, d.isDigit = true) ∧ valueOf digits = n.toNat

/-- A text without the plus sign that it may begin with. -/
def withoutPlus : List Char → List Char
  | '+' :: rest => rest
  | cs => cs

/-- It is the text itself, or what follows the sign. -/
theorem withoutPlus_cases (cs : List Char) : cs = withoutPlus cs ∨ cs = '+' :: withoutPlus cs := by
  unfold withoutPlus
  split
  · exact .inr rfl
  · exact .inl rfl

/-- Digits are left once the sign is taken away. -/
theorem withoutPlus_eq {cs digits : List Char} (h : cs = digits ∨ cs = '+' :: digits)
    (hdigits : ∀ d ∈ digits, d.isDigit = true) : withoutPlus cs = digits := by
  rcases h with rfl | rfl
  · unfold withoutPlus
    split
    · simp [Char.isDigit] at hdigits
    · rfl
  · rfl

/-- Digits that are added up from the front give the number that they stand for. -/
theorem foldl_digits (digits : List Char) :
    digits.foldl (fun n d => n * 10 + (d.toNat - 48)) 0 = valueOf digits := by
  -- from the back, for the digit that the fold reads last counts least
  induction digits using List.reverseRecOn with
  | nil => rfl
  | append_singleton digits d ih =>
    unfold valueOf at ih ⊢
    rw [List.foldl_append, ih, List.reverse_append, List.reverse_singleton, List.singleton_append,
      List.map_cons, Nat.ofDigits_cons, List.foldl_cons, List.foldl_nil]
    omega

/-- How a threshold is parsed, with the number that its digits stand for. -/
theorem parseThreshold_eq (text : String) : parseThreshold text =
    if withoutPlus text.toList = [] ∨ !(withoutPlus text.toList).all Char.isDigit then none
    else if valueOf (withoutPlus text.toList) < UInt64.size then
      some (UInt64.ofNat (valueOf (withoutPlus text.toList)))
    else none := by
  rw [← foldl_digits]
  rfl

/-- A threshold is parsed exactly when the text denotes a number, and as that number. -/
theorem parseThreshold_eq_some_iff : parseThreshold text = some n ↔ Denotes text n := by
  rw [parseThreshold_eq]
  constructor
  · intro h
    split at h
    · cases h
    · next hform =>
      rw [not_or] at hform
      split at h
      · next hsize =>
        cases h
        refine ⟨_, withoutPlus_cases _, hform.1, by simpa using hform.2, ?_⟩
        exact (UInt64.toNat_ofNat_of_lt' hsize).symm
      · cases h
  · rintro ⟨digits, htext, hne, hdigits, hvalue⟩
    have hsize : valueOf digits < UInt64.size := hvalue ▸ n.toNat_lt_size
    rw [withoutPlus_eq htext hdigits, if_neg (by simpa [hne] using hdigits), if_pos hsize]
    exact congrArg some ((congrArg UInt64.ofNat hvalue).trans (UInt64.ofNat_toNat ..))

/-! ## All variables -/

/-- The surroundings with the list of mounts replaced. -/
def withMounts (setting : String → Option String) (list : Option String) :
    String → Option String :=
  Function.update setting "EFS_LOCAL_MOUNTS" list

/-- A list of mounts changes nothing but the mounts. -/
theorem override_withMounts (setting : String → Option String) (text : String) (c : Config) :
    override (withMounts setting (some text)) c =
      { override (withMounts setting none) c with
        mount := { c.mount with
          localMounts := c.mount.localMounts.insertAll (mountEntries text) } } := by
  simp [override, addLocalMounts, withMounts]

/-- Without a list of mounts, the other settings are all that changes. -/
theorem override_withoutMounts (setting : String → Option String) (c : Config) :
    override (withMounts setting none) c =
      { c with
        envBase := (override setting c).envBase
        region := (override setting c).region
        fileThreshold := (override setting c).fileThreshold } := by
  simp [override, addLocalMounts, withMounts]

/-- Overriding a second time changes nothing. -/
theorem override_again (setting : String → Option String) (c : Config) :
    override setting (override setting c) = override setting c := by
  unfold override addLocalMounts
  dsimp only
  rw [OrderedMap.insertAll_again]
  cases setting "ENV_BASE" <;> cases setting "AWS_REGION" <;> cases setting "AWS_DEFAULT_REGION" <;>
    cases (setting "ENV_FILE_THRESHOLD_BYTES").bind parseThreshold <;> rfl

/-- Entries that give nothing may be put into a list, or taken out of it, wherever they stand. -/
theorem mountEntries_listed_append {before after : List (List Char)}
    (hcommas : ∀ piece ∈ before ++ entry :: after, ',' ∉ piece)
    (hnothing : Text.allBlank entry = true ∨ ∀ mount, ¬ GivesMount entry mount) :
    mountEntries (listed (before ++ entry :: after)) = mountEntries (listed (before ++ after)) := by
  have hentry : mountOf? entry = none := by
    rcases hnothing with hblank | hmalformed
    · exact mountOf?_of_blank hblank
    · exact mountOf?_eq_none_iff.2 hmalformed
  have hcommas' : ∀ piece ∈ before ++ after, ',' ∉ piece := by
    intro piece hpiece
    refine hcommas piece ?_
    rw [List.mem_append] at hpiece ⊢
    exact hpiece.imp_right (List.mem_cons_of_mem _)
  rw [mountEntries_listed hcommas, mountEntries_listed hcommas', List.filterMap_append,
    List.filterMap_append, List.filterMap_cons_none hentry]

/-- Overriding a second time changes nothing. Entries that are blank or give no mount do not matter,
wherever they stand in the list; what the others give is put over the mounts that are there, and
decides alone. The list changes nothing but the mounts, and the other variables nothing but the
environment, the region and the threshold; the threshold becomes the number that is denoted, and
stays if none is. -/
theorem override_settles (setting : String → Option String) (c : Config) :
    override setting (override setting c) = override setting c ∧
    (∀ before entry after, (∀ piece ∈ before ++ entry :: after, ',' ∉ piece) →
      (Text.allBlank entry = true ∨ ∀ mount, ¬ GivesMount entry mount) →
      override (withMounts setting (some (listed (before ++ entry :: after)))) c =
        override (withMounts setting (some (listed (before ++ after)))) c) ∧
    (∀ text text' mounts, Given (Text.split ',' text.toList) mounts →
      Given (Text.split ',' text'.toList) mounts →
      override (withMounts setting (some text)) c = override (withMounts setting (some text')) c) ∧
    (∀ text, ∃ mounts localMounts, Given (Text.split ',' text.toList) mounts ∧
      Overlaid c.mount.localMounts mounts localMounts ∧
      override (withMounts setting (some text)) c =
        { override (withMounts setting none) c with
          mount := { c.mount with localMounts := localMounts } }) ∧
    (∃ envBase region fileThreshold, override (withMounts setting none) c =
      { c with envBase := envBase, region := region, fileThreshold := fileThreshold }) ∧
    ∀ text, setting "ENV_FILE_THRESHOLD_BYTES" = some text →
      (∀ n, Denotes text n → (override setting c).fileThreshold = n) ∧
      ((∀ n, ¬ Denotes text n) → (override setting c).fileThreshold = c.fileThreshold) := by
  refine ⟨override_again setting c, ?inserted, ?decided, ?overlaid,
    ⟨_, _, _, override_withoutMounts setting c⟩, ?threshold⟩
  case inserted =>
    intro before entry after hcommas hnothing
    rw [override_withMounts, override_withMounts, mountEntries_listed_append hcommas hnothing]
  case decided =>
    intro text text' mounts h h'
    rw [override_withMounts, override_withMounts, mountEntries_eq, mountEntries_eq, ← h.eq, ← h'.eq]
  case overlaid =>
    intro text
    exact ⟨mountEntries text, _, given_mountEntries text, overlaid_insertAll _ _,
      override_withMounts setting text c⟩
  case threshold =>
    intro text htext
    have hthreshold : (override setting c).fileThreshold =
        (parseThreshold text).getD c.fileThreshold := by
      simp [override, addLocalMounts, htext]
    rw [hthreshold]
    constructor
    · intro n hn
      rw [parseThreshold_eq_some_iff.2 hn, Option.getD_some]
    · intro hnone
      have hunread : parseThreshold text = none := by
        rw [Option.eq_none_iff_forall_ne_some]
        exact fun n hn => hnone n (parseThreshold_eq_some_iff.1 hn)
      rw [hunread, Option.getD_none]

/-- Settings with two mounts. -/
def mountedConfig : Config :=
  { standard with
    mount := { standard.mount with
      localMounts := OrderedMap.ofList [("fs-1", ⟨"/old"⟩), ("fs-9", ⟨"/kept"⟩)] } }

/-- Surroundings that say nothing but a threshold. -/
def onlyThreshold (text : String) : String → Option String :=
  Function.update (fun _ => none) "ENV_FILE_THRESHOLD_BYTES" (some text)

/-- A list in which a file system is named twice and some entries give nothing: the last directory
counts, in the place that the file system had, and those that are new follow. -/
theorem override_settles_of_sample :
    let setting := onlyThreshold "+0512"
    let before := [" fs-2 = /b ".toList, "fs-1=/x".toList]
    let after := [" ".toList, "fs-3=/c=d".toList, "fs-1 =/y".toList]
    let mounts : List (String × Path) :=
      [("fs-2", ⟨"/b"⟩), ("fs-1", ⟨"/x"⟩), ("fs-3", ⟨"/c=d"⟩), ("fs-1", ⟨"/y"⟩)]
    let run := override (withMounts setting (some (listed (before ++ after)))) mountedConfig
    (∀ piece ∈ before ++ "fs-4=".toList :: after, ',' ∉ piece) ∧
    (∀ mount, ¬ GivesMount "fs-4=".toList mount) ∧
    override (withMounts setting (some (listed (before ++ "fs-4=".toList :: after)))) mountedConfig =
      run ∧
    Given (Text.split ',' (listed (before ++ after)).toList) mounts ∧
    Given (Text.split ',' "fs-2=/b,,fs-1=/x,fs-3= /c=d,fs-1=/y".toList) mounts ∧
    override (withMounts setting (some "fs-2=/b,,fs-1=/x,fs-3= /c=d,fs-1=/y")) mountedConfig = run ∧
    run.mount.localMounts.entries =
      [("fs-1", ⟨"/y"⟩), ("fs-9", ⟨"/kept"⟩), ("fs-2", ⟨"/b"⟩), ("fs-3", ⟨"/c=d"⟩)] ∧
    Denotes "+0512" 512 ∧ (override setting mountedConfig).fileThreshold = 512 ∧
    (∀ n, ¬ Denotes "512 B" n) ∧
    (override (onlyThreshold "512 B") mountedConfig).fileThreshold = mountedConfig.fileThreshold := by
  intro setting before after mounts run
  have hcommas : ∀ piece ∈ before ++ "fs-4=".toList :: after, ',' ∉ piece := by decide
  have hmalformed : ∀ mount, ¬ GivesMount "fs-4=".toList mount :=
    mountOf?_eq_none_iff.1 (by decide)
  have hlist : mountEntries (listed (before ++ after)) = mounts := by decide
  have hother : mountEntries "fs-2=/b,,fs-1=/x,fs-3= /c=d,fs-1=/y" = mounts := by decide
  have hgiven := given_mountEntries (listed (before ++ after))
  have hgiven' := given_mountEntries "fs-2=/b,,fs-1=/x,fs-3= /c=d,fs-1=/y"
  rw [hlist] at hgiven
  rw [hother] at hgiven'
  have hdenotes : Denotes "+0512" 512 := parseThreshold_eq_some_iff.1 (by decide)
  have hnumber : ∀ n, ¬ Denotes "512 B" n := by
    intro n hn
    have hunread : parseThreshold "512 B" = none := by decide
    rw [parseThreshold_eq_some_iff.2 hn] at hunread
    cases hunread
  have hset : ∀ text, onlyThreshold text "ENV_FILE_THRESHOLD_BYTES" = some text :=
    fun text => Function.update_self ..
  have hentries : run.mount.localMounts.entries =
      [("fs-1", ⟨"/y"⟩), ("fs-9", ⟨"/kept"⟩), ("fs-2", ⟨"/b"⟩), ("fs-3", ⟨"/c=d"⟩)] := by
    have hrun : run = _ := override_withMounts setting (listed (before ++ after)) mountedConfig
    rw [hrun, hlist]
    decide
  obtain ⟨-, hinserted, hdecided, -, -, hthreshold⟩ := override_settles setting mountedConfig
  obtain ⟨-, -, -, -, -, hthreshold'⟩ := override_settles (onlyThreshold "512 B") mountedConfig
  exact ⟨hcommas, hmalformed, hinserted _ _ _ hcommas (.inr hmalformed), hgiven, hgiven',
    hdecided _ _ _ hgiven' hgiven, hentries, hdenotes, (hthreshold _ (hset _)).1 _ hdenotes,
    hnumber, (hthreshold' _ (hset _)).2 hnumber⟩

end Config

end JobStaging
