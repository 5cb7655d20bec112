import JobStaging.Proofs.Wire.Request
import JobStaging.Proofs.Wire.Roles
import Mathlib.Data.List.DropRight
import Mathlib.Data.List.TakeWhile

/-!
# How a request spells its strategy

Before a request is read its strategy is looked up by what the request says for it, without the
blanks around it and in capitals, and is given the name that it goes by. A request that says
something else there is refused for that, whatever else is wrong with it (`Surroundings` is what may
stand around the text). From then on the text is gone: a request is read alike however it spells its
strategy, and every other fault is told as one of the document, also where a location in it is
rejected. The main statement is `strategy_comes_first`.
-/

set_option autoImplicit false

namespace JobStaging

namespace Text

variable {before word after cs : List Char}

/-! ## Blanks around a word -/

/-- What trimming takes away is blank. -/
theorem exists_trim (cs : List Char) : ∃ before after, cs = before ++ trim cs ++ after ∧
    (∀ c ∈ before, isBlank c = true) ∧ ∀ c ∈ after, isBlank c = true := by
  have hback : trim cs ++ (cs.dropWhile isBlank).rtakeWhile isBlank = cs.dropWhile isBlank :=
    List.rdropWhile_append_rtakeWhile
  refine ⟨cs.takeWhile isBlank, (cs.dropWhile isBlank).rtakeWhile isBlank, ?_, ?_, ?_⟩
  · rw [List.append_assoc, hback, List.takeWhile_append_dropWhile]
  · exact fun c hc => List.mem_takeWhile_imp hc
  · exact fun c hc => List.mem_rtakeWhile_imp hc

/-- Blanks are taken away up to the first character of a word. -/
theorem dropWhile_blank_append (hbefore : ∀ c ∈ before, isBlank c = true)
    (hword : ∀ c ∈ word, isBlank c = false) (hne : word ≠ []) :
    (before ++ (word ++ after)).dropWhile isBlank = word ++ after := by
  obtain ⟨w, rest, rfl⟩ := List.exists_cons_of_ne_nil hne
  rw [List.dropWhile_append_of_pos hbefore, List.cons_append,
    List.dropWhile_cons_of_neg (by simpa using hword w List.mem_cons_self)]

/-- A word without blanks is what is left of it with blanks around it. -/
theorem trim_append (hbefore : ∀ c ∈ before, isBlank c = true)
    (hafter : ∀ c ∈ after, isBlank c = true) (hword : ∀ c ∈ word, isBlank c = false)
    (hne : word ≠ []) : trim (before ++ word ++ after) = word := by
  have hback : (after.reverse ++ (word.reverse ++ [])).dropWhile isBlank = word.reverse ++ [] := by
    apply dropWhile_blank_append
    · exact fun c hc => hafter c (List.mem_reverse.1 hc)
    · exact fun c hc => hword c (List.mem_reverse.1 hc)
    · rwa [ne_eq, List.reverse_eq_nil_iff]
  rw [List.append_nil] at hback
  unfold trim
  rw [List.append_assoc, dropWhile_blank_append hbefore hword hne, List.reverse_append, hback,
    List.reverse_reverse]

/-- No blank is a small letter. -/
theorem toUpper_of_isBlank {c : Char} (h : isBlank c = true) : c.toUpper = c := by
  unfold Char.toUpper
  split
  · next hsmall =>
    have hlow : 97 ≤ c.toNat := hsmall.1
    have hhigh : c.toNat ≤ 122 := hsmall.2
    simp [isBlank, blankRanges] at h
    omega
  · rfl

end Text

namespace Strategy

variable {s : Strategy} {text : String} {cause : Rejection}

/-! ## Spellings -/

/-- A text spells a strategy when it is the strategy's name in any mixture of capitals and small
letters, with any blanks around it. -/
def Spells (s : Strategy) (text : String) : Prop :=
  ∃ before word after, text.toList = before ++ word ++ after ∧
    (∀ c ∈ before, Text.isBlank c = true) ∧ (∀ c ∈ after, Text.isBlank c = true) ∧
    word.map Char.toUpper = s.name.toList

/-- A word that spells a strategy has no blanks in it. -/
theorem isBlank_of_mem_word {word : List Char} (h : word.map Char.toUpper = s.name.toList) :
    ∀ c ∈ word, Text.isBlank c = false := by
  intro c hc
  by_contra hblank
  rw [Bool.not_eq_false] at hblank
  -- a blank is its own capital, so it would be in the name
  have hmem : c ∈ s.name.toList := by
    rw [← h, ← Text.toUpper_of_isBlank hblank]
    exact List.mem_map_of_mem hc
  have hname : s.name.toList.any Text.isBlank = false := by cases s <;> decide
  exact List.any_eq_false.1 hname c hmem hblank

/-- A text spells a strategy when the strategy's name is left of it, trimmed and in capitals. -/
theorem spells_iff : s.Spells text ↔ normalized text = s.name := by
  have hchars : normalized text = s.name ↔
      (Text.trim text.toList).map Char.toUpper = s.name.toList := by
    unfold normalized
    rw [← String.toList_inj, String.toList_ofList]
  rw [hchars]
  constructor
  · rintro ⟨before, word, after, htext, hbefore, hafter, hword⟩
    have hne : word ≠ [] := by
      rintro rfl
      cases s <;> simp [name] at hword
    rw [htext, Text.trim_append hbefore hafter (isBlank_of_mem_word hword) hne, hword]
  · intro h
    obtain ⟨before, after, htext, hbefore, hafter⟩ := Text.exists_trim text.toList
    exact ⟨before, _, after, htext, hbefore, hafter, h⟩

/-- Strategies are looked up by their names. -/
theorem lookup_names_eq_some_iff {word : String} : names.lookup word = some s ↔ word = s.name := by
  by_cases hrandom : word = "RANDOM"
  · subst hrandom
    cases s <;> decide
  · by_cases hleast : word = "LEAST_UTILIZED"
    · subst hleast
      cases s <;> decide
    · cases s <;>
        simp [names, name, List.lookup_cons, beq_false_of_ne hrandom, beq_false_of_ne hleast, hrandom,
          hleast]

/-- A strategy is read from the texts that spell it, and from no others. -/
theorem parse_eq_ok_iff : parse text = .ok s ↔ s.Spells text := by
  rw [spells_iff, ← lookup_names_eq_some_iff]
  unfold parse
  cases names.lookup (normalized text) <;> simp

/-- A text that spells no strategy is refused, and quoted as it was compared. -/
theorem parse_eq_error_iff : parse text = .error cause ↔
    (∀ s : Strategy, ¬ s.Spells text) ∧ cause = .unknownStrategy (normalized text) := by
  simp only [← parse_eq_ok_iff]
  constructor
  · intro h
    refine ⟨fun s hs => ?_, ?_⟩
    · rw [h] at hs
      cases hs
    · unfold parse at h
      split at h <;> cases h
      rfl
  · rintro ⟨hnone, rfl⟩
    unfold parse at hnone ⊢
    split
    · next s hs =>
      rw [hs] at hnone
      exact absurd rfl (hnone s)
    · rfl

end Strategy

namespace Request

variable {j : Json} {text : String} {s : Strategy} {cause : Rejection} {r : Request}

/-! ## Where a request says its strategy -/

/-- What stands around the text of the strategy: the other members of the request and those of its
placement. Of members with one name the first one counts. -/
structure Surroundings where
  before : List (String × Json)
  earlier : List (String × Json)
  later : List (String × Json)
  after : List (String × Json)
  before_ne : ∀ e ∈ before, e.1 ≠ "file_system_configurations"
  earlier_ne : ∀ e ∈ earlier, e.1 ≠ "selection_strategy"

namespace Surroundings

/-- The placement with a text for the strategy. -/
def placement (around : Surroundings) (text : String) : Json :=
  .object (around.earlier ++ ("selection_strategy", .string text) :: around.later)

/-- The request with a text for the strategy. -/
def request (around : Surroundings) (text : String) : Json :=
  .object (around.before ++ ("file_system_configurations", around.placement text) :: around.after)

variable (around : Surroundings)

/-- The placement is found in the request. -/
theorem member?_placement : (around.request text).member? "file_system_configurations" =
    some (around.placement text) := by
  refine List.lookup_eq_some_iff.2 ⟨_, _, rfl, fun e he => ?_⟩
  exact bne_iff_ne.2 (around.before_ne e he).symm

/-- The text of the strategy is found in the request. -/
theorem strategyText?_request : strategyText? (around.request text) = some text := by
  have hmember : (around.placement text).member? "selection_strategy" = some (.string text) := by
    refine List.lookup_eq_some_iff.2 ⟨_, _, rfl, fun e he => ?_⟩
    exact bne_iff_ne.2 (around.earlier_ne e he).symm
  unfold strategyText?
  rw [around.member?_placement]
  show ((around.placement text).member? "selection_strategy" >>= _) = _
  rw [hmember]
  rfl

/-- Setting the strategy replaces its text and nothing else. -/
theorem setStrategy_request : setStrategy s (around.request text) = around.request s.name := by
  unfold setStrategy
  rw [around.member?_placement]
  dsimp only
  have hplacement : (around.placement text).setMember "selection_strategy" (.string s.name) =
      around.placement s.name :=
    congrArg Json.object (OrderedMap.put_append_cons around.earlier_ne around.later)
  rw [hplacement]
  exact congrArg Json.object (OrderedMap.put_append_cons around.before_ne around.after)

/-- The strategy of a request is put under its name, or is refused. -/
theorem normalized_request :
    normalized (around.request text) = (Strategy.parse text).map fun s => around.request s.name := by
  unfold normalized
  rw [around.strategyText?_request]
  dsimp only
  congr 1
  funext s
  exact around.setStrategy_request

end Surroundings

/-- A member that is found stands in an object, and none before it has its name. -/
theorem exists_object_of_member? {name : String} {value : Json} (h : j.member? name = some value) :
    ∃ before after, j = .object (before ++ (name, value) :: after) ∧ ∀ e ∈ before, e.1 ≠ name := by
  cases j with
  | object members =>
    obtain ⟨before, after, hmembers, hbefore⟩ := List.lookup_eq_some_iff.1 h
    exact ⟨before, after, congrArg Json.object hmembers,
      fun e he => (bne_iff_ne.1 (hbefore e he)).symm⟩
  | _ => cases h

/-- A text is found exactly in the requests that have it for their strategy. -/
theorem strategyText?_eq_some_iff :
    strategyText? j = some text ↔ ∃ around : Surroundings, j = around.request text := by
  constructor
  · intro h
    obtain ⟨placement, hplacement, h⟩ := Option.bind_eq_some_iff.1 h
    obtain ⟨value, hvalue, h⟩ := Option.bind_eq_some_iff.1 h
    split at h
    · cases h
      obtain ⟨before, after, rfl, hbefore⟩ := exists_object_of_member? hplacement
      obtain ⟨earlier, later, rfl, hearlier⟩ := exists_object_of_member? hvalue
      exact ⟨⟨before, earlier, later, after, hbefore, hearlier⟩, rfl⟩
    · cases h
  · rintro ⟨around, rfl⟩
    exact around.strategyText?_request

/-! ## What is told first -/

/-- Looking up the strategy fails when the text that is there spells none. -/
theorem normalized_eq_error_iff : normalized j = .error cause ↔
    ∃ (around : Surroundings) (text : String), j = around.request text ∧
      (∀ s : Strategy, ¬ s.Spells text) ∧ cause = .unknownStrategy (Strategy.normalized text) := by
  constructor
  · intro h
    unfold normalized at h
    split at h
    · next text htext =>
      obtain ⟨around, rfl⟩ := strategyText?_eq_some_iff.1 htext
      exact ⟨around, text, rfl, Strategy.parse_eq_error_iff.1 (Fallible.map_eq_error_iff.1 h)⟩
    · cases h
  · rintro ⟨around, text, rfl, htext⟩
    rw [around.normalized_request, Strategy.parse_eq_error_iff.2 htext]
    rfl

/-- A request is refused as invalid when its strategy is, and only then. -/
theorem ofJson_eq_invalidInput_iff :
    ofJson j = .error (.invalidInput cause) ↔ normalized j = .error cause := by
  unfold ofJson
  rw [Fallible.bind_eq_error_iff]
  constructor
  · rintro (h | ⟨normal, -, h⟩)
    · obtain ⟨cause', hnormal, hcause⟩ := Fallible.mapError_eq_error_iff.1 h
      cases hcause
      exact hnormal
    · obtain ⟨fault, -, hfault⟩ := Fallible.mapError_eq_error_iff.1 h
      cases hfault
  · intro h
    exact .inl (Fallible.mapError_eq_error_iff.2 ⟨cause, h, rfl⟩)

/-- What is no fault of the strategy is one of the document. -/
theorem ofJson_cases (h : ∀ cause, normalized j ≠ .error cause) :
    (∃ r, ofJson j = .ok r) ∨ ∃ fault, ofJson j = .error (.serialization fault) := by
  cases hread : ofJson j with
  | ok r => exact .inl ⟨r, rfl⟩
  | error e =>
    rcases Fallible.bind_eq_error_iff.1 hread with hfirst | ⟨normal, -, hsecond⟩
    · obtain ⟨cause, hcause, -⟩ := Fallible.mapError_eq_error_iff.1 hfirst
      exact absurd hcause (h cause)
    · obtain ⟨fault, -, rfl⟩ := Fallible.mapError_eq_error_iff.1 hsecond
      exact .inr ⟨fault, rfl⟩

/-- A request with a strategy is read as if it gave the strategy its name. -/
theorem ofJson_request (around : Surroundings) (h : s.Spells text) :
    ofJson (around.request text) =
      (record.decode (around.request s.name)).mapError .serialization := by
  unfold ofJson
  rw [around.normalized_request, Strategy.parse_eq_ok_iff.2 h]
  rfl

/-- A request that is read has the strategy that was spelled. -/
theorem strategy_of_ofJson (around : Surroundings) (h : s.Spells text)
    (hread : ofJson (around.request text) = .ok r) : r.placement.strategy = s := by
  rw [ofJson_request around h, Fallible.mapError_eq_ok_iff] at hread
  -- a record fills its fields in order, so the last one comes off first
  obtain ⟨_, handling, hplaced, -, rfl⟩ :=
    Record.both_eq_ok_iff.1 (Fallible.mapError_eq_ok_iff.1 hread)
  obtain ⟨_, placement, hexecution, hfield, rfl⟩ := Record.both_eq_ok_iff.1 hplaced
  obtain ⟨execution, -, rfl⟩ := Fallible.map_eq_ok_iff.1 hexecution
  have hplacement : Placement.record.decode (around.placement s.name) = .ok placement :=
    Record.decode_of_fieldOr List.mem_cons_self hfield
  obtain ⟨-, -, -, hstrategy⟩ := Placement.decode_object_iff.1 hplacement
  have hname := Record.decode_of_fieldOr List.mem_cons_self hstrategy
  rw [Strategy.decode_name] at hname
  exact (Except.ok.inj hname).symm

/-- A request is refused for its input exactly when it has a text for the strategy and the text
spells none, and then that is what it is refused for, whatever stands around the text. Every other
request is read or is refused as a document. How a strategy is spelled makes no difference to what
is read or told, and what is read has the strategy that was spelled. -/
theorem strategy_comes_first :
    (∀ j cause, ofJson j = .error (.invalidInput cause) ↔
      ∃ (around : Surroundings) (text : String), j = around.request text ∧
        (∀ s : Strategy, ¬ s.Spells text) ∧ cause = .unknownStrategy (Strategy.normalized text)) ∧
    (∀ j, (¬ ∃ (around : Surroundings) (text : String), j = around.request text ∧
        ∀ s : Strategy, ¬ s.Spells text) →
      (∃ r, ofJson j = .ok r) ∨ ∃ fault, ofJson j = .error (.serialization fault)) ∧
    ∀ (around : Surroundings) (s : Strategy) (text : String), s.Spells text →
      (∀ text', s.Spells text' → ofJson (around.request text') = ofJson (around.request text)) ∧
      ∀ r, ofJson (around.request text) = .ok r → r.placement.strategy = s := by
  refine ⟨?refused, ?otherwise, ?alike⟩
  case refused =>
    intro j cause
    rw [ofJson_eq_invalidInput_iff, normalized_eq_error_iff]
  case otherwise =>
    intro j hspelled
    apply ofJson_cases
    intro cause hcause
    obtain ⟨around, text, hj, hnone, -⟩ := normalized_eq_error_iff.1 hcause
    exact hspelled ⟨around, text, hj, hnone⟩
  case alike =>
    intro around s text h
    refine ⟨fun text' h' => ?_, fun r hread => strategy_of_ofJson around h hread⟩
    rw [ofJson_request around h, ofJson_request around h']

/-- Surroundings in which a strategy makes the request complete. -/
def sound : Surroundings where
  before := [("demand_execution", .object [("execution_image", .string "tool"),
    ("execution_id", .string "run-1")])]
  earlier := [("scratch", .array [.string "fs-2"]), ("shared", .array [.string "fs-1"])]
  later := []
  after := [("context_manager_configuration", .array [.bool true])]
  before_ne := by decide
  earlier_ne := by decide

/-- Surroundings in which nothing is as it should be. -/
def broken : Surroundings where
  before := [("demand_execution", .number (.whole 5))]
  earlier := [("shared", .bool false)]
  later := [("tmp", .string "fs-1")]
  after := [("context_manager_configuration", .array [.null])]
  before_ne := by decide
  earlier_ne := by decide

/-- A word that is no strategy in a request where nothing else is right either, a number in place of
a strategy, and two spellings of a strategy. -/
theorem strategy_comes_first_of_samples :
    let numbered := Json.object [("file_system_configurations",
      .object [("selection_strategy", .number (.whole 3))])]
    (∀ s : Strategy, ¬ s.Spells "Biggest ") ∧
    ofJson (broken.request "Biggest ") = .error (.invalidInput (.unknownStrategy "BIGGEST")) ∧
    ((∃ r, ofJson numbered = .ok r) ∨ ∃ fault, ofJson numbered = .error (.serialization fault)) ∧
    Strategy.leastUtilized.Spells "\u00a0Least_Utilized\n" ∧
    ofJson (broken.request "least_utilized") = ofJson (broken.request "\u00a0Least_Utilized\n") ∧
    ∃ r, ofJson (sound.request "\u00a0Least_Utilized\n") = .ok r ∧
      r.placement.strategy = .leastUtilized := by
  intro numbered
  obtain ⟨hrefused, hotherwise, halike⟩ := strategy_comes_first
  have hnone : ∀ s : Strategy, ¬ s.Spells "Biggest " := by
    intro s
    rw [Strategy.spells_iff]
    cases s <;> decide
  have hnumbered : ¬ ∃ (around : Surroundings) (text : String), numbered = around.request text ∧
      ∀ s : Strategy, ¬ s.Spells text := by
    rintro ⟨around, text, hj, -⟩
    have htext : strategyText? numbered = some text := strategyText?_eq_some_iff.2 ⟨around, hj⟩
    cases htext
  have hsmall : Strategy.leastUtilized.Spells "least_utilized" := Strategy.spells_iff.2 (by decide)
  have hblank : Strategy.leastUtilized.Spells "\u00a0Least_Utilized\n" :=
    Strategy.spells_iff.2 (by decide)
  have hread : ∃ r, ofJson (sound.request "\u00a0Least_Utilized\n") = .ok r := ⟨_, rfl⟩
  obtain ⟨r, hr⟩ := hread
  exact ⟨hnone, (hrefused _ _).2 ⟨broken, _, rfl, hnone, by decide⟩, hotherwise _ hnumbered, hblank,
    (halike broken _ _ hblank).1 _ hsmall, r, hr, (halike sound _ _ hblank).2 r hr⟩

end Request

end JobStaging
