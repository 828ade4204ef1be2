import Constituency.Proofs.ExactWeights
import Constituency.Proofs.NormalForm.Units

/-!
# The rules of a unit label

Extracting words adds one rule for each unit label, behind the rules that had the same label at
their heads before. So a unit label stands for its word and for what it stood for already; it stands
for its word alone if it is new.
-/
namespace Constituency.Ruleset

variable {α : Type} {rules others : Ruleset α} {label word : String}

/-- The rules with a label at their heads. -/
def headedBy (rules : Ruleset α) (label : String) : Ruleset α :=
  rules.filter fun rule => rule.head = label

theorem mem_headedBy {rule : Rule α} :
    rule ∈ rules.headedBy label ↔ rule ∈ rules ∧ rule.head = label := by
  rw [headedBy, List.mem_filter, decide_eq_true_iff]

theorem headedBy_append :
    headedBy (rules ++ others) label = rules.headedBy label ++ others.headedBy label :=
  List.filter_append _ _

/-- A label that is not among the labels of the rules is at no head. -/
theorem headedBy_eq_nil (h : label ∉ rules.nonterminals) : rules.headedBy label = [] := by
  refine List.filter_eq_nil_iff.mpr fun rule hr hhead => h (mem_nonterminals.mpr ?_)
  exact of_decide_eq_true hhead ▸ Has.head_mem_symbols ⟨rule, hr, rfl, rfl⟩

/-- Of the rules with one head, the first is left. -/
theorem headedBy_firsts (rules : Ruleset α) (label : String) :
    (firsts rules).headedBy label = (rules.headedBy label).head?.toList := by
  induction rules with
  | nil => rfl
  | cons first rest ih =>
    simp only [headedBy] at ih
    simp only [headedBy, firsts, List.filter_cons, List.filter_filter]
    by_cases hhead : first.head = label
    · have hnone : (firsts rest).filter (fun rule => decide (rule.head = label) &&
          decide (rule.head ≠ first.head)) = [] := by
        simp [hhead]
      rw [if_pos (decide_eq_true hhead), if_pos (decide_eq_true hhead), hnone]
      rfl
    · -- A rule with another head does not displace a rule with this one.
      have hkept : ∀ rule : Rule α, (decide (rule.head = label) &&
          decide (rule.head ≠ first.head)) = decide (rule.head = label) := by
        intro rule
        by_cases h : rule.head = label
        · simp [h, Ne.symm hhead]
        · simp [h]
      simp only [hhead, decide_false, Bool.false_eq_true, if_false, hkept]
      exact ih

theorem headedBy_map_lifted (rules : Ruleset α) (label : String) :
    headedBy (rules.map Rule.lifted) label = (rules.headedBy label).map Rule.lifted := by
  have hhead : (fun rule : Rule α => decide (rule.head = label)) ∘ Rule.lifted =
      fun rule => decide (rule.head = label) := by
    funext rule
    simp [head_lifted]
  rw [headedBy, List.filter_map, hhead, headedBy]

/-- The word at a place of a mixed rule gives way to its unit label. -/
theorem getElem?_body_lifted {rule : Rule α} (hmixed : rule.isMixed = true) {i : Nat}
    (hword : rule.body[i]? = some (.terminal word)) :
    rule.lifted.body[i]? = some (.nonterminal (unitLabel word)) := by
  rw [body_lifted, if_pos hmixed, List.getElem?_map, hword]
  rfl

variable [Weight α]

theorem eq_unitRule_of_mem_units {made : Rule α} (h : made ∈ rules.flatMap unitsOf)
    (hhead : made.head = unitLabel word) : ∃ language, made = unitRule language word := by
  obtain ⟨rule, -, hm⟩ := List.mem_flatMap.mp h
  obtain ⟨-, word', -, rfl⟩ := mem_unitsOf.mp hm
  obtain rfl := unitLabel_injective hhead
  exact ⟨rule.language, rfl⟩

/-- A word that needs a unit label gets one rule. -/
theorem headedBy_units (hneeds : rules.NeedsUnit word) :
    ∃ language, headedBy (firsts (rules.flatMap unitsOf)) (unitLabel word) =
      [unitRule language word] := by
  obtain ⟨rule, hr, hmixed, hword⟩ := hneeds
  have hmade : unitRule rule.language word ∈
      headedBy (rules.flatMap unitsOf) (unitLabel word) :=
    mem_headedBy.mpr
      ⟨List.mem_flatMap.mpr ⟨rule, hr, mem_unitsOf.mpr ⟨hmixed, word, hword, rfl⟩⟩, rfl⟩
  rw [headedBy_firsts]
  cases hunits : headedBy (rules.flatMap unitsOf) (unitLabel word) with
  | nil => rw [hunits] at hmade; cases hmade
  | cons first rest =>
    obtain ⟨hmem, hhead⟩ := mem_headedBy.mp (hunits ▸ List.mem_cons_self : first ∈ _)
    obtain ⟨language, rfl⟩ := eq_unitRule_of_mem_units hmem hhead
    exact ⟨language, rfl⟩

/-- The rule of a unit label comes behind the rules that had the label at their heads. -/
theorem headedBy_extractTerminals (hneeds : rules.NeedsUnit word) :
    ∃ language, rules.extractTerminals.headedBy (unitLabel word) =
      (rules.headedBy (unitLabel word)).map Rule.lifted ++ [unitRule language word] := by
  obtain ⟨language, hunits⟩ := headedBy_units hneeds
  exact ⟨language, by rw [extractTerminals, headedBy_append, headedBy_map_lifted, hunits]⟩

/-- A unit label yields its word, and what the rules yield that it had before. -/
theorem yields_unitLabel_iff (hneeds : rules.NeedsUnit word) {tokens : List String} :
    Yields rules.extractTerminals [.nonterminal (unitLabel word)] tokens ↔
      (∃ token, tokens = [token] ∧ Text.lowerCase word = Text.lowerCase token) ∨
        ∃ rule ∈ rules.headedBy (unitLabel word),
          Yields rules.extractTerminals rule.lifted.body tokens := by
  have hmatch : Yields rules.extractTerminals [.terminal word] tokens ↔
      ∃ token, tokens = [token] ∧ Text.lowerCase word = Text.lowerCase token := Yields.word_iff
  rw [Yields.label_iff, ← hmatch]
  constructor
  · rintro ⟨body, hrule, hbody⟩
    rcases has_extractTerminals_iff.mp hrule with ⟨rule, hr, hhead, rfl⟩ | ⟨word', -, hhead, rfl⟩
    · exact .inr ⟨rule, mem_headedBy.mpr ⟨hr, hhead⟩, hbody⟩
    · rw [unitLabel_injective hhead]
      exact .inl hbody
  · rintro (hbody | ⟨rule, hr, hbody⟩)
    · exact ⟨_, has_extractTerminals_iff.mpr (.inr ⟨word, hneeds, rfl, rfl⟩), hbody⟩
    · obtain ⟨hmem, hhead⟩ := mem_headedBy.mp hr
      exact ⟨_, has_extractTerminals_iff.mpr (.inl ⟨rule, hmem, hhead, rfl⟩), hbody⟩

/-- Every word beside other symbols gives way to a label that has one more rule than before, which
rewrites it to the word with weight one. If the label is new, this is its only rule and the word is
all that it yields. -/
theorem unitLabel_in_place_of_word {rule : Rule α} (hr : rule ∈ rules)
    (hmixed : rule.isMixed = true) {i : Nat} (hword : rule.body[i]? = some (.terminal word)) :
    rule.lifted ∈ rules.extractTerminals ∧
      rule.lifted.body[i]? = some (.nonterminal (unitLabel word)) ∧
      (∃ language, rules.extractTerminals.headedBy (unitLabel word) =
        (rules.headedBy (unitLabel word)).map Rule.lifted ++ [unitRule language word]) ∧
      (unitLabel word ∉ rules.nonterminals →
        (∃ language, rules.extractTerminals.headedBy (unitLabel word) =
          [unitRule language word]) ∧
        ∀ tokens, Yields rules.extractTerminals [.nonterminal (unitLabel word)] tokens ↔
          ∃ token, tokens = [token] ∧ Text.lowerCase word = Text.lowerCase token) := by
  have hneeds : rules.NeedsUnit word := ⟨rule, hr, hmixed, List.mem_of_getElem? hword⟩
  have hheaded := headedBy_extractTerminals hneeds
  refine ⟨List.mem_append_left _ (List.mem_map_of_mem hr), getElem?_body_lifted hmixed hword,
    hheaded, fun hnew => ⟨?_, fun tokens => ?_⟩⟩
  · obtain ⟨language, h⟩ := hheaded
    exact ⟨language, by rw [h, headedBy_eq_nil hnew, List.map_nil, List.nil_append]⟩
  · rw [yields_unitLabel_iff hneeds, headedBy_eq_nil hnew]
    simp

/-- A word between two labels, whose unit label is new. -/
def pairRules : Ruleset ℚ :=
  [{ head := "S", body := [.nonterminal "A", .terminal "and", .nonterminal "A"], weight := 1 },
    .lexical "A" "x" 1]

/-- A new unit label has one rule and yields its word alone. -/
theorem unitLabel_in_place_of_and :
    pairRules.extractTerminals.Has "S" [.nonterminal "A", .nonterminal "_and", .nonterminal "A"] ∧
      (∃ language, pairRules.extractTerminals.headedBy "_and" = [unitRule language "and"]) ∧
      ∀ tokens, Yields pairRules.extractTerminals [.nonterminal "_and"] tokens ↔
        ∃ token, tokens = [token] ∧ Text.lowerCase "and" = Text.lowerCase token := by
  have hword : [Symbol.nonterminal "A", .terminal "and", .nonterminal "A"][1]? =
      some (.terminal "and") := rfl
  have hnew : unitLabel "and" ∉ pairRules.nonterminals := by decide +kernel
  obtain ⟨hlifted, -, -, halone⟩ := unitLabel_in_place_of_word
    (List.mem_cons_self : _ ∈ pairRules) (by decide +kernel) hword
  exact ⟨⟨_, hlifted, by decide +kernel, by decide +kernel⟩, halone hnew⟩

/-- A word beside a label, and a rule whose head is the unit label of the word. -/
def takenUnitRules : Ruleset ℚ :=
  [{ head := "S", body := [.terminal "of", .nonterminal "NP"], weight := 1 },
    .lexical "_of" "foo" 1, .lexical "NP" "it" 1]

/-- A unit label that the rules already have keeps what it stands for, beside its word. -/
theorem unitLabel_taken :
    takenUnitRules.validate .positiveProbabilities = .ok () ∧
      "_of" ∈ takenUnitRules.nonterminals ∧
      takenUnitRules.extractTerminals =
        [.binary "S" "_of" "NP" 1, .lexical "_of" "foo" 1, .lexical "NP" "it" 1,
          .lexical "_of" "of" 1] ∧
      (¬ ∃ language, takenUnitRules.extractTerminals.headedBy (unitLabel "of") =
        [unitRule language "of"]) ∧
      Yields takenUnitRules.extractTerminals [.nonterminal (unitLabel "of")] ["foo"] ∧
      Text.lowerCase "of" ≠ Text.lowerCase "foo" := by
  have hrules : takenUnitRules.extractTerminals =
      [.binary "S" "_of" "NP" 1, .lexical "_of" "foo" 1, .lexical "NP" "it" 1,
        .lexical "_of" "of" 1] := by decide +kernel
  have htwo : (takenUnitRules.extractTerminals.headedBy (unitLabel "of")).length = 2 := by
    decide +kernel
  have hfoo : takenUnitRules.extractTerminals.Has (unitLabel "of") [.terminal "foo"] := by
    decide +kernel
  refine ⟨validate_eq_ok_iff.mpr (by decide +kernel), by decide +kernel, hrules, ?_,
    Yields.label_iff.mpr ⟨_, hfoo, .word rfl .nil⟩, by decide +kernel⟩
  rintro ⟨language, hone⟩
  rw [hone] at htwo
  cases htwo

end Constituency.Ruleset
