import Constituency.NormalForm.TerminalExtraction
import Constituency.Proofs.Language.Yields
import Constituency.Proofs.NormalForm.Names

/-!
# Unit labels

Every word beside other symbols gets a unit label, which one rule rewrites to it. As long as the
unit labels are new, a label that was there before has the same language afterwards.
-/
namespace Constituency.Ruleset

variable {α : Type} {rules : Ruleset α} {head label word : String} {body : List Symbol}

/-- Whether a word stands beside other symbols. -/
def NeedsUnit (rules : Ruleset α) (word : String) : Prop :=
  ∃ rule ∈ rules, rule.isMixed = true ∧ .terminal word ∈ rule.body

theorem NeedsUnit.mem_symbols (h : rules.NeedsUnit word) : .terminal word ∈ rules.symbols :=
  let ⟨rule, hr, _, hw⟩ := h
  Has.mem_symbols_of_mem ⟨rule, hr, rfl, rfl⟩ hw

/-- No label is the unit label of a word. -/
def UnitsNew (rules : Ruleset α) : Prop :=
  ∀ word label, .terminal word ∈ rules.symbols → .nonterminal label ∈ rules.symbols →
    label ≠ unitLabel word

/-- The first rules of all heads come from the list. -/
theorem mem_of_mem_firsts {rule : Rule α} (h : rule ∈ firsts rules) : rule ∈ rules := by
  induction rules with
  | nil => cases h
  | cons first rest ih =>
    rcases List.mem_cons.mp h with rfl | h
    · exact List.mem_cons_self
    · exact List.mem_cons_of_mem _ (ih (List.mem_filter.mp h).1)

/-- Every head has a first rule. -/
theorem exists_mem_firsts {rule : Rule α} (h : rule ∈ rules) :
    ∃ first ∈ firsts rules, first.head = rule.head := by
  induction rules with
  | nil => cases h
  | cons first rest ih =>
    by_cases hhead : first.head = rule.head
    · exact ⟨first, List.mem_cons_self, hhead⟩
    · rcases List.mem_cons.mp h with rfl | h
      · exact absurd rfl hhead
      · obtain ⟨other, ho, heq⟩ := ih h
        refine ⟨other, List.mem_cons_of_mem _ (List.mem_filter.mpr ⟨ho, ?_⟩), heq⟩
        rw [decide_eq_true_iff, heq]
        exact fun hh => hhead hh.symm

/-- No head has two first rules. -/
theorem pairwise_firsts (rules : Ruleset α) :
    (firsts rules).Pairwise fun rule other => rule.head ≠ other.head := by
  induction rules with
  | nil => exact List.Pairwise.nil
  | cons first rest ih =>
    refine List.pairwise_cons.mpr ⟨fun other ho => ?_, ih.filter _⟩
    have hne : other.head ≠ first.head := of_decide_eq_true (List.mem_filter.mp ho).2
    exact hne.symm

theorem head_lifted (rule : Rule α) : rule.lifted.head = rule.head := by
  rw [Rule.lifted]
  split <;> rfl

theorem weight_lifted (rule : Rule α) : rule.lifted.weight = rule.weight := by
  rw [Rule.lifted]
  split <;> rfl

theorem body_lifted (rule : Rule α) :
    rule.lifted.body = if rule.isMixed then rule.body.map Symbol.lifted else rule.body := by
  rw [Rule.lifted]
  split <;> rfl

/-- A body with two symbols has two labels afterwards. -/
theorem body_lifted_of_two {rule : Rule α} {first second : Symbol}
    (hbody : rule.body = [first, second]) :
    ∃ left right, rule.lifted.body = [.nonterminal left, .nonterminal right] := by
  have hlifted : ∀ s : Symbol, ∃ label, s.lifted = .nonterminal label := by
    intro s
    cases s <;> exact ⟨_, rfl⟩
  rw [body_lifted]
  split
  · obtain ⟨left, hl⟩ := hlifted first
    obtain ⟨right, hr⟩ := hlifted second
    exact ⟨left, right, by rw [hbody, List.map_cons, List.map_cons, List.map_nil, hl, hr]⟩
  · rename_i hmixed
    rw [hbody]
    cases first <;> cases second <;> simp_all [Rule.isMixed, Symbol.isTerminal]

/-- The tokens that a symbol stands for once words have unit labels. -/
def StandsLifted (rules : Ruleset α) : Symbol → List String → Prop
  | .terminal word, tokens => Yields rules [.terminal word] tokens
  | .nonterminal label, tokens =>
    Yields rules [.nonterminal label] tokens ∨
      ∃ word, rules.NeedsUnit word ∧ label = unitLabel word ∧ Yields rules [.terminal word] tokens

/-- Symbols that were there before stand for what they yield. -/
theorem yields_of_standsLifted (hnew : rules.UnitsNew) {symbol : Symbol}
    (hs : symbol ∈ rules.symbols)
    {tokens : List String} (h : rules.StandsLifted symbol tokens) :
    Yields rules [symbol] tokens := by
  cases symbol with
  | terminal word => exact h
  | nonterminal label =>
    rcases h with h | ⟨word, hword, rfl, -⟩
    · exact h
    · exact absurd rfl (hnew word _ hword.mem_symbols hs)

theorem yields_of_standsLifted_lifted (hnew : rules.UnitsNew) {symbol : Symbol}
    (hs : symbol ∈ rules.symbols)
    {tokens : List String} (h : rules.StandsLifted symbol.lifted tokens) :
    Yields rules [symbol] tokens := by
  cases symbol with
  | terminal word =>
    rcases h with h | ⟨word', -, heq, h⟩
    · obtain ⟨body, hrule, -⟩ := Yields.label_iff.mp h
      exact absurd rfl (hnew word _ hs hrule.head_mem_symbols)
    · rwa [unitLabel_injective heq]
  | nonterminal label => exact yields_of_standsLifted hnew hs h

variable [Weight α]

theorem mem_unitsOf {rule made : Rule α} :
    made ∈ unitsOf rule ↔
      rule.isMixed = true ∧ ∃ word, .terminal word ∈ rule.body ∧
        made = unitRule rule.language word := by
  have hword : ∀ s : Symbol, ∀ w, s.word? = some w ↔ s = .terminal w := by
    intro s w
    cases s <;> simp [Symbol.word?]
  rw [unitsOf]
  split
  · rename_i hmixed
    simp only [List.mem_map, List.mem_filterMap, hword, exists_eq_right, hmixed, true_and]
    exact ⟨fun ⟨w, hw, h⟩ => ⟨w, hw, h.symm⟩, fun ⟨w, hw, h⟩ => ⟨w, hw, h.symm⟩⟩
  · rename_i hmixed
    simp [hmixed]

/-- The rules of the unit labels rewrite them to their words. -/
theorem has_units_iff :
    Has (firsts (rules.flatMap unitsOf)) head body ↔
      ∃ word, rules.NeedsUnit word ∧ head = unitLabel word ∧ body = [.terminal word] := by
  constructor
  · rintro ⟨made, hm, rfl, rfl⟩
    obtain ⟨rule, hr, hm⟩ := List.mem_flatMap.mp (mem_of_mem_firsts hm)
    obtain ⟨hmixed, word, hword, rfl⟩ := mem_unitsOf.mp hm
    exact ⟨word, ⟨rule, hr, hmixed, hword⟩, rfl, rfl⟩
  · rintro ⟨word, ⟨rule, hr, hmixed, hword⟩, rfl, rfl⟩
    have hmade : unitRule rule.language word ∈ rules.flatMap unitsOf :=
      List.mem_flatMap.mpr ⟨rule, hr, mem_unitsOf.mpr ⟨hmixed, word, hword, rfl⟩⟩
    obtain ⟨first, hf, hhead⟩ := exists_mem_firsts hmade
    obtain ⟨other, -, ho⟩ := List.mem_flatMap.mp (mem_of_mem_firsts hf)
    obtain ⟨-, word', -, rfl⟩ := mem_unitsOf.mp ho
    obtain rfl := unitLabel_injective hhead
    exact ⟨_, hf, rfl, rfl⟩

theorem has_extractTerminals_iff :
    rules.extractTerminals.Has head body ↔
      (∃ rule ∈ rules, rule.head = head ∧ rule.lifted.body = body) ∨
        ∃ word, rules.NeedsUnit word ∧ head = unitLabel word ∧ body = [.terminal word] := by
  rw [extractTerminals, has_append, has_units_iff]
  simp [Has, head_lifted]

theorem isModel_standsLifted (hnew : rules.UnitsNew) :
    IsModel rules.extractTerminals rules.StandsLifted where
  word word token hmatch := Yields.word_iff.mpr ⟨token, rfl, hmatch⟩
  rule head body tokens hrule hspells := by
    rcases has_extractTerminals_iff.mp hrule with ⟨rule, hr, rfl, rfl⟩ | ⟨word, hword, rfl, rfl⟩
    · have hmem : ∀ symbol ∈ rule.body, symbol ∈ rules.symbols :=
        fun symbol hs => Has.mem_symbols_of_mem ⟨rule, hr, rfl, rfl⟩ hs
      have hbody : Yields rules rule.body tokens := by
        rw [body_lifted] at hspells
        rw [Yields.iff_spells]
        split at hspells
        · exact (spells_map.mp hspells).imp fun symbol hs _ =>
            yields_of_standsLifted_lifted hnew (hmem symbol hs)
        · exact hspells.imp fun symbol hs _ => yields_of_standsLifted hnew (hmem symbol hs)
      exact .inl (Yields.label_iff.mpr ⟨rule.body, ⟨rule, hr, rfl, rfl⟩, hbody⟩)
    · exact .inr ⟨word, hword, rfl, spells_singleton.mp hspells⟩

/-- A word and its unit label yield the same. -/
theorem yields_lifted {symbol : Symbol} {tokens : List String}
    (hs : ∀ word, symbol = .terminal word → rules.NeedsUnit word)
    (h : Yields rules.extractTerminals [symbol] tokens) :
    Yields rules.extractTerminals [symbol.lifted] tokens := by
  cases symbol with
  | terminal word =>
    have hunit : rules.extractTerminals.Has (unitLabel word) [.terminal word] :=
      has_extractTerminals_iff.mpr (.inr ⟨word, hs word rfl, rfl, rfl⟩)
    exact Yields.label_iff.mpr ⟨_, hunit, h⟩
  | nonterminal label => exact h

/-- Giving words unit labels keeps the language of every label that is none. -/
theorem yields_extractTerminals_iff (hnew : rules.UnitsNew)
    (hlabel : ∀ word, .terminal word ∈ rules.symbols → label ≠ unitLabel word)
    {tokens : List String} :
    Yields rules.extractTerminals [.nonterminal label] tokens ↔
      Yields rules [.nonterminal label] tokens := by
  constructor
  · intro h
    rcases spells_singleton.mp ((isModel_standsLifted hnew).spells h) with h | ⟨word, hword, rfl, -⟩
    · exact h
    · exact absurd rfl (hlabel word hword.mem_symbols)
  · refine Yields.of_justified fun head body us hrule hbody => ?_
    obtain ⟨rule, hr, rfl, rfl⟩ := hrule
    refine Yields.label_iff.mpr
      ⟨rule.lifted.body, has_extractTerminals_iff.mpr (.inl ⟨rule, hr, rfl, rfl⟩), ?_⟩
    rw [body_lifted]
    split
    · rename_i hmixed
      rw [Yields.iff_spells, spells_map]
      refine (Yields.iff_spells.mp hbody).imp fun symbol hs _ => yields_lifted ?_
      rintro word rfl
      exact ⟨rule, hr, hmixed, hs⟩
    · exact hbody

end Constituency.Ruleset
