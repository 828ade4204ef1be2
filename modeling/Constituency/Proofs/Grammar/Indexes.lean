import Constituency.Proofs.Grammar.Lookups
import Constituency.Proofs.GrammarFile.Rereading
import Constituency.Proofs.Ruleset.Rescaling

/-!
# Every way to a rule

A chart finds rules by a word, by one child or by two children. In every grammar that can be made,
whatever it was made from and however often it was rebuilt, each way finds the rules that a search
of the list would find, as often as they are listed, and a rule is found in one way or is counted as
unusable.
-/
namespace Constituency

open Except (bind_eq_ok_iff)

/-- What a chart asks for. -/
inductive Question where
  | word (key : String)
  | child (label : String)
  | children (left right : String)

/-! ### Rules and questions -/

namespace Rule

variable {α : Type} {rule : Rule α}

/-- Whether the body is one word, of which the key is the lower case. -/
def HasKey (rule : Rule α) (key : String) : Prop :=
  ∃ word, rule.body = [.terminal word] ∧ Text.lowerCase word = key

theorem wordKey?_eq_some_iff {key : String} :
    Index.wordKey? rule = some key ↔ rule.HasKey key := by
  simp only [Index.wordKey?, HasKey, Option.map_eq_some_iff, word?_eq_some_iff]

instance (rule : Rule α) (key : String) : Decidable (rule.HasKey key) :=
  decidable_of_iff _ wordKey?_eq_some_iff

/-- The question that a rule answers, if a chart can use the rule. -/
def question? (rule : Rule α) : Option Question :=
  match rule.shape with
  | .lexical word => some (.word (Text.lowerCase word))
  | .unary child => some (.child child)
  | .binary left right => some (.children left right)
  | .other => none

theorem question?_eq_none_iff : rule.question? = none ↔ rule.shape = .other := by
  rw [question?]
  cases rule.shape <;> simp

end Rule

namespace Grammar

variable {α : Type} [Weight α] {g c : Grammar α} {rules : Ruleset α} {rule : Rule α}

/-- The rules that a grammar has for a question. -/
def answers (g : Grammar α) : Question → Ruleset α
  | .word key => g.lexicalRules key
  | .child label => g.unaryRules label
  | .children left right => g.binaryRules left right

theorem mem_answers {q : Question} :
    rule ∈ g.answers q ↔ rule ∈ g.rules ∧ rule.question? = some q := by
  cases q with
  | word key =>
    rw [answers, lexicalRules_eq_filter, List.mem_filter, decide_eq_true_iff, Index.wordKey?,
      Rule.word?, Rule.question?]
    cases rule.shape <;> simp
  | child label =>
    rw [answers, unaryRules_eq_filter, List.mem_filter, decide_eq_true_iff, Rule.unaryChild?,
      Rule.question?]
    cases rule.shape <;> simp
  | children left right =>
    rw [answers, binaryRules_eq_filter, List.mem_filter, decide_eq_true_iff,
      Rule.binaryChildren?, Rule.question?]
    cases rule.shape <;> simp

theorem exists_mem_answers_iff (hr : rule ∈ g.rules) :
    (∃ q, rule ∈ g.answers q) ↔ rule.shape ≠ .other := by
  simp only [mem_answers, hr, true_and, ne_eq, ← Rule.question?_eq_none_iff]
  exact Option.ne_none_iff_exists'.symm

/-- A rule answers one question at most. -/
theorem existsUnique_mem_answers (h : ∃ q, rule ∈ g.answers q) : ∃! q, rule ∈ g.answers q := by
  obtain ⟨q, hq⟩ := h
  refine ⟨q, hq, fun q' hq' => ?_⟩
  rw [mem_answers] at hq hq'
  exact Option.some.inj (hq'.2.symm.trans hq.2)

/-! ### Grammars whose indexes are exact -/

open Classical in
/-- A grammar of valid rules, each of which is found where a search of the list would find it. -/
structure IsExact (g : Grammar α) : Prop where
  valid : ∀ rule ∈ g.rules, rule.head ≠ "" ∧ rule.body ≠ [] ∧
    0 ≤ rule.weight ∧ rule.weight ≤ 1 + Weight.tolerance
  rulesFor : ∀ head, g.rulesFor head = g.rules.filter (·.head = head)
  lexicalRules : ∀ key, g.lexicalRules key = g.rules.filter (·.HasKey key)
  unaryRules : ∀ child, g.unaryRules child = g.rules.filter (·.body = [.nonterminal child])
  binaryRules : ∀ left right, g.binaryRules left right =
    g.rules.filter (·.body = [.nonterminal left, .nonterminal right])
  /-- No rule is found in two ways. -/
  found_once : ∀ rule, (∃ q, rule ∈ g.answers q) → ∃! q, rule ∈ g.answers q
  /-- A rule that is found in no way is counted. -/
  unusable : g.unusable = g.rules.countP fun rule => ¬ ∃ q, rule ∈ g.answers q

theorem isExact_of_ofRules (h : ofRules rules = .ok g) : g.IsExact where
  valid := by
    obtain ⟨hne, hvalid⟩ := exists_ofRules_iff.mp ⟨g, h⟩
    obtain ⟨rfl, -⟩ := eq_of_ofRules h
    intro rule hr
    have hfault := Ruleset.fault?_eq_none_iff.mp hvalid rule hr
    obtain ⟨hhead, hbody, hadmits⟩ := Rule.fault?_eq_none_iff.mp hfault
    exact ⟨hhead, hbody, of_decide_eq_true hadmits⟩
  rulesFor := g.rulesFor_eq_filter
  lexicalRules key := by simp only [lexicalRules_eq_filter, Rule.wordKey?_eq_some_iff]
  unaryRules child := by simp only [unaryRules_eq_filter, Rule.unaryChild?_eq_some_iff]
  binaryRules left right := by simp only [binaryRules_eq_filter, Rule.binaryChildren?_eq_some_iff]
  found_once _ := existsUnique_mem_answers
  unusable := by
    classical
    rw [Grammar.unusable]
    refine List.countP_congr fun rule hr => ?_
    rw [decide_eq_true_iff, decide_eq_true_iff, exists_mem_answers_iff hr, not_not]

theorem IsExact.withStart (h : g.IsExact) (start : String) : (g.withStart start).IsExact where
  __ := h

/-- A grammar that is rebuilt is made of a list of rules, and gets another start label. -/
theorem isExact_of_rebuild {made : Except (GrammarError α) (Ruleset α)}
    (h : g.rebuild made = .ok c) : c.IsExact := by
  obtain ⟨rules, -, h⟩ := bind_eq_ok_iff.mp h
  obtain ⟨fresh, hfresh, hc⟩ := bind_eq_ok_iff.mp h
  obtain rfl := Except.ok.inj hc
  exact (isExact_of_ofRules hfresh).withStart g.start

/-! ### Grammars that can be made -/

variable [DecimalText α]

/-- Grammars that are made of rules, of counts or of a text, or are got from others. -/
inductive IsMade : Grammar α → Prop
  | ofRules {rules : Ruleset α} {g : Grammar α} (h : ofRules rules = .ok g) : IsMade g
  | ofCounts {rules : Ruleset α} {g : Grammar α} (h : ofCounts rules = .ok g) : IsMade g
  | ofText {source : String} {g : Grammar α} (h : GrammarFile.grammar source = .ok g) : IsMade g
  | normalized {g c : Grammar α} (hg : IsMade g) (h : g.normalized = .ok c) : IsMade c
  | smoothed {g c : Grammar α} {constant : α} (hg : IsMade g) (h : g.smoothed constant = .ok c) :
    IsMade c
  | toNormalForm {g c : Grammar α} (hg : IsMade g) (h : g.toNormalForm = .ok c) : IsMade c
  | withStart {g : Grammar α} (hg : IsMade g) (start : String) : IsMade (g.withStart start)

/-- In every grammar that can be made the rules are valid, every look-up finds exactly the rules that
it asks for, in their order and with repetitions, and a rule is found by one kind of look-up with
one key, or is counted as unusable. -/
theorem isExact_of_isMade (h : g.IsMade) : g.IsExact := by
  induction h with
  | ofRules h => exact isExact_of_ofRules h
  | ofCounts h =>
    obtain ⟨rules, -, hof⟩ := bind_eq_ok_iff.mp h
    exact isExact_of_ofRules hof
  | ofText h => exact isExact_of_ofRules (GrammarFile.of_grammar_eq_ok h).2
  | normalized _ h _ => exact isExact_of_rebuild h
  | smoothed _ h _ => exact isExact_of_rebuild h
  | toNormalForm _ h _ => exact isExact_of_rebuild h
  | withStart _ start ih => exact ih.withStart start

/-- A rule of each shape, and words that differ in their case. -/
def shapedRules : Ruleset ℚ :=
  [.binary "S" "NP" "VP" 1, .lexical "NP" "Dogs" (2 / 3), .lexical "NP" "dogs" (1 / 3),
    .unary "VP" "V" (1 / 2), .lexical "V" "see" 1,
    { head := "VP", body := [.nonterminal "V", .nonterminal "NP", .terminal "off"],
      weight := 1 / 2 }]

/-- Another start label and the normal form leave the look-ups exact. -/
theorem isExact_of_isMade_shaped :
    ∃ g c : Grammar ℚ, ofRules shapedRules = .ok g ∧
      (g.withStart "VP").toNormalForm = .ok c ∧ g.unusable = 1 ∧ c.IsExact := by
  have hfault : shapedRules.fault? .probabilities = none := by decide +kernel
  obtain ⟨g, hg⟩ := exists_ofRules_iff.mpr ⟨List.cons_ne_nil _ _, hfault⟩
  obtain ⟨hrules, -⟩ := eq_of_ofRules hg
  have hvalid : (g.withStart "VP").rules.validate .positiveProbabilities = .ok () := by
    rw [withStart, hrules]
    exact Ruleset.validate_eq_ok_iff.mpr (by decide +kernel)
  have hnormal : (g.withStart "VP").rules.normalForm ≠ [] ∧
      (g.withStart "VP").rules.normalForm.fault? .probabilities = none := by
    rw [withStart, hrules]
    exact ⟨by decide +kernel, by decide +kernel⟩
  obtain ⟨c, hc⟩ := exists_toNormalForm hvalid hnormal.1 hnormal.2
  refine ⟨g, c, hg, hc, ?_, isExact_of_isMade (.toNormalForm (.withStart (.ofRules hg) "VP") hc)⟩
  rw [unusable, hrules]
  decide +kernel

end Grammar

end Constituency
