import Constituency.Proofs.Grammar.Reordering
import Constituency.Proofs.GrammarFile.RoundTrip
import Constituency.Proofs.Language.Preservation
import Constituency.Proofs.NormalForm.Weights

/-!
# Written grammars are read back

A grammar is written with its rules in the order of heads, below two comments that hold its labels
as they are. A label without a line break stays inside its comment, and then reading gives the same
rules for every head (`exists_reread`); a label with a line break leaves the comment, and what is
behind the break is taken for a rule.
-/
namespace Constituency

open Decimal
open Except (bind_eq_ok_iff mapError_eq_ok_iff)

/-- Whether a number stands without a minus sign. -/
def Decimal.Binary.isUnsigned : Binary → Bool
  | .undefined => true
  | .infinite negative => !negative
  | .finite negative _ _ => !negative

/-- Whether no label has a line break in it. -/
structure Grammar.OnLines {α : Type} [Weight α] (g : Grammar α) : Prop where
  start : '\n' ∉ g.start.toList
  labels : ∀ label ∈ g.rules.nonterminals, '\n' ∉ label.toList

/-- The start label of a grammar that is made of rules is one of their labels. -/
theorem Grammar.onLines_of_ofRules {α : Type} [Weight α] {rules : Ruleset α} {g : Grammar α}
    (h : ofRules rules = .ok g) (hlabels : ∀ label ∈ rules.nonterminals, '\n' ∉ label.toList) :
    g.OnLines := by
  obtain ⟨rfl, hstart⟩ := eq_of_ofRules h
  obtain ⟨first, hfirst, hhead⟩ := Option.map_eq_some_iff.mp hstart
  have hrule : g.rules.Has g.start first.body :=
    ⟨first, List.mem_of_mem_head? hfirst, hhead, rfl⟩
  exact ⟨hlabels _ (Ruleset.mem_nonterminals.mpr hrule.head_mem_symbols), hlabels⟩

namespace GrammarFile

/-! ### Comments -/

/-- A comment on a line of its own is dropped. -/
theorem skipBlanks_comment {line : List Char} (h : '\n' ∉ line) (rest : List Char) :
    skipBlanks ('/' :: '/' :: (line ++ '\n' :: rest)) = skipBlanks rest := by
  rw [skipBlanks_slashes h (by simp), skipBlanks_of_isBlank (by decide)]

/-! ### The text of a grammar -/

variable {α : Type} [Weight α]

/-- The first comment behind its slashes. -/
def startComment (g : Grammar α) : String :=
  "** start: " ++ g.start

/-- The second comment behind its slashes. -/
def labelComment (g : Grammar α) : String :=
  "** nonterminals:" ++ String.join (g.rules.nonterminals.map (" " ++ ·))

-- `show` writes the definitions out, since the equations of strings are slow to make.
theorem toList_startComment (g : Grammar α) :
    (startComment g).toList = "** start: ".toList ++ g.start.toList := by
  show ("** start: " ++ g.start).toList = _
  exact String.toList_append

theorem toList_labelComment (g : Grammar α) :
    (labelComment g).toList =
      "** nonterminals:".toList ++ g.rules.nonterminals.flatMap fun label => ' ' :: label.toList := by
  show ("** nonterminals:" ++ String.join (g.rules.nonterminals.map (" " ++ ·))).toList = _
  simp [String.toList_join, List.flatMap_map]

theorem not_mem_startComment {g : Grammar α} (h : g.OnLines) :
    '\n' ∉ (startComment g).toList := by
  simpa [toList_startComment] using h.start

theorem not_mem_labelComment {g : Grammar α} (h : g.OnLines) :
    '\n' ∉ (labelComment g).toList := by
  simpa [toList_labelComment] using h.labels

variable [DecimalText α]

theorem readRules_comment {line : List Char} (h : '\n' ∉ line) (rest : List Char) :
    (readRules ('/' :: '/' :: (line ++ '\n' :: rest)) : Except ReadError (Ruleset α)) =
      readRules rest := by
  rw [readRules_eq, readRules_eq, skipBlanks_comment h]

/-- A grammar is written as two comments and its rules, each on a line. -/
theorem toList_text (g : Grammar α) :
    g.text.toList = '/' :: '/' :: ((startComment g).toList ++ '\n' :: '/' :: '/' ::
      ((labelComment g).toList ++ '\n' ::
        g.rules.inHeadOrder.flatMap fun rule => rule.written ++ ['\n'])) := by
  have hrules : g.index.byHead.values.flatten = g.rules.inHeadOrder := by
    rw [g.index_eq]
    rfl
  have htext : g.text = "//** start: " ++ g.start ++ "\n//** nonterminals:" ++
      String.join (g.rules.nonterminals.map (" " ++ ·)) ++ "\n" ++
        String.join (g.rules.inHeadOrder.map (·.text ++ "\n")) := by
    rw [← hrules]
    rfl
  rw [htext]
  simp [toList_startComment, toList_labelComment, String.toList_join, List.flatMap_map, Rule.text]

/-- A text has the grammar of the rules that are read from it, if their weights are finite. -/
theorem grammar_of_readRules {source : String} {rules : Ruleset α} {g : Grammar α}
    (hread : readRules source.toList = .ok rules) (hg : Grammar.ofRules rules = .ok g)
    (hfinite : ∀ rule ∈ rules, Weight.isFinite rule.weight = true) : grammar source = .ok g := by
  obtain ⟨hrules, -⟩ := Grammar.eq_of_ofRules hg
  have hvalid : rules.validate .counts = .ok () := by
    refine Ruleset.validate_eq_ok_iff.mpr fun rule hr => ?_
    have hfault := Ruleset.fault?_eq_none_iff.mp g.rules_valid rule (hrules ▸ hr)
    obtain ⟨hhead, hbody, hadmits⟩ := Rule.fault?_eq_none_iff.mp hfault
    refine ⟨hhead, hbody, ?_⟩
    simp only [WeightRange.admits, decide_eq_true_eq] at hadmits
    simp [WeightRange.admits, hfinite rule hr, hadmits.1]
  have hcounts : counts source = .ok rules :=
    bind_eq_ok_iff.mpr ⟨_, mapError_eq_ok_iff.mpr hread,
      bind_eq_ok_iff.mpr ⟨_, mapError_eq_ok_iff.mpr hvalid, rfl⟩⟩
  have hne : rules.isEmpty = false := by simpa [← hrules] using g.rules_ne_nil
  refine bind_eq_ok_iff.mpr ⟨_, hcounts, ?_⟩
  simpa [hne, mapError_eq_ok_iff] using hg

theorem of_grammar_eq_ok {source : String} {g : Grammar α} (h : grammar source = .ok g) :
    counts source = .ok g.rules ∧ Grammar.ofRules g.rules = .ok g := by
  obtain ⟨rules, hcounts, h⟩ := bind_eq_ok_iff.mp h
  split at h
  · cases h
  · have hg := mapError_eq_ok_iff.mp h
    obtain ⟨rfl, -⟩ := Grammar.eq_of_ofRules hg
    exact ⟨hcounts, hg⟩

theorem isFinite_of_counts {source : String} {rules : Ruleset α} (h : counts source = .ok rules) :
    ∀ rule ∈ rules, Weight.isFinite rule.weight = true := by
  obtain ⟨rules', -, h⟩ := bind_eq_ok_iff.mp h
  obtain ⟨_, hvalid, h⟩ := bind_eq_ok_iff.mp h
  cases h
  intro rule hr
  obtain ⟨-, -, hadmits⟩ := Ruleset.validate_eq_ok_iff.mp (mapError_eq_ok_iff.mp hvalid) rule hr
  rw [WeightRange.admits, Bool.and_eq_true] at hadmits
  exact hadmits.1

variable [BinaryText α]

/-- Rules are read back with one on each line. -/
theorem readRules_lines {rules : Ruleset α} (h : ∀ rule ∈ rules, IsWritable rule) :
    readRules (rules.flatMap fun rule => rule.written ++ ['\n']) = .ok rules := by
  induction rules with
  | nil => exact readRules_nil
  | cons rule rules ih =>
    obtain ⟨hrule, hrules⟩ := List.forall_mem_cons.mp h
    have hline := (readRules_of_isBlank (by decide : Text.isBlank '\n' = true) _).trans (ih hrules)
    rw [List.flatMap_cons, List.append_assoc]
    exact readRules_written_append hrule hline

/-- What is read from the text of a grammar are its rules in the order of heads. -/
theorem readRules_grammarText {g : Grammar α} (hlines : g.OnLines)
    (hrules : ∀ rule ∈ g.rules, IsWritable rule) :
    readRules g.text.toList = .ok g.rules.inHeadOrder := by
  rw [toList_text, readRules_comment (not_mem_startComment hlines),
    readRules_comment (not_mem_labelComment hlines)]
  exact readRules_lines fun rule hr =>
    hrules rule ((Ruleset.inHeadOrder_perm g.rules).mem_iff.mp hr)

/-- A written grammar is read as the grammar of its rules in the order of heads. -/
theorem exists_grammar_text {g : Grammar α} (hlines : g.OnLines)
    (hrules : ∀ rule ∈ g.rules, IsWritable rule)
    (hfinite : ∀ rule ∈ g.rules, Weight.isFinite rule.weight = true) :
    ∃ h, grammar g.text = .ok h ∧ Grammar.ofRules g.rules.inHeadOrder = .ok h := by
  have hperm := Ruleset.inHeadOrder_perm g.rules
  obtain ⟨h, hh⟩ := g.exists_ofRules_of_perm hperm.symm
  exact ⟨h, grammar_of_readRules (readRules_grammarText hlines hrules) hh
    fun rule hr => hfinite rule (hperm.mem_iff.mp hr), hh⟩

/-! ### Grammars that come from a text -/

/-- Whether a weight has no sign; it may be infinite or undefined. -/
def NoSign (weight : α) : Prop :=
  (BinaryText.value weight).isUnsigned = true

omit [Weight α] in
theorem IsUnsigned.noSign {weight : α} (h : IsUnsigned weight) : NoSign weight := by
  obtain ⟨mantissa, exponent, hvalue⟩ := h
  rw [NoSign, hvalue]
  rfl

/-- Whether a language is a name, if there is one. -/
def HasTag (language : Option String) : Prop :=
  ∀ l, language = some l → IsTag l

/-- Arithmetic without signs: numerals have none, sums, products and quotients of weights without a
sign have none, and what is a probability among them is finite. -/
structure UnsignedArithmetic (α : Type) [Weight α] [DecimalText α] [BinaryText α] : Prop
    extends UnsignedNumerals α where
  kept : Ruleset.Kept (NoSign : α → Prop)
  probability : ∀ {weight : α}, NoSign weight → WeightRange.probabilities.admits weight = true →
    IsUnsigned weight ∧ Weight.isFinite weight = true

/-- Grammars that are read from a text, or converted from such grammars. -/
inductive IsRead : Grammar α → Prop
  | text {source : String} {g : Grammar α} : grammar source = .ok g → IsRead g
  | normalForm {g c : Grammar α} : IsRead g → g.toNormalForm = .ok c → IsRead c

/-- Neither reading nor conversion makes a weight with a sign. -/
theorem IsRead.carry (harith : UnsignedArithmetic α) {g : Grammar α} (h : IsRead g) :
    g.rules.Carry NoSign HasTag := by
  induction h with
  | text hg =>
    intro rule hr
    have hread := isUnsigned_of_counts harith.toUnsignedNumerals (of_grammar_eq_ok hg).1 rule hr
    exact ⟨hread.1.noSign, hread.2⟩
  | normalForm _ hc ih =>
    rw [(Grammar.rules_of_toNormalForm hc).2]
    exact ih.normalForm harith.kept

/-- A grammar that is read or converted is written so that it reads back, if none of its labels has
a line break in it: for every head the same rules come back in the same order, and no others. -/
theorem exists_reread (harith : UnsignedArithmetic α) {g : Grammar α} (hread : IsRead g)
    (hlines : g.OnLines) (hback : ∀ rule ∈ g.rules, ReadsBack rule.weight) :
    ∃ h, grammar g.text = .ok h ∧ (∀ head, h.rulesFor head = g.rulesFor head) ∧
      h.rules.Perm g.rules := by
  have hrule : ∀ rule ∈ g.rules, IsWritable rule ∧ Weight.isFinite rule.weight = true := by
    intro rule hr
    obtain ⟨hsign, htag⟩ := hread.carry harith rule hr
    have hfault := Ruleset.fault?_eq_none_iff.mp g.rules_valid rule hr
    obtain ⟨hunsigned, hfinite⟩ :=
      harith.probability hsign (Rule.fault?_eq_none_iff.mp hfault).2.2
    exact ⟨⟨hunsigned, hback rule hr, htag⟩, hfinite⟩
  obtain ⟨h, hgrammar, hh⟩ := exists_grammar_text hlines (fun rule hr => (hrule rule hr).1)
    fun rule hr => (hrule rule hr).2
  obtain ⟨hrules, -⟩ := Grammar.eq_of_ofRules hh
  refine ⟨h, hgrammar, fun head => ?_, hrules ▸ Ruleset.inHeadOrder_perm g.rules⟩
  rw [Grammar.rulesFor_eq_filter, Grammar.rulesFor_eq_filter, hrules, Ruleset.filter_inHeadOrder]

/-! ### Words that look like comments -/

theorem noSign_iff {q : ℚ} : NoSign q ↔ 0 ≤ q := by
  simp [NoSign, BinaryText.value, binaryOfRat, Decimal.Binary.isUnsigned]

theorem unsignedArithmetic_rat : UnsignedArithmetic ℚ where
  toUnsignedNumerals := unsignedNumerals_rat
  kept :=
    { one := noSign_iff.mpr zero_le_one
      zero_add := fun h => by rwa [zero_add]
      add := fun h h' => noSign_iff.mpr (add_nonneg (noSign_iff.mp h) (noSign_iff.mp h'))
      mul := fun h h' => noSign_iff.mpr (mul_nonneg (noSign_iff.mp h) (noSign_iff.mp h'))
      div := fun h h' => noSign_iff.mpr (div_nonneg (noSign_iff.mp h) (noSign_iff.mp h')) }
  probability h _ := ⟨isUnsigned_of_nonneg (noSign_iff.mp h), rfl⟩

/-- Rules of weight one and of no language are read back from their text. -/
theorem exists_grammar_of_ones {rules : Ruleset ℚ} (hne : rules ≠ [])
    (hvalid : rules.fault? .probabilities = none)
    (hone : ∀ rule ∈ rules, rule.weight = 1 ∧ rule.language = none) :
    ∃ g, grammar rules.text = .ok g ∧ Grammar.ofRules rules = .ok g ∧
      ∀ rule ∈ g.rules, IsWritable rule := by
  have hwritable : ∀ rule ∈ rules, IsWritable rule := by
    intro rule hr
    obtain ⟨hweight, hlanguage⟩ := hone rule hr
    refine ⟨?_, ?_, by simp [hlanguage]⟩
    · rw [hweight]
      exact isUnsigned_of_nonneg zero_le_one
    · rw [hweight]
      exact readsBack_one
  obtain ⟨first, rest, rfl⟩ := List.exists_cons_of_ne_nil hne
  exact ⟨_, grammar_of_readRules (readRules_text hwritable) (Grammar.ofRules_cons hvalid)
    fun _ _ => rfl, Grammar.ofRules_cons hvalid, hwritable⟩

/-- Two labels with a word between them that begins a comment elsewhere. -/
def slashRules : Ruleset ℚ :=
  [{ head := "S", body := [.nonterminal "NP", .terminal "//", .nonterminal "NP"], weight := 1 },
    .lexical "NP" "x" 1]

/-- The labels made up of the word stay in their comment, and the grammar in normal form is read
back. -/
theorem exists_reread_slashRules :
    ∃ g c : Grammar ℚ, grammar slashRules.text = .ok g ∧ g.toNormalForm = .ok c ∧
      ∃ h, grammar c.text = .ok h ∧ (∀ head, h.rulesFor head = c.rulesFor head) ∧
        h.rules.Perm c.rules := by
  obtain ⟨g, hg, hof, -⟩ := exists_grammar_of_ones (by decide : slashRules ≠ [])
    (by decide +kernel) (by decide +kernel)
  obtain ⟨hrules, hstart⟩ := Grammar.eq_of_ofRules hof
  have hvalid : g.rules.validate .positiveProbabilities = .ok () := by
    rw [hrules]
    exact Ruleset.validate_eq_ok_iff.mpr (by decide +kernel)
  have hnormal : slashRules.normalForm.fault? .probabilities = none := by decide +kernel
  obtain ⟨c, hc⟩ := Grammar.exists_toNormalForm hvalid (by rw [hrules]; decide +kernel)
    (by rw [hrules]; exact hnormal)
  have hcrules : c.rules = slashRules.normalForm := by
    rw [(Grammar.rules_of_toNormalForm hc).2, hrules]
  have hread : IsRead c := .normalForm (.text hg) hc
  have hcstart : c.start = "S" :=
    (Grammar.start_of_toNormalForm hc).trans (Option.some.inj hstart).symm
  have hlines : c.OnLines := by
    refine ⟨?_, ?_⟩
    · rw [hcstart]
      decide +kernel
    · rw [hcrules]
      decide +kernel
  have hone : ∀ rule ∈ slashRules.normalForm, rule.weight = 1 := by decide +kernel
  refine ⟨g, c, hg, hc, exists_reread unsignedArithmetic_rat hread hlines fun rule hr => ?_⟩
  rw [hone rule (hcrules ▸ hr)]
  exact readsBack_one

/-! ### A label that leaves its comment -/

/-- One rule whose head goes over two lines. -/
def brokenRules : Ruleset ℚ :=
  [.lexical "A\nB" "x" 1]

/-- Behind a line break the rest of a label stands for the head of a rule, and no arrow follows. -/
theorem readRules_broken (rest : List Char) (rules : Ruleset ℚ) :
    readRules ('B' :: '\n' :: '/' :: '/' :: ("** nonterminals: A".toList ++
      '\n' :: 'B' :: rest)) ≠ .ok rules := by
  intro h
  have hhead : readHead ('B' :: '\n' :: '/' :: '/' :: ("** nonterminals: A".toList ++
      '\n' :: 'B' :: rest)) = .ok ("B", '\n' :: '/' :: '/' :: ("** nonterminals: A".toList ++
      '\n' :: 'B' :: rest)) :=
    readHead_written "B" (endsName_cons (by decide) _)
  have hskip : skipBlanks ('\n' :: '/' :: '/' :: ("** nonterminals: A".toList ++
      '\n' :: 'B' :: rest)) = 'B' :: rest := by
    rw [skipBlanks_of_isBlank (by decide), skipBlanks_comment (by simp),
      skipBlanks_of_beginsSymbol (by decide)]
  rw [readRules_eq, skipBlanks_of_beginsSymbol (by decide), if_neg (List.cons_ne_nil _ _)] at h
  obtain ⟨⟨rule, rest'⟩, hrule, -⟩ := bind_eq_ok_iff.mp h
  obtain ⟨⟨head, behind⟩, hhead', hrule⟩ := bind_eq_ok_iff.mp hrule
  rw [hhead] at hhead'
  cases hhead'
  obtain ⟨_, harrow, -⟩ := bind_eq_ok_iff.mp hrule
  rw [hskip] at harrow
  cases harrow

/-- A grammar is written as a text that is no list of rules, if a label has a line break in it. -/
theorem exists_not_reread :
    ∃ g : Grammar ℚ, IsRead g ∧ (∀ rule ∈ g.rules, ReadsBack rule.weight) ∧
      ∀ h : Grammar ℚ, grammar g.text ≠ .ok h := by
  obtain ⟨g, hg, hof, hwritable⟩ := exists_grammar_of_ones (by decide : brokenRules ≠ [])
    (by decide +kernel) (by decide +kernel)
  obtain ⟨hrules, hstart⟩ := Grammar.eq_of_ofRules hof
  have hlabels : brokenRules.nonterminals = ["A\nB"] := by decide +kernel
  refine ⟨g, .text hg, fun rule hr => (hwritable rule hr).readsBack, fun h hh => ?_⟩
  obtain ⟨rules, hread, -⟩ := bind_eq_ok_iff.mp (of_grammar_eq_ok hh).1
  have hread : readRules g.text.toList = .ok rules := mapError_eq_ok_iff.mp hread
  have hfirst : (startComment g).toList = "** start: A".toList ++ ['\n', 'B'] := by
    simp [toList_startComment, ← Option.some.inj hstart, Rule.lexical]
  have hsecond : (labelComment g).toList = "** nonterminals: A".toList ++ ['\n', 'B'] := by
    simp [toList_labelComment, hrules, hlabels]
  rw [toList_text, hfirst, hsecond, List.append_assoc, List.append_assoc] at hread
  exact readRules_broken _ rules ((readRules_comment (by simp) _).symm.trans hread)

end GrammarFile

end Constituency
