import Constituency.GrammarFile.Content
import Constituency.Proofs.ExactWeights
import Constituency.Proofs.GrammarFile.Lexemes

/-!
# Written rules are read back

A list of rules is written with one rule on a line. Reading it gives the same rules, whatever the
labels and the words are, if the weights have no sign and are what their decimals are read as. The
rules of any text that is read are such rules.
-/
namespace Constituency

open Decimal
open Except (bind_eq_ok_iff mapError_eq_ok_iff)

/-- Weights that are binary numbers, and printed as such. -/
class BinaryText (α : Type) [DecimalText α] where
  /-- The number that a weight is. -/
  value : α → Binary
  text_eq : ∀ weight, DecimalText.text weight = (value weight).shortestText

instance BinaryText.instFloat : BinaryText Float where
  value := Binary.ofFloat
  text_eq _ := rfl

/-- The written form of a list of rules. -/
def Ruleset.text {α : Type} [DecimalText α] (rules : Ruleset α) : String :=
  "\n".intercalate (rules.map Rule.text)

namespace GrammarFile

variable {α : Type} [DecimalText α]

/-- Whether a weight is finite and has no sign: a double whose sign bit is clear and whose exponent
bits are not all set. -/
def IsUnsigned [BinaryText α] (weight : α) : Prop :=
  ∃ mantissa exponent, BinaryText.value weight = .finite false mantissa exponent

/-- Whether a weight is what its decimal is read as. -/
def ReadsBack (weight : α) : Prop :=
  ∀ n, Numeral.read? (DecimalText.text weight) = some (n, []) → DecimalText.ofNumeral n = weight

theorem isPlain_text [BinaryText α] {weight : α} (h : IsUnsigned weight) :
    IsPlain (DecimalText.text weight) := by
  obtain ⟨mantissa, exponent, hvalue⟩ := h
  rw [BinaryText.text_eq, hvalue]
  exact isPlain_shortestText mantissa exponent

/-- What can be told from the written form of a rule. -/
structure IsWritable [BinaryText α] (rule : Rule α) : Prop where
  unsigned : IsUnsigned rule.weight
  readsBack : ReadsBack rule.weight
  isTag : ∀ language, rule.language = some language → IsTag language

/-- The mark of the language, with the end of the rule. -/
def writtenTag : Option String → List Char
  | some language => ' ' :: '@' :: (language.toList ++ [';'])
  | none => [';']

theorem written_append (rule : Rule α) (rest : List Char) :
    rule.written ++ rest = Label.written rule.head ++ ' ' :: '-' :: '>' ::
      (rule.body.flatMap (fun s => ' ' :: s.written) ++ ' ' :: '[' ::
        (DecimalText.text rule.weight ++ ']' :: (writtenTag rule.language ++ rest))) := by
  cases h : rule.language <;> simp [Rule.written, writtenTag, h]

/-- The language is read back up to the end of the rule. -/
theorem readLanguage_writtenTag {language : Option String}
    (h : ∀ l, language = some l → IsTag l) (rest : List Char) :
    readLanguage (skipBlanks (writtenTag language ++ rest)) = .ok (language, ';' :: rest) := by
  cases language with
  | none =>
    rw [writtenTag, List.singleton_append, skipBlanks_eq_self (by decide) (by decide)]
    rfl
  | some l =>
    have hend : Label.isNameChar ';' = false := by decide
    have hread := readLanguage_written (h l rfl) (endsName_cons hend rest)
    rw [writtenTag, List.cons_append, List.cons_append, List.append_assoc, List.singleton_append,
      skipBlanks_space, skipBlanks_eq_self (by decide) (by decide), hread]

variable [Weight α]

/-- A rule is read back, whatever follows. -/
theorem readRule_written [BinaryText α] {rule : Rule α} (h : IsWritable rule) (rest : List Char) :
    readRule (rule.written ++ rest) = .ok (rule, rest) := by
  obtain ⟨n, hn, hweight⟩ := readWeight_of_isPlain (isPlain_text h.unsigned)
  have harrow : ∀ cs, readArrow (skipBlanks (' ' :: '-' :: '>' :: cs)) = .ok ((), cs) := by
    intro cs
    rw [skipBlanks_space, skipBlanks_eq_self (by decide) (by decide)]
    rfl
  have hmark : readMark ';' (skipBlanks (';' :: rest)) = .ok ((), rest) := by
    rw [skipBlanks_eq_self (by decide) (by decide)]
    simp [readMark]
  rw [written_append]
  refine bind_eq_ok_iff.mpr ⟨_, readHead_written rule.head (endsName_cons (by decide) _), ?_⟩
  refine bind_eq_ok_iff.mpr ⟨_, harrow _, ?_⟩
  refine bind_eq_ok_iff.mpr ⟨_, mapError_eq_ok_iff.mpr (readBody_written rule.body _), ?_⟩
  refine bind_eq_ok_iff.mpr ⟨_, hweight _, ?_⟩
  refine bind_eq_ok_iff.mpr ⟨_, readLanguage_writtenTag h.isTag rest, ?_⟩
  refine bind_eq_ok_iff.mpr ⟨_, mapError_eq_ok_iff.mpr hmark, ?_⟩
  have hread : DecimalText.ofNumeral n = rule.weight := h.readsBack n hn
  simp [hread, pure, Except.pure]

theorem readRules_nil : (readRules [] : Except ReadError (Ruleset α)) = .ok [] := by
  rw [readRules_eq, skipBlanks_nil, if_pos rfl]

theorem readRules_of_isBlank {c : Char} (h : Text.isBlank c = true) (rest : List Char) :
    (readRules (c :: rest) : Except ReadError (Ruleset α)) = readRules rest := by
  rw [readRules_eq, readRules_eq, skipBlanks_of_isBlank h]

/-- A rule is read back in front of other rules. -/
theorem readRules_written_append [BinaryText α] {rule : Rule α} (h : IsWritable rule)
    {rest : List Char} {rules : Ruleset α} (hrest : readRules rest = .ok rules) :
    readRules (rule.written ++ rest) = .ok (rule :: rules) := by
  obtain ⟨c, cs, hcons, hbegins⟩ := exists_cons_written (.nonterminal rule.head)
  have hskip : skipBlanks (rule.written ++ rest) = rule.written ++ rest := by
    rw [written_append]
    change skipBlanks ((Symbol.nonterminal rule.head).written ++ _) = _
    rw [hcons, List.cons_append, skipBlanks_of_beginsSymbol hbegins]
    exact congrArg (· ++ _) hcons.symm
  have hne : rule.written ++ rest ≠ [] := by simp [Rule.written]
  rw [readRules_eq, hskip, if_neg hne]
  exact bind_eq_ok_iff.mpr ⟨_, readRule_written h rest, bind_eq_ok_iff.mpr ⟨_, hrest, rfl⟩⟩

/-- Rules on lines of their own are read back. -/
theorem readRules_text [BinaryText α] {rules : Ruleset α} (h : ∀ rule ∈ rules, IsWritable rule) :
    readRules rules.text.toList = .ok rules := by
  rw [Ruleset.text, String.toList_intercalate, List.map_map]
  induction rules with
  | nil => exact readRules_nil
  | cons rule rules ih =>
    have hrule := h rule List.mem_cons_self
    have hrules := ih fun r hr => h r (List.mem_cons_of_mem _ hr)
    cases rules with
    | nil =>
      have hread := readRules_written_append hrule (readRules_nil (α := α))
      simpa [Rule.text] using hread
    | cons next rules =>
      have hline := (readRules_of_isBlank (by decide : Text.isBlank '\n' = true) _).trans hrules
      have hread := readRules_written_append hrule hline
      simpa [Rule.text] using hread

/-! ### What is read can be written -/

theorem isTag_of_readName {cs rest : List Char} {name : String}
    (h : readName cs = .ok (name, rest)) : IsTag name := by
  simp only [readName] at h
  split at h
  · cases h
  · rename_i hne
    cases h
    refine ⟨fun hempty => hne ?_, fun c hc => ?_⟩
    · rw [← String.toList_ofList (l := cs.takeWhile Label.isNameChar), hempty, String.toList_empty]
    · rw [String.toList_ofList] at hc
      exact List.all_eq_true.mp List.all_takeWhile c hc

theorem isTag_of_readLanguage {cs rest : List Char} {language : Option String}
    (h : readLanguage cs = .ok (language, rest)) : ∀ l, language = some l → IsTag l := by
  unfold readLanguage at h
  split at h
  · obtain ⟨⟨name, rest'⟩, hname, h⟩ := bind_eq_ok_iff.mp h
    cases h
    intro l hl
    cases hl
    exact isTag_of_readName (mapError_eq_ok_iff.mp hname)
  · cases h
    intro l hl
    cases hl

/-- A rule that is read has the weight of a numeral or the weight one, and a language that can be
written. -/
theorem weight_of_readRule {cs rest : List Char} {rule : Rule α}
    (h : readRule cs = .ok (rule, rest)) :
    (rule.weight = 1 ∨ ∃ n, rule.weight = DecimalText.ofNumeral n) ∧
      ∀ l, rule.language = some l → IsTag l := by
  obtain ⟨⟨head, rest₁⟩, -, h⟩ := bind_eq_ok_iff.mp h
  obtain ⟨⟨_, rest₂⟩, -, h⟩ := bind_eq_ok_iff.mp h
  obtain ⟨⟨body, rest₃⟩, -, h⟩ := bind_eq_ok_iff.mp h
  obtain ⟨⟨weight, rest₄⟩, -, h⟩ := bind_eq_ok_iff.mp h
  obtain ⟨⟨language, rest₅⟩, hlanguage, h⟩ := bind_eq_ok_iff.mp h
  obtain ⟨⟨_, rest₆⟩, -, h⟩ := bind_eq_ok_iff.mp h
  cases h
  refine ⟨?_, isTag_of_readLanguage hlanguage⟩
  cases weight with
  | none => exact .inl rfl
  | some n => exact .inr ⟨n, rfl⟩

/-- What holds of every rule that is read holds of all rules of a text. -/
theorem forall_of_readRules {P : Rule α → Prop}
    (hP : ∀ cs rule rest, readRule cs = .ok (rule, rest) → P rule) {cs : List Char}
    {rules : Ruleset α} (h : readRules cs = .ok rules) : ∀ rule ∈ rules, P rule := by
  fun_induction readRules (α := α) cs generalizing rules with
  | case1 => cases h; simp
  | case2 => cases h
  | case3 =>
    rename_i rule rest hrule ih
    obtain ⟨others, hothers, h⟩ := bind_eq_ok_iff.mp h
    cases h
    intro r hr
    rcases List.mem_cons.mp hr with rfl | hr
    · exact hP _ _ _ hrule
    · exact ih hothers r hr

/-- The number one and whatever else a numeral can be read as have no sign, if they are finite. -/
structure UnsignedNumerals (α : Type) [Weight α] [DecimalText α] [BinaryText α] : Prop where
  one : IsUnsigned (1 : α)
  ofNumeral : ∀ n, Weight.isFinite (DecimalText.ofNumeral n : α) = true →
    IsUnsigned (DecimalText.ofNumeral n : α)

theorem isUnsigned_of_counts [BinaryText α] (hnumerals : UnsignedNumerals α) {source : String}
    {rules : Ruleset α} (h : counts source = .ok rules) : ∀ rule ∈ rules,
      IsUnsigned rule.weight ∧ ∀ l, rule.language = some l → IsTag l := by
  obtain ⟨rules', hread, h⟩ := bind_eq_ok_iff.mp h
  obtain ⟨_, hvalid, h⟩ := bind_eq_ok_iff.mp h
  cases h
  intro rule hr
  obtain ⟨hweight, htag⟩ := forall_of_readRules (fun _ _ _ => weight_of_readRule)
    (mapError_eq_ok_iff.mp hread) rule hr
  obtain ⟨-, -, hadmits⟩ := Ruleset.validate_eq_ok_iff.mp (mapError_eq_ok_iff.mp hvalid) rule hr
  refine ⟨?_, htag⟩
  rcases hweight with hone | ⟨n, hn⟩
  · rw [hone]
    exact hnumerals.one
  · rw [hn] at hadmits ⊢
    simp only [WeightRange.admits, Bool.and_eq_true] at hadmits
    exact hnumerals.ofNumeral n hadmits.1

/-- Written rules are read back as the same list, if their weights are what their decimals are read
as: rules with any labels and words, with weights that are finite and have no sign, and with
languages that are names; and so are the rules of every text that is read. -/
theorem readRules_text_eq_ok [BinaryText α] (rules : Ruleset α)
    (hback : ∀ rule ∈ rules, ReadsBack rule.weight) :
    ((∀ rule ∈ rules, IsUnsigned rule.weight ∧ ∀ l, rule.language = some l → IsTag l) →
      readRules rules.text.toList = .ok rules) ∧
    (UnsignedNumerals α → ∀ source, counts source = .ok rules →
      readRules rules.text.toList = .ok rules) := by
  have hwritable : (∀ rule ∈ rules, IsUnsigned rule.weight ∧
      ∀ l, rule.language = some l → IsTag l) → readRules rules.text.toList = .ok rules :=
    fun h => readRules_text fun rule hr => ⟨(h rule hr).1, hback rule hr, (h rule hr).2⟩
  exact ⟨hwritable, fun hnumerals source h => hwritable (isUnsigned_of_counts hnumerals h)⟩

/-! ### Rules with odd names -/

/-- A rational number with its first fifty-three binary digits. -/
def binaryOfRat (q : ℚ) : Binary :=
  let scale : Int := 52 + q.den.log2 - q.num.natAbs.log2
  .finite (q < 0) (q.num.natAbs * twoTo scale.toNat / (q.den * twoTo (-scale).toNat)) (-scale)

instance instDecimalTextRat : DecimalText ℚ where
  text q := (binaryOfRat q).shortestText
  ofNumeral n := n.count * 10 ^ n.place

instance instBinaryTextRat : BinaryText ℚ where
  value := binaryOfRat
  text_eq _ := rfl

theorem isUnsigned_of_nonneg {q : ℚ} (h : 0 ≤ q) : IsUnsigned q := by
  have hsign : decide (q < 0) = false := decide_eq_false (not_lt.mpr h)
  exact ⟨_, _, congrArg (Binary.finite · _ _) hsign⟩

theorem unsignedNumerals_rat : UnsignedNumerals ℚ where
  one := isUnsigned_of_nonneg zero_le_one
  ofNumeral n _ := isUnsigned_of_nonneg (by simp only [DecimalText.ofNumeral]; positivity)

/-- A weight reads back if one of the numerals is both what its decimal is taken as and its
value. -/
theorem readsBack_of_numeral {q : ℚ} {n : Numeral}
    (hread : Numeral.read? (DecimalText.text q) = some (n, []))
    (hvalue : (DecimalText.ofNumeral n : ℚ) = q) : ReadsBack q := by
  intro n' hn'
  rw [hread] at hn'
  cases hn'
  exact hvalue

theorem readsBack_one : ReadsBack (1 : ℚ) :=
  readsBack_of_numeral (n := ⟨1, 0⟩) (by decide +kernel) (by norm_num [DecimalText.ofNumeral])

/-- Labels that are empty, begin with a small letter, or have a bracket and a line break in them;
words that look like a comment, or end with a backslash. -/
def oddRules : Ruleset ℚ :=
  [{ head := "a>b\\\n", body := [.nonterminal "", .terminal "//", .nonterminal "-"],
     weight := 1 / 4, language := some "en-GB" },
   { head := "np", body := [.terminal "\"\\"], weight := 3 / 4 },
   { head := "S|NP_VP", body := [.nonterminal "_,"], weight := 1 }]

theorem readsBack_oddRules : ∀ rule ∈ oddRules, ReadsBack rule.weight := by
  have hquarter : ReadsBack (1 / 4 : ℚ) :=
    readsBack_of_numeral (n := ⟨25, -2⟩) (by decide +kernel) (by norm_num [DecimalText.ofNumeral])
  have hrest : ReadsBack (3 / 4 : ℚ) :=
    readsBack_of_numeral (n := ⟨75, -2⟩) (by decide +kernel) (by norm_num [DecimalText.ofNumeral])
  simp only [oddRules, List.forall_mem_cons]
  exact ⟨hquarter, hrest, readsBack_one, by simp⟩

theorem unsigned_oddRules : ∀ rule ∈ oddRules,
    IsUnsigned rule.weight ∧ ∀ l, rule.language = some l → IsTag l := by
  have hchars : "en-GB".toList.all Label.isNameChar = true := by decide
  have htag : IsTag "en-GB" := ⟨by decide, List.all_eq_true.mp hchars⟩
  simp only [oddRules, List.forall_mem_cons]
  refine ⟨⟨isUnsigned_of_nonneg (by norm_num), ?_⟩, ⟨isUnsigned_of_nonneg (by norm_num), ?_⟩,
    ⟨isUnsigned_of_nonneg zero_le_one, ?_⟩, by simp⟩
  · intro l hl
    cases hl
    exact htag
  · intro l hl
    cases hl
  · intro l hl
    cases hl

/-- Odd names are read back from what is written, twice. -/
theorem readRules_text_oddRules :
    readRules oddRules.text.toList = .ok oddRules ∧
      counts oddRules.text = .ok oddRules ∧
        ∀ source, counts source = .ok oddRules → readRules oddRules.text.toList = .ok oddRules := by
  obtain ⟨hwritten, hread⟩ := readRules_text_eq_ok oddRules readsBack_oddRules
  have hrules : readRules oddRules.text.toList = .ok oddRules := hwritten unsigned_oddRules
  have hvalid : Ruleset.validate .counts oddRules = .ok () :=
    Ruleset.validate_eq_ok_iff.mpr (by decide +kernel)
  have hcounts : counts oddRules.text = .ok oddRules :=
    bind_eq_ok_iff.mpr ⟨_, mapError_eq_ok_iff.mpr hrules,
      bind_eq_ok_iff.mpr ⟨_, mapError_eq_ok_iff.mpr hvalid, rfl⟩⟩
  exact ⟨hrules, hcounts, hread unsignedNumerals_rat⟩

end GrammarFile

end Constituency
