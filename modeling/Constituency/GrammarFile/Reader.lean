import Constituency.Basics
import Constituency.GrammarFile.Lexeme
import Constituency.Ruleset.Validation

/-!
# Reading rules

A grammar file is a list of rules: a label, an arrow, symbols, a weight and a language if they are
given, and a semicolon. A rule without a weight has weight one. Each part that is taken shortens the
text, so that reading ends.
-/
namespace Constituency.GrammarFile

open Except (bind_eq_ok_iff mapError_eq_ok_iff)

variable {α : Type}

theorem length_skipFrom_le (comment : Bool) (cs : List Char) :
    (skipFrom comment cs).length ≤ cs.length := by
  fun_induction skipFrom comment cs <;> simp_all <;> omega

theorem length_read?_lt {close : Char} {cs text rest : List Char}
    (h : Text.Delimited.read? close cs = some (text, rest)) : rest.length < cs.length := by
  fun_induction Text.Delimited.read? close cs generalizing text rest with
  | case1 | case2 | case3 => simp at h
  | case4 =>
    rename_i ih
    obtain ⟨⟨text', rest'⟩, hr, he⟩ := Option.map_eq_some_iff.mp h
    have := ih hr
    cases he
    simp only [List.length_cons]; omega
  | case5 => simp_all
  | case6 =>
    rename_i ih
    obtain ⟨⟨text', rest'⟩, hr, he⟩ := Option.map_eq_some_iff.mp h
    have := ih hr
    cases he
    simp only [List.length_cons]; omega

theorem length_readDelimited_lt {place : Place} {expected : Expected} {close : Char}
    {cs rest : List Char} {text : String}
    (h : readDelimited place expected close cs = .ok (text, rest)) : rest.length < cs.length := by
  unfold readDelimited at h
  split at h
  · rename_i hr
    cases h
    have := length_read?_lt hr
    simp only [List.length_tail] at this
    omega
  · cases h

theorem length_readName_lt {cs rest : List Char} {name : String}
    (h : readName cs = .ok (name, rest)) : rest.length < cs.length := by
  simp only [readName] at h
  split at h
  · cases h
  · rename_i hne
    cases h
    have hl := congrArg List.length
      (List.takeWhile_append_dropWhile (p := Label.isNameChar) (l := cs))
    have := List.length_pos_iff.mpr hne
    rw [List.length_append] at hl
    omega

/-- A symbol takes at least one character. -/
theorem length_readSymbol_lt {cs rest : List Char} {symbol : Symbol}
    (h : readSymbol cs = .ok (symbol, rest)) : rest.length < cs.length := by
  unfold readSymbol at h
  split at h
  · cases hr : readDelimited .quotedWord .quotedWord '"' cs with
    | error => rw [hr] at h; cases h
    | ok r => rw [hr] at h; cases h; exact length_readDelimited_lt hr
  · cases hr : readDelimited .label .label '>' cs with
    | error => rw [hr] at h; cases h
    | ok r => rw [hr] at h; cases h; exact length_readDelimited_lt hr
  · cases hr : readName cs with
    | error => rw [hr] at h; cases h
    | ok r => rw [hr] at h; cases h; exact length_readName_lt hr

/-- Whether a text goes on behind the body of a rule. -/
def endsBody (cs : List Char) : Bool :=
  match cs.head? with
  | some c => c = '[' || c = '@' || c = ';'
  | none => false

/-- Takes symbols up to the weight, the language or the end of a rule. -/
def readBody (cs : List Char) : Except ReadError (Taken (List Symbol)) :=
  let found := skipBlanks cs
  if endsBody found then .ok ([], found)
  else
    match _h : readSymbol found with
    | .error e => .error e
    | .ok (symbol, rest) => do
      let (symbols, rest) ← readBody rest
      return (symbol :: symbols, rest)
termination_by cs.length
decreasing_by
  exact Nat.lt_of_lt_of_le (length_readSymbol_lt (by assumption)) (length_skipFrom_le false cs)

theorem readBody_eq (cs : List Char) :
    readBody cs =
      if endsBody (skipBlanks cs) then .ok ([], skipBlanks cs)
      else do
        let (symbol, rest) ← readSymbol (skipBlanks cs)
        let (symbols, rest) ← readBody rest
        return (symbol :: symbols, rest) := by
  rw [readBody]
  split
  · rfl
  · split <;> rename_i h <;> rw [h] <;> rfl

/-- Takes a label as the head of a rule. -/
def readHead (cs : List Char) : Except ReadError (Taken String) := do
  match ← atPlace .head (readSymbol cs) with
  | (.nonterminal label, rest) => return (label, rest)
  | (.terminal word, rest) => throw (.terminalHead word rest)

/-- Takes a rule. -/
def readRule [Weight α] [DecimalText α] (cs : List Char) : Except ReadError (Taken (Rule α)) := do
  let (head, rest) ← readHead cs
  let (_, rest) ← readArrow (skipBlanks rest)
  let (body, rest) ← atPlace (.rule head) (readBody rest)
  let (weight, rest) ← readWeight rest
  let (language, rest) ← readLanguage (skipBlanks rest)
  let (_, rest) ← atPlace (.rule head) (readMark ';' (skipBlanks rest))
  return ({ head, body, weight := (weight.map DecimalText.ofNumeral).getD 1, language }, rest)

theorem length_skipBlanks_le (cs : List Char) : (skipBlanks cs).length ≤ cs.length :=
  length_skipFrom_le false cs

theorem length_readMark_le {mark : Char} {cs rest : List Char}
    (h : readMark mark cs = .ok ((), rest)) : rest.length ≤ cs.length := by
  unfold readMark at h
  split at h
  · cases h
  · split at h
    · cases h; simp
    · cases h

theorem length_readArrow_le {cs rest : List Char} (h : readArrow cs = .ok ((), rest)) :
    rest.length ≤ cs.length := by
  unfold readArrow at h
  split at h
  · cases h; simp only [List.length_cons]; omega
  · cases h

theorem length_readBody_le {cs rest : List Char} {body : List Symbol}
    (h : readBody cs = .ok (body, rest)) : rest.length ≤ cs.length := by
  fun_induction readBody cs generalizing body rest with
  | case1 => cases h; exact length_skipBlanks_le _
  | case2 => cases h
  | case3 =>
    rename_i cs found _ symbol tail hs ih
    obtain ⟨⟨symbols, last⟩, hb, he⟩ := bind_eq_ok_iff.mp h
    cases he
    have := ih hb
    have := length_readSymbol_lt hs
    have : found.length ≤ cs.length := length_skipBlanks_le cs
    omega

theorem length_readHead_lt {cs rest : List Char} {head : String}
    (h : readHead cs = .ok (head, rest)) : rest.length < cs.length := by
  obtain ⟨⟨symbol, rest'⟩, hs, he⟩ := bind_eq_ok_iff.mp h
  cases symbol with
  | terminal => cases he
  | nonterminal => cases he; exact length_readSymbol_lt (mapError_eq_ok_iff.mp hs)

theorem length_readWeight_le {cs rest : List Char} {weight : Option Decimal.Numeral}
    (h : readWeight cs = .ok (weight, rest)) : rest.length ≤ cs.length := by
  unfold readWeight at h
  split at h
  · rename_i tail
    obtain ⟨⟨number, rest₁⟩, hn, h⟩ := bind_eq_ok_iff.mp h
    obtain ⟨⟨_, rest₂⟩, hm, h⟩ := bind_eq_ok_iff.mp h
    cases h
    have := length_readMark_le hm
    have := length_skipBlanks_le rest₁
    have := length_skipBlanks_le tail
    have : rest₁.length ≤ (skipBlanks tail).length := by
      unfold readNumber at hn
      split at hn
      · cases hn; exact Decimal.length_read?_le (by assumption)
      · cases hn
    simp only [List.length_cons]
    omega
  · cases h; exact Nat.le_refl _

theorem length_readLanguage_le {cs rest : List Char} {language : Option String}
    (h : readLanguage cs = .ok (language, rest)) : rest.length ≤ cs.length := by
  unfold readLanguage at h
  split at h
  · obtain ⟨⟨name, rest₁⟩, hn, h⟩ := bind_eq_ok_iff.mp h
    cases h
    have := length_readName_lt (mapError_eq_ok_iff.mp hn)
    simp only [List.length_cons]
    omega
  · cases h; exact Nat.le_refl _

/-- A rule takes at least one character. -/
theorem length_readRule_lt {α : Type} [Weight α] [DecimalText α] {cs rest : List Char}
    {rule : Rule α} (h : readRule cs = .ok (rule, rest)) : rest.length < cs.length := by
  obtain ⟨⟨head, rest₁⟩, h₁, h⟩ := bind_eq_ok_iff.mp h
  obtain ⟨⟨_, rest₂⟩, h₂, h⟩ := bind_eq_ok_iff.mp h
  obtain ⟨⟨body, rest₃⟩, h₃, h⟩ := bind_eq_ok_iff.mp h
  obtain ⟨⟨weight, rest₄⟩, h₄, h⟩ := bind_eq_ok_iff.mp h
  obtain ⟨⟨language, rest₅⟩, h₅, h⟩ := bind_eq_ok_iff.mp h
  obtain ⟨⟨_, rest₆⟩, h₆, h⟩ := bind_eq_ok_iff.mp h
  cases h
  have := length_readHead_lt h₁
  have := length_skipBlanks_le rest₁
  have := length_readArrow_le h₂
  have := length_readBody_le (mapError_eq_ok_iff.mp h₃)
  have := length_readWeight_le h₄
  have := length_skipBlanks_le rest₄
  have := length_readLanguage_le h₅
  have := length_skipBlanks_le rest₅
  have := length_readMark_le (mapError_eq_ok_iff.mp h₆)
  omega

/-- Takes all rules of a text. -/
def readRules {α : Type} [Weight α] [DecimalText α] (cs : List Char) :
    Except ReadError (Ruleset α) :=
  let found := skipBlanks cs
  if found = [] then .ok []
  else
    match _h : readRule (α := α) found with
    | .error e => .error e
    | .ok (rule, rest) => do
      let rules ← readRules rest
      return rule :: rules
termination_by cs.length
decreasing_by
  exact Nat.lt_of_lt_of_le (length_readRule_lt (by assumption)) (length_skipBlanks_le cs)

theorem readRules_eq {α : Type} [Weight α] [DecimalText α] (cs : List Char) :
    (readRules cs : Except ReadError (Ruleset α)) =
      if skipBlanks cs = [] then .ok []
      else do
        let (rule, rest) ← readRule (skipBlanks cs)
        let rules ← readRules rest
        return rule :: rules := by
  rw [readRules]
  split
  · rfl
  · split <;> rename_i h <;> rw [h] <;> rfl

end Constituency.GrammarFile
