import Constituency.GrammarFile.Reader
import Constituency.Proofs.GrammarFile.Lexemes

/-!
# The format of grammar files

When a text is a list of rules, said without reading it from left to right.
`SymbolAt symbol cs rest` says that the text `cs` begins with a spelling of the symbol and goes on
with `rest`; the other relations between a text and what it goes on with are read in the same way.
Only names depend on what follows: a name is as long as possible.
-/
namespace Constituency.GrammarFile

open Decimal

variable {α : Type}

/-- Blanks and comments, in any order. A comment goes on to the end of its line. -/
inductive Gap : List Char → List Char → Prop where
  | nil (rest : List Char) : Gap rest rest
  | blank {c : Char} {cs rest : List Char} (hc : Text.isBlank c = true) (h : Gap cs rest) :
      Gap (c :: cs) rest
  | comment {text cs rest : List Char} (htext : '\n' ∉ text) (hline : ∀ c ∈ cs.head?, c = '\n')
      (h : Gap cs rest) : Gap ('/' :: '/' :: (text ++ cs)) rest

/-- A text whose closing delimiters and backslashes are escaped. Other characters may be escaped
too, but for a line break. -/
inductive Escaped (close : Char) : List Char → List Char → Prop where
  | nil : Escaped close [] []
  | plain {c : Char} {text raw : List Char} (hclose : c ≠ close) (hescape : c ≠ '\\')
      (h : Escaped close text raw) : Escaped close (c :: text) (c :: raw)
  | escaped {c : Char} {text raw : List Char} (hline : c ≠ '\n') (h : Escaped close text raw) :
      Escaped close (c :: text) ('\\' :: c :: raw)

/-- A quoted word, a label between angle brackets, or a name: a word if a lower-case letter begins
it, a label otherwise. -/
inductive SymbolAt : Symbol → List Char → List Char → Prop where
  | quoted {word raw : List Char} (h : Escaped '"' word raw) (rest : List Char) :
      SymbolAt (.terminal (String.ofList word)) ('"' :: (raw ++ '"' :: rest)) rest
  | bracketed {label raw : List Char} (h : Escaped '>' label raw) (rest : List Char) :
      SymbolAt (.nonterminal (String.ofList label)) ('<' :: (raw ++ '>' :: rest)) rest
  | word {c : Char} {name rest : List Char} (hname : ∀ d ∈ c :: name, Label.isNameChar d = true)
      (hlower : c.isLower = true) (hrest : EndsName rest) :
      SymbolAt (.terminal (String.ofList (c :: name))) (c :: name ++ rest) rest
  | label {c : Char} {name rest : List Char} (hname : ∀ d ∈ c :: name, Label.isNameChar d = true)
      (hlower : c.isLower = false) (hrest : EndsName rest) :
      SymbolAt (.nonterminal (String.ofList (c :: name))) (c :: name ++ rest) rest

/-- A power of ten behind a number, with a sign or without one, if it is given. -/
inductive ExponentText : Int → List Char → Prop where
  | none : ExponentText 0 []
  | unsigned {mark : Char} {ds : List Char} (hmark : mark = 'e' ∨ mark = 'E') (hne : ds ≠ [])
      (hds : ∀ d ∈ ds, d.isDigit = true) : ExponentText (valueOf ds) (mark :: ds)
  | plus {mark : Char} {ds : List Char} (hmark : mark = 'e' ∨ mark = 'E') (hne : ds ≠ [])
      (hds : ∀ d ∈ ds, d.isDigit = true) : ExponentText (valueOf ds) (mark :: '+' :: ds)
  | minus {mark : Char} {ds : List Char} (hmark : mark = 'e' ∨ mark = 'E') (hne : ds ≠ [])
      (hds : ∀ d ∈ ds, d.isDigit = true) : ExponentText (-valueOf ds) (mark :: '-' :: ds)

/-- Digits, or digits that may be missing, a point and digits; then a power of ten. -/
inductive NumberText : Numeral → List Char → Prop where
  | whole {ds cs : List Char} {exponent : Int} (hne : ds ≠ []) (hds : ∀ d ∈ ds, d.isDigit = true)
      (h : ExponentText exponent cs) : NumberText (.ofDigits ds [] exponent) (ds ++ cs)
  | pointed {whole fraction cs : List Char} {exponent : Int}
      (hwhole : ∀ d ∈ whole, d.isDigit = true) (hne : fraction ≠ [])
      (hfraction : ∀ d ∈ fraction, d.isDigit = true) (h : ExponentText exponent cs) :
      NumberText (.ofDigits whole fraction exponent) (whole ++ '.' :: (fraction ++ cs))

/-- A number in square brackets, if it is given. -/
inductive WeightAt : Option Numeral → List Char → List Char → Prop where
  | none (rest : List Char) : WeightAt none rest rest
  | some {n : Numeral} {cs number behind rest : List Char} (hopen : Gap cs (number ++ behind))
      (hnumber : NumberText n number) (hclose : Gap behind (']' :: rest)) :
      WeightAt (some n) ('[' :: cs) rest

/-- A name behind an at sign, if it is given. -/
inductive LanguageAt : Option String → List Char → List Char → Prop where
  | none (rest : List Char) : LanguageAt none rest rest
  | some {name rest : List Char} (hne : name ≠ []) (hname : ∀ c ∈ name, Label.isNameChar c = true)
      (hrest : EndsName rest) :
      LanguageAt (some (String.ofList name)) ('@' :: (name ++ rest)) rest

/-- Symbols, each of them behind a gap. -/
inductive BodyAt : List Symbol → List Char → List Char → Prop where
  | nil (rest : List Char) : BodyAt [] rest rest
  | cons {symbol : Symbol} {symbols : List Symbol} {cs found behind rest : List Char}
      (hgap : Gap cs found) (hsymbol : SymbolAt symbol found behind)
      (h : BodyAt symbols behind rest) : BodyAt (symbol :: symbols) cs rest

/-- A label, an arrow, symbols, a weight and a language if they are given, and a semicolon, with
gaps between them. The weight is one if it is not given. -/
inductive RuleAt [Weight α] [DecimalText α] : Rule α → List Char → List Char → Prop where
  | mk {head : String} {body : List Symbol} {weight : Option Numeral} {language : Option String}
      {cs behindHead behindArrow behindBody weightText behindWeight languageText behindLanguage
        rest : List Char}
      (hhead : SymbolAt (.nonterminal head) cs behindHead)
      (harrow : Gap behindHead ('-' :: '>' :: behindArrow))
      (hbody : BodyAt body behindArrow behindBody)
      (hweightGap : Gap behindBody weightText)
      (hweight : WeightAt weight weightText behindWeight)
      (hlanguageGap : Gap behindWeight languageText)
      (hlanguage : LanguageAt language languageText behindLanguage)
      (hend : Gap behindLanguage (';' :: rest)) :
      RuleAt { head, body, weight := (weight.map DecimalText.ofNumeral).getD 1, language } cs rest

/-- Rules with gaps before, between and behind them. -/
inductive RulesIn [Weight α] [DecimalText α] : Ruleset α → List Char → Prop where
  | nil {cs : List Char} (hgap : Gap cs []) : RulesIn [] cs
  | cons {rule : Rule α} {rules : Ruleset α} {cs found behind : List Char} (hgap : Gap cs found)
      (hrule : RuleAt rule found behind) (h : RulesIn rules behind) : RulesIn (rule :: rules) cs

end Constituency.GrammarFile
