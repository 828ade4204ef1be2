import Constituency.GrammarFile.Reader
import Constituency.Proofs.Decimal.Spelling

/-!
# Written parts are read back

A label, a word, a language and a weight are read back from their written forms, whatever follows,
as long as it cannot belong to a name. For a symbol this holds of all texts: a text that could be
taken for something else is written between delimiters.
-/
namespace Constituency

open Decimal
open Except (bind_eq_ok_iff mapError_eq_ok_iff)

namespace Label

theorem toNat_of_isNameChar {c : Char} (h : isNameChar c = true) :
    c.toNat = 45 ∨ 48 ≤ c.toNat ∧ c.toNat ≤ 124 := by
  simp only [isNameChar, Bool.or_eq_true, decide_eq_true_eq] at h
  rcases h with ((h | rfl) | rfl) | rfl
  · change ((decide (65 ≤ c.val ∧ c.val ≤ 90) || (decide (97 ≤ c.val) && decide (c.val ≤ 122))) ||
      (decide (48 ≤ c.val) && decide (c.val ≤ 57))) = true at h
    simp only [Bool.or_eq_true, Bool.and_eq_true, decide_eq_true_eq, UInt32.le_iff_toNat_le,
      Char.toNat_val] at h
    simp at h
    omega
  · left; rfl
  · right; decide
  · right; decide

theorem isNameChar_of_isDigit {c : Char} (h : c.isDigit = true) : isNameChar c = true := by
  simp [isNameChar, Char.isAlphanum, h]

/-- No character of a name is a blank. -/
theorem isBlank_of_isNameChar {c : Char} (h : isNameChar c = true) : Text.isBlank c = false := by
  have hrange := toNat_of_isNameChar h
  simp only [Text.isBlank, Bool.or_eq_false_iff, Bool.and_eq_false_iff, decide_eq_false_iff_not]
  omega

/-- A plain label consists of characters of names and does not begin with a lower-case letter. -/
theorem exists_cons_of_isPlain {label : String} (h : isPlain label = true) :
    ∃ c rest, label.toList = c :: rest ∧ c.isLower = false ∧
      ∀ d ∈ c :: rest, isNameChar d = true := by
  unfold isPlain at h
  split at h
  · cases h
  · rename_i c rest heq
    simp only [Bool.and_eq_true, Bool.not_eq_true', List.all_eq_true] at h
    exact ⟨c, rest, heq, h.1, h.2⟩

end Label

namespace GrammarFile

/-- Whether a symbol can begin with a character. -/
def beginsSymbol (c : Char) : Bool :=
  c = '"' || c = '<' || Label.isNameChar c

/-- Whether a text does not go on with a name. -/
def EndsName (rest : List Char) : Prop :=
  ∀ c ∈ rest.head?, Label.isNameChar c = false

variable {c : Char} {rest : List Char}

theorem endsName_cons (h : Label.isNameChar c = false) (rest : List Char) :
    EndsName (c :: rest) := by
  simpa [EndsName] using h

/-! ### What stands between the parts -/

theorem skipBlanks_nil : skipBlanks [] = [] := rfl

theorem skipBlanks_of_isBlank (h : Text.isBlank c = true) :
    skipBlanks (c :: rest) = skipBlanks rest := by
  simp [skipBlanks, skipFrom, h]

/-- Nothing is dropped in front of a character that is neither a blank nor begins a comment. -/
theorem skipBlanks_eq_self (h : Text.isBlank c = false) (hc : c ≠ '/') :
    skipBlanks (c :: rest) = c :: rest := by
  simp [skipBlanks, skipFrom, h, hc]

theorem skipBlanks_space : skipBlanks (' ' :: rest) = skipBlanks rest :=
  skipBlanks_of_isBlank (by decide)

theorem skipBlanks_of_beginsSymbol (h : beginsSymbol c = true) :
    skipBlanks (c :: rest) = c :: rest := by
  simp only [beginsSymbol, Bool.or_eq_true, decide_eq_true_eq] at h
  rcases h with (rfl | rfl) | h
  · exact skipBlanks_eq_self (by decide) (by decide)
  · exact skipBlanks_eq_self (by decide) (by decide)
  · refine skipBlanks_eq_self (Label.isBlank_of_isNameChar h) ?_
    rintro rfl
    revert h
    decide

theorem endsBody_of_beginsSymbol (h : beginsSymbol c = true) : endsBody (c :: rest) = false := by
  have hne : c ≠ '[' ∧ c ≠ '@' ∧ c ≠ ';' := by
    refine ⟨?_, ?_, ?_⟩ <;> · rintro rfl; revert h; decide
  simp [endsBody, hne]

theorem skipFrom_comment {text cs : List Char} (htext : '\n' ∉ text)
    (hline : ∀ c ∈ cs.head?, c = '\n') : skipFrom true (text ++ cs) = skipBlanks cs := by
  induction text with
  | nil =>
    cases cs with
    | nil => rfl
    | cons c cs =>
      obtain rfl := hline c rfl
      rw [skipBlanks_of_isBlank (by decide)]
      rfl
  | cons c text ih =>
    rw [List.mem_cons, not_or] at htext
    obtain ⟨hc, htext⟩ := htext
    have hne : c ≠ '\n' := Ne.symm hc
    simp [skipFrom, hne, ih htext]

/-- Two slashes are dropped with the rest of the line. -/
theorem skipBlanks_slashes {text cs : List Char} (htext : '\n' ∉ text)
    (hline : ∀ c ∈ cs.head?, c = '\n') :
    skipBlanks ('/' :: '/' :: (text ++ cs)) = skipBlanks cs := by
  rw [← skipFrom_comment htext hline]
  simp [skipBlanks, skipFrom, Text.isBlank]

/-! ### Names, labels and words -/

theorem readName_append {name : List Char} (hne : name ≠ [])
    (hname : ∀ c ∈ name, Label.isNameChar c = true) (hrest : EndsName rest) :
    readName (name ++ rest) = .ok (String.ofList name, rest) := by
  obtain ⟨htake, hdrop⟩ := span_append hname hrest
  simp [readName, htake, hdrop, hne]

theorem readDelimited_written (place : Place) (expected : Expected) (opening : Char) {close : Char}
    (hclose : close ≠ '\\') (hline : close ≠ '\n') (text rest : List Char) :
    readDelimited place expected close (Text.Delimited.written opening close text ++ rest) =
      .ok (String.ofList text, rest) := by
  have hread := Text.Delimited.read?_encode hclose hline text rest
  simp [readDelimited, Text.Delimited.written, hread]

/-- A symbol begins with a character that can begin one. -/
theorem exists_cons_written (symbol : Symbol) :
    ∃ c rest, symbol.written = c :: rest ∧ beginsSymbol c = true := by
  cases symbol with
  | terminal word => exact ⟨_, _, rfl, by decide⟩
  | nonterminal label =>
    simp only [Symbol.written, Label.written]
    split
    · rename_i hplain
      obtain ⟨c, rest, heq, -, hname⟩ := Label.exists_cons_of_isPlain hplain
      refine ⟨c, rest, heq, ?_⟩
      simp [beginsSymbol, hname c List.mem_cons_self]
    · exact ⟨_, _, rfl, by decide⟩

/-- A name is a word if a lower-case letter begins it, and a label otherwise. -/
theorem readSymbol_name {name : List Char} (hname : ∀ d ∈ c :: name, Label.isNameChar d = true)
    (hrest : EndsName rest) :
    readSymbol (c :: name ++ rest) =
      .ok (if c.isLower then .terminal (String.ofList (c :: name))
        else .nonterminal (String.ofList (c :: name)), rest) := by
  have hne : c ≠ '"' ∧ c ≠ '<' := by
    have hc := hname c List.mem_cons_self
    refine ⟨?_, ?_⟩ <;> · rintro rfl; revert hc; decide
  have hread := readName_append (List.cons_ne_nil c name) hname hrest
  unfold readSymbol
  split
  · rename_i hhead
    exact absurd (Option.some.inj hhead) hne.1
  · rename_i hhead
    exact absurd (Option.some.inj hhead) hne.2
  · exact bind_eq_ok_iff.mpr ⟨_, mapError_eq_ok_iff.mpr hread, rfl⟩

/-- A plain label is read as a name, and not as a word. -/
theorem readSymbol_of_isPlain {label : String} (h : Label.isPlain label = true)
    (hrest : EndsName rest) :
    readSymbol (label.toList ++ rest) = .ok (.nonterminal label, rest) := by
  obtain ⟨c, cs, heq, hlower, hname⟩ := Label.exists_cons_of_isPlain h
  have hlabel : String.ofList (c :: cs) = label := by rw [← heq, String.ofList_toList]
  rw [heq, readSymbol_name hname hrest, hlower, hlabel]
  rfl

/-- A symbol is read back, whatever its text is. -/
theorem readSymbol_written (symbol : Symbol) (hrest : EndsName rest) :
    readSymbol (symbol.written ++ rest) = .ok (symbol, rest) := by
  cases symbol with
  | terminal word =>
    have hread := readDelimited_written .quotedWord .quotedWord '"' (by decide : '"' ≠ '\\')
      (by decide) word.toList rest
    refine bind_eq_ok_iff.mpr ⟨_, hread, ?_⟩
    rw [String.ofList_toList]
    rfl
  | nonterminal label =>
    simp only [Symbol.written, Label.written]
    split
    · rename_i hplain
      exact readSymbol_of_isPlain hplain hrest
    · have hread := readDelimited_written .label .label '<' (by decide : '>' ≠ '\\')
        (by decide) label.toList rest
      refine bind_eq_ok_iff.mpr ⟨_, hread, ?_⟩
      rw [String.ofList_toList]
      rfl

theorem readHead_written (label : String) (hrest : EndsName rest) :
    readHead (Label.written label ++ rest) = .ok (label, rest) := by
  have hread := readSymbol_written (.nonterminal label) hrest
  exact bind_eq_ok_iff.mpr ⟨_, mapError_eq_ok_iff.mpr hread, rfl⟩

/-! ### Bodies, weights and languages -/

/-- Symbols with a space before each are read back up to the weight. -/
theorem readBody_written (body : List Symbol) (rest : List Char) :
    readBody (body.flatMap (fun s => ' ' :: s.written) ++ ' ' :: '[' :: rest) =
      .ok (body, '[' :: rest) := by
  induction body with
  | nil =>
    have hskip : skipBlanks (' ' :: '[' :: rest) = '[' :: rest := by
      rw [skipBlanks_space, skipBlanks_eq_self (by decide) (by decide)]
    rw [List.flatMap_nil, List.nil_append, readBody_eq, hskip]
    rfl
  | cons symbol body ih =>
    obtain ⟨c, cs, hwritten, hbegins⟩ := exists_cons_written symbol
    have hbehind : EndsName (body.flatMap (fun s => ' ' :: s.written) ++ ' ' :: '[' :: rest) := by
      cases body <;> exact endsName_cons (by decide) _
    have hread := readSymbol_written symbol hbehind
    rw [hwritten, List.cons_append] at hread
    rw [List.flatMap_cons, List.append_assoc, hwritten, List.cons_append, List.cons_append,
      readBody_eq, skipBlanks_space, skipBlanks_of_beginsSymbol hbegins,
      endsBody_of_beginsSymbol hbegins, if_neg (by decide)]
    exact bind_eq_ok_iff.mpr ⟨_, hread, bind_eq_ok_iff.mpr ⟨_, ih, rfl⟩⟩

/-- A plain decimal between square brackets is taken as a weight. -/
theorem readWeight_of_isPlain {cs : List Char} (h : IsPlain cs) :
    ∃ n, Numeral.read? cs = some (n, []) ∧
      ∀ rest, readWeight ('[' :: (cs ++ ']' :: rest)) = .ok (some n, rest) := by
  obtain ⟨n, hn, hrest⟩ := h.read?
  obtain ⟨d, ds, hcons, hd⟩ := h.exists_cons
  have hname := Label.isNameChar_of_isDigit hd
  refine ⟨n, hn, fun rest => ?_⟩
  have hskip : skipBlanks (cs ++ ']' :: rest) = cs ++ ']' :: rest := by
    rw [hcons, List.cons_append]
    exact skipBlanks_of_beginsSymbol (by simp [beginsSymbol, hname])
  have hnumber : readNumber (skipBlanks (cs ++ ']' :: rest)) = .ok (n, ']' :: rest) := by
    rw [hskip, readNumber, hrest _ (endsNumber_cons (by decide) rest)]
  have hclose : readMark ']' (skipBlanks (']' :: rest)) = .ok ((), rest) := by
    rw [skipBlanks_eq_self (by decide) (by decide)]
    simp [readMark]
  exact bind_eq_ok_iff.mpr ⟨_, hnumber, bind_eq_ok_iff.mpr ⟨_, hclose, rfl⟩⟩

/-- Whether a text can mark the language of a rule. -/
def IsTag (language : String) : Prop :=
  language ≠ "" ∧ ∀ c ∈ language.toList, Label.isNameChar c = true

theorem readLanguage_written {language : String} (h : IsTag language) (hrest : EndsName rest) :
    readLanguage ('@' :: (language.toList ++ rest)) = .ok (some language, rest) := by
  have hne : language.toList ≠ [] := fun hnil => h.1 (String.toList_eq_nil_iff.mp hnil)
  have hread := readName_append hne h.2 hrest
  rw [String.ofList_toList] at hread
  exact bind_eq_ok_iff.mpr ⟨_, mapError_eq_ok_iff.mpr hread, rfl⟩

end GrammarFile

end Constituency
