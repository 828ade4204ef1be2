import Constituency.NormalForm.Binarization
import Constituency.NormalForm.TerminalExtraction
import Constituency.Proofs.Ruleset.Frames

/-!
# Plain names

The labels that a normal form makes up contain a bar or begin with an underscore. If the names of a
list of rules contain neither character, the labels made up are new, and a synthetic label gives
away the head and the two symbols that it is made of: the last bar ends the head, and the next
underscore the first symbol.
-/
namespace Constituency

/-- A name without the characters that mark labels made up. -/
def IsPlainName (name : String) : Prop :=
  '|' ∉ name.toList ∧ '_' ∉ name.toList

instance : DecidablePred IsPlainName := fun _ => inferInstanceAs (Decidable (_ ∧ _))

/-- A character that occurs once in what follows it marks one place. -/
theorem append_cons_cancel {c : Char} {l l' r r' : List Char} (hr : c ∉ r) (hr' : c ∉ r')
    (h : l ++ c :: r = l' ++ c :: r') : l = l' ∧ r = r' := by
  induction l generalizing l' with
  | nil =>
    cases l' with
    | nil => simpa using h
    | cons d l' =>
      rw [List.nil_append, List.cons_append, List.cons.injEq] at h
      exact absurd (h.2 ▸ List.mem_append_right l' List.mem_cons_self) hr
  | cons d l ih =>
    cases l' with
    | nil =>
      rw [List.nil_append, List.cons_append, List.cons.injEq] at h
      exact absurd (h.2 ▸ List.mem_append_right l List.mem_cons_self) hr'
    | cons d' l' =>
      rw [List.cons_append, List.cons_append, List.cons.injEq] at h
      obtain ⟨hl, hrest⟩ := ih h.2
      exact ⟨by rw [h.1, hl], hrest⟩

theorem toList_syntheticLabel (head : String) (first second : Symbol) :
    (syntheticLabel head first second).toList =
      head.toList ++ '|' :: (first.name.toList ++ '_' :: second.name.toList) := by
  simp [syntheticLabel]

theorem bar_mem_syntheticLabel (head : String) (first second : Symbol) :
    '|' ∈ (syntheticLabel head first second).toList := by
  rw [toList_syntheticLabel]
  exact List.mem_append_right _ List.mem_cons_self

/-- A synthetic label tells what it is made of. -/
theorem syntheticLabel_injective {head head' : String} {first second first' second' : Symbol}
    (hf : IsPlainName first.name) (hs : IsPlainName second.name) (hf' : IsPlainName first'.name)
    (hs' : IsPlainName second'.name)
    (h : syntheticLabel head first second = syntheticLabel head' first' second') :
    head = head' ∧ first.name = first'.name ∧ second.name = second'.name := by
  have hl := congrArg String.toList h
  rw [toList_syntheticLabel, toList_syntheticLabel] at hl
  have hbar : ∀ a b : Symbol, IsPlainName a.name → IsPlainName b.name →
      '|' ∉ a.name.toList ++ '_' :: b.name.toList := by
    intro a b ha hb
    simp [ha.1, hb.1]
  obtain ⟨hhead, hrest⟩ := append_cons_cancel (hbar first second hf hs)
    (hbar first' second' hf' hs') hl
  obtain ⟨hfirst, hsecond⟩ := append_cons_cancel hs.2 hs'.2 hrest
  exact ⟨String.toList_inj.mp hhead, String.toList_inj.mp hfirst, String.toList_inj.mp hsecond⟩

theorem toList_unitLabel (word : String) : (unitLabel word).toList = '_' :: word.toList := by
  simp [unitLabel]

/-- A unit label tells its word. -/
theorem unitLabel_injective {word word' : String} (h : unitLabel word = unitLabel word') :
    word = word' := by
  have hl := congrArg String.toList h
  rw [toList_unitLabel, toList_unitLabel, List.cons.injEq] at hl
  exact String.toList_inj.mp hl.2

/-- A label that begins with another character is no unit label. -/
theorem ne_unitLabel_of_head? {label word : String} (h : label.toList.head? ≠ some '_') :
    label ≠ unitLabel word := by
  rintro rfl
  rw [toList_unitLabel] at h
  exact h rfl

/-- A label that is no unit label of a plain word: it has no underscore, or it has a bar. -/
def IsNoUnit (label : String) : Prop :=
  '_' ∉ label.toList ∨ '|' ∈ label.toList

theorem IsNoUnit.ne_unitLabel {label word : String} (h : IsNoUnit label)
    (hw : IsPlainName word) : label ≠ unitLabel word := by
  rintro rfl
  rw [IsNoUnit, toList_unitLabel] at h
  rcases h with h | h
  · exact h List.mem_cons_self
  · simp [hw.1] at h

namespace Ruleset

variable {α : Type} {rules others : Ruleset α}

/-- All symbols of a list of rules, at heads and in bodies. -/
def symbols (rules : Ruleset α) : List Symbol :=
  rules.flatMap fun rule => .nonterminal rule.head :: rule.body

theorem mem_symbols {symbol : Symbol} :
    symbol ∈ rules.symbols ↔
      ∃ head body, rules.Has head body ∧ (symbol = .nonterminal head ∨ symbol ∈ body) := by
  simp only [symbols, List.mem_flatMap, List.mem_cons, Has]
  constructor
  · rintro ⟨rule, hr, hs⟩
    exact ⟨_, _, ⟨rule, hr, rfl, rfl⟩, hs⟩
  · rintro ⟨_, _, ⟨rule, hr, rfl, rfl⟩, hs⟩
    exact ⟨rule, hr, hs⟩

theorem Has.head_mem_symbols {head : String} {body : List Symbol} (h : rules.Has head body) :
    .nonterminal head ∈ rules.symbols :=
  mem_symbols.mpr ⟨head, body, h, .inl rfl⟩

theorem Has.mem_symbols_of_mem {head : String} {body : List Symbol} (h : rules.Has head body)
    {symbol : Symbol} (hs : symbol ∈ body) : symbol ∈ rules.symbols :=
  mem_symbols.mpr ⟨head, body, h, .inr hs⟩

theorem mem_nonterminals {label : String} :
    label ∈ rules.nonterminals ↔ .nonterminal label ∈ rules.symbols := by
  have hlabel : ∀ s : Symbol, s.label? = some label ↔ s = .nonterminal label := by
    intro s
    cases s <;> simp [Symbol.label?]
  simp only [nonterminals, symbols, Std.TreeSet.mem_toList, Std.TreeSet.mem_ofList,
    List.contains_iff_mem, List.mem_flatMap, List.mem_cons, List.mem_filterMap, hlabel,
    exists_eq_right, Symbol.nonterminal.injEq]

/-- No name has a character that marks labels made up, and none is both a word and a label. -/
structure PlainNames (rules : Ruleset α) : Prop where
  plain : ∀ symbol ∈ rules.symbols, IsPlainName symbol.name
  apart : ∀ symbol ∈ rules.symbols, ∀ other ∈ rules.symbols, symbol.name = other.name →
    symbol.isTerminal = other.isTerminal

namespace PlainNames

theorem mono (h : rules.PlainNames) (hs : ∀ symbol ∈ others.symbols, symbol ∈ rules.symbols) :
    others.PlainNames :=
  ⟨fun s hm => h.plain s (hs s hm), fun s hm t ht => h.apart s (hs s hm) t (hs t ht)⟩

/-- With plain names a name tells the symbol. -/
theorem name_injective (h : rules.PlainNames) {s t : Symbol} (hs : s ∈ rules.symbols)
    (ht : t ∈ rules.symbols) (hn : s.name = t.name) : s = t := by
  have hkind := h.apart s hs t ht hn
  cases s <;> cases t <;> simp_all [Symbol.name, Symbol.isTerminal]

end PlainNames

end Ruleset

end Constituency
