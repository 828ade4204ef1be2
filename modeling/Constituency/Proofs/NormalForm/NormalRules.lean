import Constituency.NormalForm.Conversion
import Constituency.Proofs.NormalForm.Stations
import Constituency.Proofs.NormalForm.UnaryChains
import Constituency.Proofs.NormalForm.Units

/-!
# Rules in normal form

The three steps of the conversion leave rules with one word or two labels, and the labels that they
make up are new. So the rules in normal form yield from every label the tokens that the rules given
yield from it (`yields_normalForm_iff`).
-/
namespace Constituency.Ruleset

variable {α : Type} [Weight α] {rules : Ruleset α} {head : String} {body : List Symbol}

/-- The three steps of the conversion. -/
def normalForm (rules : Ruleset α) : Ruleset α :=
  extractTerminals (binarize (eliminateUnary rules))

theorem toNormalForm_eq_ok_iff {rules' : Ruleset α} :
    rules.toNormalForm = .ok rules' ↔
      rules.validate .positiveProbabilities = .ok () ∧ rules' = rules.normalForm := by
  rw [toNormalForm]
  cases rules.validate .positiveProbabilities with
  | error e => simp [bind, Except.bind]
  | ok u => simp [bind, Except.bind, pure, Except.pure, normalForm, eq_comm]

theorem body_ne_nil_of_validate {range : WeightRange} (h : rules.validate range = .ok ())
    (hrule : rules.Has head body) : body ≠ [] := by
  obtain ⟨rule, hr, rfl, rfl⟩ := hrule
  exact (validate_eq_ok_iff.mp h rule hr).2.1

/-! ### The shapes of the rules -/

/-- Without empty and unary bodies, splitting rules leaves one word or two symbols. -/
theorem body_binarize (hempty : ∀ head body, rules.Has head body → body ≠ [])
    (hunary : ∀ head body, rules.Has head body → ∀ child, body ≠ [.nonterminal child])
    (h : rules.binarize.Has head body) :
    (∃ word, body = [.terminal word]) ∨ ∃ first second, body = [first, second] := by
  obtain ⟨rule, hr, s, hs, rfl, rfl⟩ := has_binarize_iff.mp h
  cases hn : s.next? with
  | some n =>
    obtain ⟨first, second, -, -, -, hlink⟩ := Station.next?_eq_some hn
    exact .inr ⟨first, _, hlink⟩
  | none =>
    obtain ⟨hlink, hlength⟩ := Station.linkBody_of_next?_eq_none hn
    have hrule : rules.Has rule.head rule.body := ⟨rule, hr, rfl, rfl⟩
    have hne : s.body ≠ [] := Station.body_ne_nil_of_mem_line hs (hempty _ _ hrule)
    rw [hlink]
    match hbody : s.body, hlength, hne with
    | [.terminal word], _, _ => exact .inl ⟨word, rfl⟩
    | [first, second], _, _ => exact .inr ⟨first, second, rfl⟩
    | [.nonterminal child], _, _ =>
      exfalso
      rcases Station.mem_line_iff.mp hs with rfl | ⟨p, -, hp⟩
      · exact hunary _ _ hrule child hbody
      · have hlong := Station.two_le_length_of_next? hp
        rw [hbody] at hlong
        simp at hlong

/-- Giving words unit labels leaves one word or two labels. -/
theorem body_extractTerminals (hbodies : ∀ head body, rules.Has head body →
      (∃ word, body = [.terminal word]) ∨ ∃ first second, body = [first, second])
    (h : rules.extractTerminals.Has head body) :
    (∃ word, body = [.terminal word]) ∨
      ∃ left right, body = [.nonterminal left, .nonterminal right] := by
  rcases has_extractTerminals_iff.mp h with ⟨rule, hr, rfl, rfl⟩ | ⟨word, -, -, rfl⟩
  · rcases hbodies _ _ ⟨rule, hr, rfl, rfl⟩ with ⟨word, hword⟩ | ⟨first, second, hbody⟩
    · have hmixed : rule.isMixed = false := by
        rw [Rule.isMixed, hword]
        rfl
      rw [body_lifted, hmixed]
      exact .inl ⟨word, hword⟩
    · exact .inr (body_lifted_of_two hbody)
  · exact .inl ⟨word, rfl⟩

/-- Every rule in normal form has one word or two labels. -/
theorem body_normalForm (hempty : ∀ head body, rules.Has head body → body ≠ [])
    (h : rules.normalForm.Has head body) :
    (∃ word, body = [.terminal word]) ∨
      ∃ left right, body = [.nonterminal left, .nonterminal right] := by
  refine body_extractTerminals (fun head body => ?_) h
  refine body_binarize (fun head body hrule => ?_) (fun head body hrule => ?_)
  · obtain ⟨last, -, hlast, -⟩ := has_eliminateUnary_iff.mp hrule
    exact hempty _ _ hlast
  · obtain ⟨-, -, -, hbody⟩ := has_eliminateUnary_iff.mp hrule
    exact hbody

/-! ### The labels made up -/

/-- The symbols of the links are those of the rules, and the labels of stations that come next. -/
theorem mem_symbols_of_binarize {symbol : Symbol} (h : symbol ∈ rules.binarize.symbols) :
    symbol ∈ rules.symbols ∨
      ∃ rule ∈ rules, ∃ n ∈ rule.stations, symbol = .nonterminal n.head ∧
        '|' ∈ n.head.toList := by
  obtain ⟨head, body, hrule, hsymbol⟩ := mem_symbols.mp h
  obtain ⟨rule, hr, s, hs, rfl, rfl⟩ := has_binarize_iff.mp hrule
  rcases hsymbol with rfl | hsymbol
  · rcases Station.mem_line_iff.mp hs with rfl | ⟨p, -, hp⟩
    · exact .inl (Has.head_mem_symbols ⟨rule, hr, rfl, rfl⟩)
    · obtain ⟨first, second, -, -, hhead, -⟩ := Station.next?_eq_some hp
      exact .inr ⟨rule, hr, s, hs, rfl, hhead ▸ bar_mem_syntheticLabel p.head first second⟩
  · cases hn : s.next? with
    | none =>
      rw [(Station.linkBody_of_next?_eq_none hn).1] at hsymbol
      exact .inl (mem_symbols_of_mem_stations hr hs hsymbol)
    | some n =>
      obtain ⟨first, second, hbody, -, hhead, hlink⟩ := Station.next?_eq_some hn
      rw [hlink, List.mem_cons, List.mem_singleton] at hsymbol
      rcases hsymbol with rfl | rfl
      · exact .inl (mem_symbols_of_mem_stations hr hs (hbody ▸ List.mem_cons_self))
      · exact .inr ⟨rule, hr, n, Station.mem_line_iff.mpr (.inr ⟨s, hs, hn⟩), rfl,
          hhead ▸ bar_mem_syntheticLabel s.head first second⟩

/-- Words are as plain once rules are split. -/
theorem isPlainName_of_binarize (hnames : rules.PlainNames) {word : String}
    (h : .terminal word ∈ rules.binarize.symbols) : IsPlainName word := by
  rcases mem_symbols_of_binarize h with h | ⟨rule, -, n, -, heq, -⟩
  · exact hnames.plain _ h
  · cases heq

/-- If no label has an underscore, no label is the unit label of a word once rules are split,
whatever the words are. -/
theorem unitsNew_binarize_of_labels (hlabels : ∀ label ∈ rules.nonterminals, '_' ∉ label.toList) :
    rules.binarize.UnitsNew := by
  have hstart : ∀ label ∈ rules.nonterminals, label.toList.head? ≠ some '_' :=
    fun label hl h => hlabels label hl (List.mem_of_mem_head? h)
  intro word label _ hlabel
  refine ne_unitLabel_of_head? ?_
  rcases mem_symbols_of_binarize hlabel with h | ⟨rule, hr, n, hn, heq, -⟩
  · exact hstart label (mem_nonterminals.mpr h)
  · cases heq
    have hhead := hstart _ (mem_nonterminals.mpr (Has.head_mem_symbols ⟨rule, hr, rfl, rfl⟩))
    exact fun h => hhead (Station.underscore_head?_of_mem_line hn h)

theorem unitsNew_binarize (hnames : rules.PlainNames) : rules.binarize.UnitsNew :=
  unitsNew_binarize_of_labels fun _ hl => (hnames.plain _ (mem_nonterminals.mp hl)).2

theorem plainNames_eliminateUnary (hnames : rules.PlainNames) :
    rules.eliminateUnary.PlainNames :=
  hnames.mono fun _ => mem_symbols_of_eliminateUnary

/-- Conversion to normal form keeps the language of every label with a plain name. -/
theorem yields_normalForm_iff (hnames : rules.PlainNames) {label : String}
    (hlabel : IsPlainName label) {tokens : List String} :
    Yields rules.normalForm [.nonterminal label] tokens ↔
      Yields rules [.nonterminal label] tokens := by
  have hunaryless := plainNames_eliminateUnary hnames
  have hne : ∀ word, .terminal word ∈ rules.eliminateUnary.binarize.symbols →
      label ≠ unitLabel word := by
    intro word hword
    have hnoUnit : IsNoUnit label := .inl hlabel.2
    exact hnoUnit.ne_unitLabel (isPlainName_of_binarize hunaryless hword)
  rw [normalForm, yields_extractTerminals_iff (unitsNew_binarize hunaryless) hne,
    yields_binarize_iff hunaryless hlabel, yields_eliminateUnary_iff]

end Constituency.Ruleset
