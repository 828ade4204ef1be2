import Constituency.Proofs.ExactWeights
import Constituency.Proofs.NormalForm.Stations

/-!
# What synthetic labels are made of

A synthetic label is spelled from the head of its rule and the names before and behind its place. If
no label has a bar and the names in long bodies are plain, this spelling is new and can be read in
one way only: from the end, one symbol is taken off at each station, down to the head of the rule.
-/
namespace Constituency

namespace Station

/-- The station after the first one is what comes next, all along a line. -/
theorem getElem?_line_succ (head : String) (body : List Symbol) (k : Nat) :
    (line head body)[k + 1]? = ((line head body)[k]?).bind next? := by
  fun_induction line head body generalizing k with
  | case1 head first second third rest ih =>
    rw [List.getElem?_cons_succ]
    cases k with
    | zero =>
      rw [line_eq]
      rfl
    | succ k => rw [ih, List.getElem?_cons_succ]
  | case2 head body hshort =>
    cases k with
    | zero => simp [next?_eq_none (length_le_two hshort)]
    | succ k => simp

theorem getElem?_line_zero (head : String) (body : List Symbol) :
    (line head body)[0]? = some ⟨head, body⟩ := by
  rw [line_eq]
  rfl

/-- At a station as many symbols are gone as stations have come before. -/
theorem body_eq_drop {head : String} {body : List Symbol} {k : Nat} {s : Station}
    (h : (line head body)[k]? = some s) : s.body = body.drop k := by
  induction k generalizing s with
  | zero =>
    rw [getElem?_line_zero] at h
    cases h
    rfl
  | succ k ih =>
    rw [getElem?_line_succ] at h
    obtain ⟨p, hp, hnext⟩ := Option.bind_eq_some_iff.mp h
    obtain ⟨first, -, hbody, -⟩ := next?_eq_some hnext
    rw [← List.tail_drop, ← ih hp, hbody, List.tail_cons]

/-- The label of a station behind the first one names the two symbols before and at its place. -/
theorem head_eq_of_getElem?_succ {head : String} {body : List Symbol} {k : Nat} {n : Station}
    (h : (line head body)[k + 1]? = some n) :
    ∃ s first second, (line head body)[k]? = some s ∧ body[k]? = some first ∧
      body[k + 1]? = some second ∧ n.head = syntheticLabel s.head first second := by
  rw [getElem?_line_succ] at h
  obtain ⟨s, hs, hnext⟩ := Option.bind_eq_some_iff.mp h
  obtain ⟨first, second, hbody, hsecond, hhead, -⟩ := next?_eq_some hnext
  have hdrop : body.drop k = first :: n.body := (body_eq_drop hs).symm.trans hbody
  refine ⟨s, first, second, hs, ?_, ?_, hhead⟩
  · rw [← List.head?_drop, hdrop, List.head?_cons]
  · rw [← List.head?_drop, ← List.tail_drop, hdrop, List.tail_cons, hsecond]

end Station

namespace Rule

variable {α : Type}

/-- Each link has the label of its station. -/
theorem getElem?_chain {rule : Rule α} {k : Nat} {link : Rule α} (h : rule.chain[k]? = some link) :
    ∃ s, rule.stations[k]? = some s ∧ link.head = s.head := by
  rw [chain_eq, List.getElem?_map] at h
  obtain ⟨s, hs, rfl⟩ := Option.map_eq_some_iff.mp h
  exact ⟨s, hs, rfl⟩

/-- A rule whose chain has a second station is long. -/
theorem isLong_of_getElem?_stations {rule : Rule α} {k : Nat} {n : Station}
    (h : rule.stations[k + 1]? = some n) : rule.isLong = true := by
  cases hlong : rule.isLong with
  | true => rfl
  | false =>
    rw [(stations_of_not_isLong hlong).1] at h
    simp at h

theorem mem_syntheticLabels {rule : Rule α} {label : String} :
    label ∈ rule.syntheticLabels ↔
      ∃ k link, rule.chain[k + 1]? = some link ∧ link.head = label := by
  rw [syntheticLabels, List.mem_map]
  simp only [List.mem_iff_getElem?, List.getElem?_tail]
  constructor
  · rintro ⟨link, ⟨k, hk⟩, h⟩
    exact ⟨k, link, hk, h⟩
  · rintro ⟨k, link, hk, h⟩
    exact ⟨link, ⟨k, hk⟩, h⟩

end Rule

namespace Ruleset

variable {α : Type} {rules : Ruleset α}

/-- The labels that splitting long rules makes up. -/
def syntheticLabels (rules : Ruleset α) : List String :=
  (rules.filter Rule.isLong).flatMap Rule.syntheticLabels

theorem mem_syntheticLabels {label : String} :
    label ∈ rules.syntheticLabels ↔
      ∃ rule ∈ rules, ∃ k link, rule.chain[k + 1]? = some link ∧ link.head = label := by
  simp only [syntheticLabels, List.mem_flatMap, List.mem_filter, Rule.mem_syntheticLabels]
  constructor
  · rintro ⟨rule, ⟨hr, -⟩, h⟩
    exact ⟨rule, hr, h⟩
  · rintro ⟨rule, hr, k, link, hlink, hhead⟩
    obtain ⟨s, hs, -⟩ := Rule.getElem?_chain hlink
    exact ⟨rule, ⟨hr, Rule.isLong_of_getElem?_stations hs⟩, k, link, hlink, hhead⟩

/-- The labels with rules after splitting are those with rules before, and those made up. -/
theorem exists_has_binarize_iff [Weight α] {label : String} :
    (∃ body, rules.binarize.Has label body) ↔
      (∃ rule ∈ rules, rule.head = label) ∨ label ∈ rules.syntheticLabels := by
  simp only [has_binarize_iff]
  constructor
  · rintro ⟨body, rule, hr, s, hs, rfl, -⟩
    obtain ⟨k, hk⟩ := List.mem_iff_getElem?.mp hs
    cases k with
    | zero =>
      rw [Rule.stations, Station.getElem?_line_zero] at hk
      cases hk
      exact .inl ⟨rule, hr, rfl⟩
    | succ k =>
      have hlink : rule.chain[k + 1]? = some (rule.derive s.head s.linkBody rule.weight) := by
        rw [Rule.chain_eq, List.getElem?_map, hk]
        rfl
      exact .inr (mem_syntheticLabels.mpr ⟨rule, hr, k, _, hlink, rfl⟩)
  · rintro (⟨rule, hr, rfl⟩ | hlabel)
    · exact ⟨_, rule, hr, ⟨rule.head, rule.body⟩, Station.mem_line_iff.mpr (.inl rfl), rfl, rfl⟩
    · obtain ⟨rule, hr, k, link, hlink, rfl⟩ := mem_syntheticLabels.mp hlabel
      obtain ⟨s, hs, hhead⟩ := Rule.getElem?_chain hlink
      exact ⟨_, rule, hr, s, List.mem_of_getElem? hs, hhead.symm, rfl⟩

/-- No label has a bar, and in long bodies a plain name tells the symbol. -/
structure ClearNames (rules : Ruleset α) : Prop where
  noBar : ∀ label ∈ rules.nonterminals, '|' ∉ label.toList
  plain : ∀ rule ∈ rules, rule.isLong = true → ∀ symbol ∈ rule.body, IsPlainName symbol.name
  apart : ∀ rule ∈ rules, rule.isLong = true → ∀ other ∈ rules, other.isLong = true →
    ∀ symbol ∈ rule.body, ∀ symbol' ∈ other.body, symbol.name = symbol'.name → symbol = symbol'

/-- The labels of all stations but the first have a bar. -/
theorem bar_mem_head_iff (h : rules.ClearNames) {rule : Rule α} (hr : rule ∈ rules) {k : Nat}
    {s : Station} (hs : rule.stations[k]? = some s) : '|' ∈ s.head.toList ↔ 0 < k := by
  cases k with
  | zero =>
    rw [Rule.stations, Station.getElem?_line_zero] at hs
    cases hs
    have hmem : rule.head ∈ rules.nonterminals :=
      mem_nonterminals.mpr (Has.head_mem_symbols ⟨rule, hr, rfl, rfl⟩)
    simpa using h.noBar _ hmem
  | succ k =>
    obtain ⟨p, first, second, -, -, -, hhead⟩ := Station.head_eq_of_getElem?_succ hs
    simp [hhead, bar_mem_syntheticLabel p.head first second]

/-- A label that two chains share is read back one symbol: the stations in front share a label too,
and the two symbols named are the same. -/
theorem before_eq_of_head_eq (h : rules.ClearNames) {rule other : Rule α} (hr : rule ∈ rules)
    (ho : other ∈ rules) {k k' : Nat} {n n' : Station} (hn : rule.stations[k + 1]? = some n)
    (hn' : other.stations[k' + 1]? = some n') (hhead : n.head = n'.head) :
    ∃ s s', rule.stations[k]? = some s ∧ other.stations[k']? = some s' ∧ s.head = s'.head ∧
      rule.body[k]? = other.body[k']? ∧ rule.body[k + 1]? = other.body[k' + 1]? := by
  have hlong := Rule.isLong_of_getElem?_stations hn
  have hlong' := Rule.isLong_of_getElem?_stations hn'
  obtain ⟨s, first, second, hs, hfirst, hsecond, hlabel⟩ := Station.head_eq_of_getElem?_succ hn
  obtain ⟨s', first', second', hs', hfirst', hsecond', hlabel'⟩ :=
    Station.head_eq_of_getElem?_succ hn'
  have hplain : ∀ {i : Nat} {symbol : Symbol}, rule.body[i]? = some symbol →
      IsPlainName symbol.name :=
    fun hi => h.plain rule hr hlong _ (List.mem_of_getElem? hi)
  have hplain' : ∀ {i : Nat} {symbol : Symbol}, other.body[i]? = some symbol →
      IsPlainName symbol.name :=
    fun hi => h.plain other ho hlong' _ (List.mem_of_getElem? hi)
  obtain ⟨hsame, hname, hname'⟩ := syntheticLabel_injective (hplain hfirst) (hplain hsecond)
    (hplain' hfirst') (hplain' hsecond') (hlabel ▸ hlabel' ▸ hhead)
  have heq : ∀ {i i' : Nat} {symbol symbol' : Symbol}, rule.body[i]? = some symbol →
      other.body[i']? = some symbol' → symbol.name = symbol'.name →
        rule.body[i]? = other.body[i']? := by
    intro i i' symbol symbol' hi hi' hnames
    rw [hi, hi', h.apart rule hr hlong other ho hlong' _ (List.mem_of_getElem? hi) _
      (List.mem_of_getElem? hi') hnames]
  exact ⟨s, s', hs, hs', hsame, heq hfirst hfirst' hname, heq hsecond hsecond' hname'⟩

/-- Stations behind the first ones with one label are at one place, in chains of rules with one
head and with one body up to this place. -/
theorem origin_eq_of_head_eq (h : rules.ClearNames) {rule other : Rule α} (hr : rule ∈ rules)
    (ho : other ∈ rules) {k k' : Nat} {n n' : Station} (hn : rule.stations[k + 1]? = some n)
    (hn' : other.stations[k' + 1]? = some n') (hhead : n.head = n'.head) :
    k = k' ∧ rule.head = other.head ∧ rule.body.take (k + 2) = other.body.take (k' + 2) := by
  induction k generalizing k' n n' with
  | zero =>
    obtain ⟨s, s', hs, hs', hsame, hfirst, hsecond⟩ := before_eq_of_head_eq h hr ho hn hn' hhead
    have hplace : 0 < 0 ↔ 0 < k' := by
      rw [← bar_mem_head_iff h hr hs, hsame, bar_mem_head_iff h ho hs']
    obtain rfl : k' = 0 := by omega
    rw [Rule.stations, Station.getElem?_line_zero] at hs hs'
    cases hs
    cases hs'
    refine ⟨rfl, hsame, ?_⟩
    rw [List.take_add_one, List.take_add_one, hfirst, hsecond, List.take_add_one, List.take_add_one]
    rfl
  | succ k ih =>
    obtain ⟨s, s', hs, hs', hsame, -, hsecond⟩ := before_eq_of_head_eq h hr ho hn hn' hhead
    have hplace : 0 < k + 1 ↔ 0 < k' := by
      rw [← bar_mem_head_iff h hr hs, hsame, bar_mem_head_iff h ho hs']
    obtain ⟨k', rfl⟩ : ∃ m, k' = m + 1 := Nat.exists_eq_add_one.mpr (hplace.mp (Nat.succ_pos k))
    obtain ⟨rfl, hrule, htake⟩ := ih hs hs' hsame
    refine ⟨rfl, hrule, ?_⟩
    rw [List.take_add_one, htake, hsecond, ← List.take_add_one]

/-- If no label has a bar and the names in long bodies are plain and tell the symbols, the labels
that splitting makes up are new, and rules that share one have the same head and the same symbols up
to the second one that the label names. -/
theorem syntheticLabels_clear [Weight α] (h : rules.ClearNames) :
    (∀ label, (∃ body, rules.binarize.Has label body) ↔
      (∃ rule ∈ rules, rule.head = label) ∨ label ∈ rules.syntheticLabels) ∧
      (∀ label ∈ rules.syntheticLabels, label ∉ rules.nonterminals) ∧
      ∀ rule ∈ rules, ∀ other ∈ rules, ∀ (k k' : Nat) (link link' : Rule α),
        rule.chain[k + 1]? = some link → other.chain[k' + 1]? = some link' →
          link.head = link'.head →
            rule.head = other.head ∧ rule.body.take (k + 2) = other.body.take (k' + 2) := by
  refine ⟨fun _ => exists_has_binarize_iff, fun label hlabel hmem => ?_, ?_⟩
  · obtain ⟨rule, hr, k, link, hlink, rfl⟩ := mem_syntheticLabels.mp hlabel
    obtain ⟨s, hs, hhead⟩ := Rule.getElem?_chain hlink
    have hbar : '|' ∈ s.head.toList := (bar_mem_head_iff h hr hs).mpr (Nat.succ_pos k)
    exact h.noBar _ hmem (hhead ▸ hbar)
  · intro rule hr other ho k k' link link' hlink hlink' hhead
    obtain ⟨n, hn, hlabel⟩ := Rule.getElem?_chain hlink
    obtain ⟨n', hn', hlabel'⟩ := Rule.getElem?_chain hlink'
    have hsame : n.head = n'.head := by rw [← hlabel, hhead, hlabel']
    exact (origin_eq_of_head_eq h hr ho hn hn' hsame).2

/-- Two long rules that begin alike, and a label with an underscore in a short one. -/
def sharingStartRules : Ruleset ℚ :=
  [{ head := "X", body := [.nonterminal "A", .terminal "b", .nonterminal "C"], weight := 1 / 2 },
    { head := "X", body := [.nonterminal "A", .terminal "b", .nonterminal "D"], weight := 1 / 2 },
    .unary "A" "X_Y" 1]

theorem clearNames_sharingStartRules : sharingStartRules.ClearNames :=
  ⟨by decide +kernel, by decide +kernel, by decide +kernel⟩

/-- The label that two rules share is new, and names what both begin with. -/
theorem syntheticLabels_sharingStart :
    sharingStartRules.syntheticLabels = ["X|A_b", "X|A_b"] ∧
      (∀ label ∈ sharingStartRules.syntheticLabels, label ∉ sharingStartRules.nonterminals) ∧
      ∀ rule ∈ sharingStartRules, ∀ other ∈ sharingStartRules, ∀ (k k' : Nat) (link link' : Rule ℚ),
        rule.chain[k + 1]? = some link → other.chain[k' + 1]? = some link' →
          link.head = link'.head →
            rule.head = other.head ∧ rule.body.take (k + 2) = other.body.take (k' + 2) :=
  ⟨by decide +kernel, (syntheticLabels_clear clearNames_sharingStartRules).2⟩

/-- A long rule, and rules with the label that splitting it makes up. -/
def takenSyntheticRules : Ruleset ℚ :=
  [{ head := "X", body := [.nonterminal "A", .nonterminal "B", .nonterminal "C"], weight := 1 },
    { head := "X|A_B", body := [.nonterminal "D", .nonterminal "E", .nonterminal "F"],
      weight := 1 / 2 },
    .lexical "X|A_B" "d" (1 / 2)]

/-- Long rules that differ in the kind of their first symbols. -/
def mixedKindRules : Ruleset ℚ :=
  [{ head := "X", body := [.terminal "a", .nonterminal "B", .nonterminal "C"], weight := 1 / 2 },
    { head := "X", body := [.nonterminal "a", .nonterminal "B", .nonterminal "D"],
      weight := 1 / 2 }]

/-- A label that the rules have is made up again, and its rules share its weight then; and rules
that begin with a word and with a label of one name share a link. -/
theorem syntheticLabels_taken :
    takenSyntheticRules.validate .positiveProbabilities = .ok () ∧
      "X|A_B" ∈ takenSyntheticRules.nonterminals ∧
      "X|A_B" ∈ takenSyntheticRules.syntheticLabels ∧
      { head := "X|A_B", body := [.nonterminal "D", .nonterminal "X|A_B|D_E"],
        weight := (1 / 3 : ℚ) } ∈ takenSyntheticRules.binarize ∧
      mixedKindRules.validate .positiveProbabilities = .ok () ∧
      (∃ rule ∈ mixedKindRules, ∃ other ∈ mixedKindRules, ∃ link link' : Rule ℚ,
        rule.chain[1]? = some link ∧ other.chain[1]? = some link' ∧ link.head = link'.head ∧
          rule.body.take 2 ≠ other.body.take 2) := by
  refine ⟨validate_eq_ok_iff.mpr (by decide +kernel), by decide +kernel, by decide +kernel,
    by decide +kernel, validate_eq_ok_iff.mpr (by decide +kernel),
    _, List.mem_cons_self, _, List.mem_cons_of_mem _ List.mem_cons_self, _, _, rfl, rfl,
    by decide +kernel, by decide +kernel⟩

end Ruleset

end Constituency
