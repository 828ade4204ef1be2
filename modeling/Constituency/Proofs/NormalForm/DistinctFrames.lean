import Constituency.Proofs.Grammar.Reordering
import Constituency.Proofs.NormalForm.Grammars
import Constituency.Proofs.Ruleset.Merging
import Constituency.Proofs.Weighted.Chains

/-!
# Rules in normal form, converted again

Conversion merges rules that differ in their weights at most, but it does so before its last steps.
If no label has a bar or an underscore, the links and the unit labels that these steps add meet no
rule that is there already, so that no two rules in normal form have the same frame
(`nodup_map_frame_normalForm`). Then nothing is left to be merged, split or extracted, and a grammar
in normal form is its own normal form.
-/
namespace Constituency

variable {α : Type}

namespace Rule

theorem map_frame_chain (rule : Rule α) :
    rule.chain.map frame = rule.stations.map fun s => (s.head, s.linkBody, rule.language) := by
  rw [chain_eq, List.map_map]
  rfl

/-- Every link of a long rule has a label with a bar. -/
theorem exists_bar_of_mem_stations {rule : Rule α} (hlong : rule.isLong = true) {s : Station}
    (hs : s ∈ rule.stations) :
    ∃ label, '|' ∈ label.toList ∧ (label = s.head ∨ .nonterminal label ∈ s.linkBody) := by
  have hsynthetic : ∀ {p n : Station}, p.next? = some n → '|' ∈ n.head.toList := by
    intro p n hn
    obtain ⟨first, second, -, -, hhead, -⟩ := Station.next?_eq_some hn
    exact hhead ▸ bar_mem_syntheticLabel p.head first second
  rcases Station.mem_line_iff.mp hs with rfl | ⟨p, -, hp⟩
  · cases hn : Station.next? ⟨rule.head, rule.body⟩ with
    | none =>
      have hshort := (Station.linkBody_of_next?_eq_none hn).2
      exact absurd hshort (Nat.not_le.mpr (of_decide_eq_true hlong))
    | some n =>
      obtain ⟨first, second, -, -, -, hlink⟩ := Station.next?_eq_some hn
      exact ⟨n.head, hsynthetic hn, .inr (by simp [hlink])⟩
  · exact ⟨s.head, hsynthetic hp, .inl rfl⟩

/-- In a body with several symbols every word gives way to its unit label. -/
theorem body_lifted_of_length (rule : Rule α) : rule.lifted.body =
    if 1 < rule.body.length then rule.body.map Symbol.lifted else rule.body := by
  rw [Ruleset.body_lifted, isMixed]
  by_cases hlength : 1 < rule.body.length
  · cases hwords : rule.body.any Symbol.isTerminal with
    | true => simp [hlength]
    | false =>
      have hlabels : ∀ symbol ∈ rule.body, symbol.lifted = symbol := by
        intro symbol hs
        have hlabel := List.any_eq_false.mp hwords symbol hs
        cases symbol with
        | terminal word => exact absurd rfl hlabel
        | nonterminal label => rfl
      simp [hlength, List.map_congr_left hlabels]
  · simp [hlength]

theorem language_lifted (rule : Rule α) : rule.lifted.language = rule.language := by
  rw [lifted]
  split <;> rfl

end Rule

namespace Ruleset

variable {rules : Ruleset α}

/-! ### The frames of links -/

/-- If no label has a bar, no link has the frame of a rule. -/
theorem frame_notMem_of_mem_chain (hbars : ∀ label ∈ rules.nonterminals, '|' ∉ label.toList)
    {rule link : Rule α} (hlong : rule.isLong = true) (hlink : link ∈ rule.chain) :
    link.frame ∉ rules.map Rule.frame := by
  intro hmem
  obtain ⟨other, ho, hframe⟩ := List.mem_map.mp hmem
  rw [Rule.chain_eq] at hlink
  obtain ⟨s, hs, rfl⟩ := List.mem_map.mp hlink
  obtain ⟨hhead, hrest⟩ := Prod.mk.inj hframe
  obtain ⟨hbody, -⟩ := Prod.mk.inj hrest
  have hother : rules.Has s.head s.linkBody := ⟨other, ho, hhead, hbody⟩
  obtain ⟨label, hbar, rfl | hlabel⟩ := Rule.exists_bar_of_mem_stations hlong hs
  · exact hbars _ (mem_nonterminals.mpr hother.head_mem_symbols) hbar
  · exact hbars _ (mem_nonterminals.mpr (hother.mem_symbols_of_mem hlabel)) hbar

variable [Weight α]

theorem map_frame_binarize (rules : Ruleset α) : rules.binarize.map Rule.frame =
    (rules.filter fun rule => !rule.isLong).map Rule.frame ++
      (merge ((rules.filter Rule.isLong).flatMap Rule.chain)).map Rule.frame := by
  rw [binarize, List.map_append, List.map_map]
  refine congrArg (_ ++ ·) (List.map_congr_left fun link _ => ?_)
  rw [Function.comp_apply]
  split <;> rfl

/-- Splitting rules gives no two rules the same frame if no two had the same before. -/
theorem nodup_map_frame_binarize (hbars : ∀ label ∈ rules.nonterminals, '|' ∉ label.toList)
    (hframes : (rules.map Rule.frame).Nodup) : (rules.binarize.map Rule.frame).Nodup := by
  rw [map_frame_binarize]
  refine List.Nodup.append (hframes.sublist (List.filter_sublist.map _))
    (nodup_map_frame_merge _) fun frame hshort hlink => ?_
  obtain ⟨link, hl, rfl⟩ := List.mem_map.mp (mem_map_frame_merge.mp hlink)
  obtain ⟨rule, hr, hl⟩ := List.mem_flatMap.mp hl
  exact frame_notMem_of_mem_chain hbars (List.mem_filter.mp hr).2 hl
    ((List.filter_sublist.map _).subset hshort)

/-! ### The frames of rules with unit labels -/

omit [Weight α] in
/-- As long as unit labels are new, a symbol can be told from what takes its place. -/
theorem eq_of_lifted_eq (hnew : rules.UnitsNew) {s t : Symbol} (hs : s ∈ rules.symbols)
    (ht : t ∈ rules.symbols) (h : s.lifted = t.lifted) : s = t := by
  cases s with
  | terminal word =>
    cases t with
    | terminal word' => rw [unitLabel_injective (Symbol.nonterminal.inj h)]
    | nonterminal label => exact absurd (Symbol.nonterminal.inj h).symm (hnew word label hs ht)
  | nonterminal label =>
    cases t with
    | terminal word => exact absurd (Symbol.nonterminal.inj h) (hnew word label ht hs)
    | nonterminal label' => exact h

omit [Weight α] in
theorem body_eq_of_lifted_eq (hnew : rules.UnitsNew) {rule other : Rule α} (hr : rule ∈ rules)
    (ho : other ∈ rules) (h : rule.lifted.body = other.lifted.body) : rule.body = other.body := by
  have hlength : ∀ rule : Rule α, rule.lifted.body.length = rule.body.length := by
    intro rule
    rw [body_lifted]
    split <;> simp
  have hsame : rule.body.length = other.body.length := by rw [← hlength, h, hlength]
  rw [Rule.body_lifted_of_length, Rule.body_lifted_of_length, hsame] at h
  split at h
  · refine List.ext_getElem hsame fun i hi hi' => eq_of_lifted_eq hnew ?_ ?_ ?_
    · exact Has.mem_symbols_of_mem ⟨rule, hr, rfl, rfl⟩ (List.getElem_mem hi)
    · exact Has.mem_symbols_of_mem ⟨other, ho, rfl, rfl⟩ (List.getElem_mem hi')
    · have hi'' := congrArg (·[i]?) h
      simpa [hi, hi'] using hi''
  · exact h

/-- Giving words unit labels gives no two rules the same frame if no two had the same before. -/
theorem nodup_map_frame_extractTerminals (hnew : rules.UnitsNew)
    (hframes : (rules.map Rule.frame).Nodup) :
    (rules.extractTerminals.map Rule.frame).Nodup := by
  have hlifted : ∀ rule ∈ rules, ∀ other ∈ rules,
      rule.lifted.frame = other.lifted.frame → rule = other := by
    intro rule hr other ho h
    simp only [Rule.frame, head_lifted, Rule.language_lifted, Prod.mk.injEq] at h
    refine List.inj_on_of_nodup_map hframes hr ho ?_
    rw [Rule.frame, Rule.frame, h.1, body_eq_of_lifted_eq hnew hr ho h.2.1, h.2.2]
  rw [extractTerminals, List.map_append, List.map_map]
  refine List.Nodup.append (hframes.of_map.map_on hlifted) ?_ fun frame hrule hunit => ?_
  · exact List.pairwise_map.mpr
      ((pairwise_firsts _).imp fun hheads hframe => hheads (congrArg Prod.fst hframe))
  · obtain ⟨rule, hr, rfl⟩ := List.mem_map.mp hrule
    obtain ⟨made, hm, hframe⟩ := List.mem_map.mp hunit
    obtain ⟨other, ho, hm⟩ := List.mem_flatMap.mp (mem_of_mem_firsts hm)
    obtain ⟨-, word, hword, rfl⟩ := mem_unitsOf.mp hm
    have hhead : rule.head = unitLabel word := by
      rw [← head_lifted]
      exact (congrArg Prod.fst hframe).symm
    exact hnew word rule.head (Has.mem_symbols_of_mem ⟨other, ho, rfl, rfl⟩ hword)
      (Has.head_mem_symbols ⟨rule, hr, rfl, rfl⟩) hhead

/-- If no label has a bar or an underscore, no two rules in normal form have the same frame,
whatever the words are. -/
theorem nodup_map_frame_normalForm (hplain : ∀ label ∈ rules.nonterminals, IsPlainName label) :
    (rules.normalForm.map Rule.frame).Nodup := by
  have hlabels : ∀ label ∈ rules.eliminateUnary.nonterminals, IsPlainName label := fun label hl =>
    hplain label (mem_nonterminals.mpr (mem_symbols_of_eliminateUnary (mem_nonterminals.mp hl)))
  have hunaryless : (rules.eliminateUnary.map Rule.frame).Nodup := by
    rw [eliminateUnary_eq]
    exact nodup_map_frame_merge _
  exact nodup_map_frame_extractTerminals
    (unitsNew_binarize_of_labels fun label hl => (hlabels label hl).2)
    (nodup_map_frame_binarize (fun label hl => (hlabels label hl).1) hunaryless)

/-! ### Nothing left to do -/

theorem eliminateUnary_of_no_unary (hunary : ∀ rule ∈ rules, rule.unaryChild? = none)
    (hframes : (rules.map Rule.frame).Nodup) : rules.eliminateUnary = rules := by
  have hloops : rules.nonLoops = rules :=
    List.filter_eq_self.mpr fun rule hr => by simp [isLoop, hunary rule hr]
  have hkept : ∀ rule ∈ rules, withoutUnary rules.goingOn rules.chainLabels rule = [rule] :=
    fun rule hr => by rw [withoutUnary, hunary rule hr]
  rw [eliminateUnary_eq, hloops, List.flatMap_congr hkept, List.flatMap_singleton',
    merge_of_nodup hframes]

theorem binarize_of_short (hshort : ∀ rule ∈ rules, rule.isLong = false) :
    rules.binarize = rules := by
  have hlong : rules.filter Rule.isLong = [] :=
    List.filter_eq_nil_iff.mpr fun rule hr => by simp [hshort rule hr]
  have hkept : rules.filter (fun rule => !rule.isLong) = rules :=
    List.filter_eq_self.mpr fun rule hr => by simp [hshort rule hr]
  rw [binarize, hlong, hkept]
  exact List.append_nil _

theorem extractTerminals_of_not_isMixed (hmixed : ∀ rule ∈ rules, rule.isMixed = false) :
    rules.extractTerminals = rules := by
  have hlifted : rules.map Rule.lifted = rules := by
    refine (List.map_congr_left fun rule hr => ?_).trans (List.map_id rules)
    simp [Rule.lifted, hmixed rule hr]
  have hunits : rules.flatMap unitsOf = [] :=
    List.flatMap_eq_nil_iff.mpr fun rule hr => by simp [unitsOf, hmixed rule hr]
  rw [extractTerminals, hlifted, hunits]
  exact List.append_nil _

/-- Rules in normal form no two of which have the same frame are their own normal form. -/
theorem normalForm_of_isNormal (hnormal : rules.isNormal = true)
    (hframes : (rules.map Rule.frame).Nodup) : rules.normalForm = rules := by
  have hbody : ∀ rule ∈ rules, (∃ word, rule.body = [.terminal word]) ∨
      ∃ left right, rule.body = [.nonterminal left, .nonterminal right] :=
    fun rule hr => Rule.isNormal_iff.mp (List.all_eq_true.mp hnormal rule hr)
  have hunary : ∀ rule ∈ rules, rule.unaryChild? = none := by
    intro rule hr
    refine Rule.unaryChild?_eq_none_iff.mpr fun child => ?_
    rcases hbody rule hr with ⟨word, h⟩ | ⟨left, right, h⟩ <;> simp [h]
  have hshort : ∀ rule ∈ rules, rule.isLong = false := by
    intro rule hr
    rcases hbody rule hr with ⟨word, h⟩ | ⟨left, right, h⟩ <;> simp [Rule.isLong, h]
  have hmixed : ∀ rule ∈ rules, rule.isMixed = false := by
    intro rule hr
    rcases hbody rule hr with ⟨word, h⟩ | ⟨left, right, h⟩ <;>
      simp [Rule.isMixed, Symbol.isTerminal, h]
  rw [normalForm, eliminateUnary_of_no_unary hunary hframes, binarize_of_short hshort,
    extractTerminals_of_not_isMixed hmixed]

end Ruleset

namespace Grammar

/-- A grammar is told by its start label and its rules. -/
theorem eq_of_rules_eq [Weight α] {g h : Grammar α} (hstart : g.start = h.start)
    (hrules : g.rules = h.rules) : g = h := by
  obtain ⟨start, rules, index, _, _, rfl⟩ := g
  obtain ⟨start', rules', index', _, _, rfl⟩ := h
  obtain rfl : start = start' := hstart
  obtain rfl : rules = rules' := hrules
  rfl

/-- A grammar whose rules are their own normal form, with positive probabilities, is converted to
itself. -/
theorem toNormalForm_eq_self [Weight α] {g : Grammar α}
    (hvalid : g.rules.validate .positiveProbabilities = .ok ())
    (hrules : g.rules.normalForm = g.rules) : g.toNormalForm = .ok g := by
  obtain ⟨c, hc⟩ := exists_toNormalForm hvalid (by rw [hrules]; exact g.rules_ne_nil)
    (by rw [hrules]; exact g.rules_valid)
  have hsame : c = g := eq_of_rules_eq (start_of_toNormalForm hc)
    ((rules_of_toNormalForm hc).2.trans hrules)
  rw [hc, hsame]

/-- Conversion to normal form with exact weights changes nothing the second time, if no label has a
bar or an underscore: it gives the same rules in the same order, with the same start label. -/
theorem toNormalForm_toNormalForm {g c : Grammar ℚ}
    (hplain : ∀ label ∈ g.rules.nonterminals, IsPlainName label)
    (h : g.toNormalForm = .ok c) : c.toNormalForm = .ok c := by
  obtain ⟨hvalid, hrules⟩ := rules_of_toNormalForm h
  have hpos : g.rules.IsPositive := fun rule hr =>
    (Ruleset.validate_positiveProbabilities_iff.mp hvalid rule hr).2.2.1
  have hframes : (c.rules.map Rule.frame).Nodup :=
    hrules ▸ Ruleset.nodup_map_frame_normalForm hplain
  have hnormal : c.rules.isNormal = true := List.all_eq_true.mpr fun rule hr =>
    Rule.isNormal_iff.mpr (body_of_toNormalForm h ⟨rule, hr, rfl, rfl⟩)
  refine toNormalForm_eq_self ?_ (Ruleset.normalForm_of_isNormal hnormal hframes)
  refine Ruleset.validate_positiveProbabilities_iff.mpr fun rule hr => ?_
  obtain ⟨hhead, hbody, hadmits⟩ :=
    Rule.fault?_eq_none_iff.mp (Ruleset.fault?_eq_none_iff.mp c.rules_valid rule hr)
  exact ⟨hhead, hbody, hpos.normalForm rule (hrules ▸ hr), (of_decide_eq_true hadmits).2⟩

/-- Rules with a cycle, a repetition and two languages, and words that look like labels made up. -/
def barredRules : Ruleset ℚ :=
  [{ head := "S", body := [.terminal "|", .nonterminal "A", .terminal "_A"], weight := 1 / 4,
      language := some "en" },
    { head := "S", body := [.terminal "|", .nonterminal "A", .terminal "_A"], weight := 1 / 4 },
    .unary "S" "A" (1 / 4), .unary "A" "S" (1 / 2), .binary "S" "A" "A" (1 / 8),
    .binary "S" "A" "A" (1 / 8), .lexical "A" "S|A_" (1 / 2)]

/-- The grammar of these rules. -/
def barred : Grammar ℚ where
  start := "S"
  rules := barredRules
  index := .ofRules barredRules
  rules_ne_nil := List.cons_ne_nil _ _
  rules_valid := by decide +kernel
  index_eq := rfl

/-- A grammar that is not in normal form is brought there in one step. -/
theorem toNormalForm_toNormalForm_barred :
    (∀ label ∈ barred.rules.nonterminals, IsPlainName label) ∧
      ∃ c, barred.toNormalForm = .ok c ∧ c.rules ≠ barred.rules ∧ c.toNormalForm = .ok c := by
  have hplain : ∀ label ∈ barred.rules.nonterminals, IsPlainName label := by decide +kernel
  have hvalid : barredRules.validate .positiveProbabilities = .ok () :=
    Ruleset.validate_positiveProbabilities_iff.mpr (by decide +kernel)
  have hnormal : barredRules.normalForm.fault? .probabilities = none := by decide +kernel
  have hchanged : barredRules.normalForm ≠ barredRules := by decide +kernel
  obtain ⟨c, hc⟩ := exists_toNormalForm (g := barred) hvalid (by decide +kernel) hnormal
  obtain ⟨-, hrules⟩ := rules_of_toNormalForm hc
  exact ⟨hplain, c, hc, hrules ▸ hchanged, toNormalForm_toNormalForm hplain hc⟩

end Grammar

end Constituency
