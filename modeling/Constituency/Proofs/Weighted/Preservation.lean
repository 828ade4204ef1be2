import Constituency.Proofs.Weighted.Inside
import Constituency.Proofs.Weighted.Shares
import Constituency.Proofs.Weighted.UnitSeries
import Constituency.Proofs.NormalForm.NormalRules

/-!
# Inside sums in normal form

The inside sums of rules without cycles among unary ones solve the rules. Step by step the solution
is carried to the rules in normal form, and there it is the only one; so the inside sums of these
are the same.
-/
namespace Constituency.Ruleset

variable {rules : Ruleset ℚ} {F : String → Series}

theorem isPositive_of_validate (h : rules.validate .positiveProbabilities = .ok ()) :
    rules.IsPositive := by
  intro rule hr
  obtain ⟨-, -, hrange⟩ := validate_eq_ok_iff.mp h rule hr
  exact (of_decide_eq_true hrange).1

/-- The valuation of the labels of the rules in normal form. -/
def normalSeries (rules : Ruleset ℚ) (F : String → Series) : String → Series :=
  rules.eliminateUnary.binarize.unitSeries (rules.eliminateUnary.splitSeries F)

/-- A solution of the rules is carried to the rules in normal form. -/
theorem Solves.normalForm (h : rules.Solves F) (hacyclic : rules.Acyclic)
    (hnames : rules.PlainNames) (hpos : rules.IsPositive) :
    rules.normalForm.Solves (rules.normalSeries F) := by
  have hnames' : rules.eliminateUnary.PlainNames := plainNames_eliminateUnary hnames
  have hnoUnary : rules.eliminateUnary.Solves F := h.eliminateUnary hacyclic
  have hsplit : rules.eliminateUnary.binarize.Solves (rules.eliminateUnary.splitSeries F) :=
    hnoUnary.binarize hnames' hpos.eliminateUnary
  exact hsplit.extractTerminals (unitsNew_binarize hnames')

/-- The labels that were there before keep their series. -/
theorem normalSeries_of_isPlainName (hnames : rules.PlainNames) {label : String}
    (hlabel : IsPlainName label) : rules.normalSeries F label = F label := by
  have hnoUnit : label ∉ rules.eliminateUnary.binarize.units.map (·.head) := by
    intro hmem
    obtain ⟨word, hword, hunit⟩ := mem_heads_units.mp hmem
    have hplain : IsPlainName word :=
      isPlainName_of_binarize (plainNames_eliminateUnary hnames) hword.mem_symbols
    exact IsNoUnit.ne_unitLabel (.inl hlabel.2) hplain hunit
  rw [normalSeries, unitSeries, if_neg hnoUnit, splitSeries_of_isPlainName hlabel]

theorem isProper_normalSeries (hempty : ∀ head body, rules.Has head body → body ≠ [])
    (hF : IsProper F) : IsProper (rules.normalSeries F) := by
  refine isProper_unitSeries (isProper_splitSeries (fun head body hrule => ?_) hF)
  obtain ⟨last, -, hlast, -⟩ := has_eliminateUnary_iff.mp hrule
  exact hempty _ _ hlast

/-- In normal form no body is empty, and no rule is unary. -/
theorem body_normalForm_ne (hempty : ∀ head body, rules.Has head body → body ≠ [])
    {head : String} {body : List Symbol} (h : rules.normalForm.Has head body) :
    body ≠ [] ∧ ∀ child, body ≠ [.nonterminal child] := by
  rcases body_normalForm hempty h with ⟨word, rfl⟩ | ⟨left, right, rfl⟩ <;> simp

theorem acyclic_of_no_unary
    (hunary : ∀ head body, rules.Has head body → ∀ child, body ≠ [.nonterminal child]) :
    rules.Acyclic := by
  intro label h
  obtain ⟨child, hstep, -⟩ := Relation.TransGen.head'_iff.mp h
  exact hunary _ _ hstep child rfl

/-- Without cycles among unary rules, conversion to normal form keeps the sum of the weights of all
derivations of every list of words from every label. The sums are finite on both sides. -/
theorem inside_toNormalForm (hvalid : rules.validate .positiveProbabilities = .ok ())
    (hacyclic : rules.Acyclic) (hnames : rules.PlainNames) :
    ∃ rules', rules.toNormalForm = .ok rules' ∧
      ∀ label ∈ rules.nonterminals, ∀ words,
        (derivations rules [.nonterminal label] words).Finite ∧
        (derivations rules' [.nonterminal label] words).Finite ∧
        inside rules' [.nonterminal label] words = inside rules [.nonterminal label] words := by
  have hempty : ∀ head body, rules.Has head body → body ≠ [] :=
    fun _ _ h => body_ne_nil_of_validate hvalid h
  have hempty' : ∀ head body, rules.normalForm.Has head body → body ≠ [] :=
    fun _ _ h => (body_normalForm_ne hempty h).1
  have hunary' : ∀ head body, rules.normalForm.Has head body →
      ∀ child, body ≠ [.nonterminal child] := fun _ _ h => (body_normalForm_ne hempty h).2
  have hfinite := finite_derivations hempty hacyclic
  have hfinite' := finite_derivations hempty' (acyclic_of_no_unary hunary')
  have hsolution : rules.normalForm.Solves (rules.normalSeries (insideSeries rules)) :=
    (solves_insideSeries hfinite).normalForm hacyclic hnames (isPositive_of_validate hvalid)
  have hunique : insideSeries rules.normalForm = rules.normalSeries (insideSeries rules) :=
    eq_of_solves hempty' hunary' (solves_insideSeries hfinite') hsolution
      (isProper_insideSeries hempty')
      (isProper_normalSeries hempty (isProper_insideSeries hempty))
  refine ⟨rules.normalForm, toNormalForm_eq_ok_iff.mpr ⟨hvalid, rfl⟩, fun label hlabel words => ?_⟩
  have hplain : IsPlainName label := hnames.plain _ (mem_nonterminals.mp hlabel)
  have hseries : insideSeries rules.normalForm label = insideSeries rules label := by
    rw [hunique, normalSeries_of_isPlainName hnames hplain]
  exact ⟨hfinite _ words, hfinite' _ words, congrFun hseries words⟩

/-- Two rules of different languages that begin alike, a rule listed twice, and a unary rule. -/
def sharingRules : Ruleset ℚ :=
  [{ head := "S", body := [.nonterminal "A", .terminal "and", .nonterminal "S"], weight := 1 / 4,
      language := some "en" },
    { head := "S", body := [.nonterminal "A", .terminal "and", .nonterminal "A"], weight := 1 / 4,
      language := some "fr" },
    .unary "S" "A" (1 / 2), .lexical "A" "x" (1 / 4), .lexical "A" "x" (1 / 4),
    .lexical "A" "y" (1 / 2)]

theorem acyclic_sharingRules : sharingRules.Acyclic := by
  have hsteps : ∀ label child, sharingRules.Steps label child → label = "S" ∧ child = "A" := by
    rintro label child ⟨rule, hr, rfl, hchild⟩
    have hunary : ∀ rule ∈ sharingRules, ∀ child ∈ rule.unaryChild?,
        rule.head = "S" ∧ child = "A" := by decide +kernel
    exact hunary rule hr child (Rule.unaryChild?_eq_some_iff.mpr hchild)
  intro label h
  obtain ⟨child, hfirst, -⟩ := Relation.TransGen.head'_iff.mp h
  obtain ⟨other, -, hlast⟩ := Relation.TransGen.tail'_iff.mp h
  have hfrom := (hsteps label child hfirst).1
  have hto := (hsteps other label hlast).2
  exact absurd (hfrom.symm.trans hto) (by decide)

/-- Each of the two languages gives the words derivations, and both share a tail. -/
theorem inside_toNormalForm_sharing :
    ∃ rules', sharingRules.toNormalForm = .ok rules' ∧
      (derivations rules' [.nonterminal "S"] ["x", "and", "x"]).Finite ∧
        inside rules' [.nonterminal "S"] ["x", "and", "x"] =
          inside sharingRules [.nonterminal "S"] ["x", "and", "x"] := by
  have hvalid : sharingRules.validate .positiveProbabilities = .ok () :=
    validate_eq_ok_iff.mpr (by decide +kernel)
  have hnames : sharingRules.PlainNames := ⟨by decide +kernel, by decide +kernel⟩
  obtain ⟨rules', hrules, hinside⟩ := inside_toNormalForm hvalid acyclic_sharingRules hnames
  exact ⟨rules', hrules, (hinside "S" (by decide +kernel) _).2⟩

end Constituency.Ruleset
