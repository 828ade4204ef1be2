import Constituency.Proofs.GrammarFile.Spellings

/-!
# What is accepted

The reader accepts exactly the texts that have the format of a grammar file, and gives the rules
that they spell (`readRules_accepts`). It drops a gap whole before each part, so it finds a part
where its spelling begins; a part that is left out is found missing, since what follows begins
otherwise.
-/
namespace Constituency.GrammarFile

open Decimal
open Except (bind_eq_ok_iff mapError_eq_ok_iff)

variable {α : Type} {cs found behind rest : List Char}

/-! ### Weights and languages -/

theorem readMark_eq_ok_iff {mark : Char} :
    readMark mark cs = .ok ((), rest) ↔ cs = mark :: rest := by
  cases cs with
  | nil => simp [readMark]
  | cons c cs => by_cases hc : c = mark <;> simp [readMark, hc]

theorem readNumber_eq_ok_iff {n : Numeral} :
    readNumber cs = .ok (n, rest) ↔ Numeral.read? cs = some (n, rest) := by
  unfold readNumber
  split
  · rename_i hread
    rw [hread, Except.ok.injEq, Option.some.injEq]
  · rename_i hread
    simp [hread]

/-- A number is found behind a gap. -/
theorem NumberText.skipBlanks_eq {n : Numeral} {number : List Char} (h : NumberText n number)
    (hgap : Gap cs (number ++ rest)) : skipBlanks cs = number ++ rest := by
  obtain ⟨c, tail, rfl, hc⟩ : ∃ c tail, number = c :: tail ∧ (c.isDigit = true ∨ c = '.') := by
    cases h with
    | whole hne hds =>
      obtain ⟨d, ds, rfl⟩ := List.exists_cons_of_ne_nil hne
      exact ⟨d, _, rfl, .inl (hds d List.mem_cons_self)⟩
    | @pointed whole _ _ _ hwhole =>
      cases whole with
      | nil => exact ⟨'.', _, rfl, .inr rfl⟩
      | cons d ds => exact ⟨d, _, rfl, .inl (hwhole d List.mem_cons_self)⟩
  rw [hgap.skipBlanks_eq, List.cons_append]
  rcases hc with hc | rfl
  · exact skipBlanks_of_beginsSymbol (by simp [beginsSymbol, Label.isNameChar_of_isDigit hc])
  · exact skipBlanks_eq_self (by decide) (by decide)

/-- A gap does not go on with a number. -/
theorem Gap.endsNumber {c : Char} (h : Gap cs (c :: rest)) (hc : continuesNumber c = false) :
    EndsNumber cs := by
  cases h with
  | nil => exact endsNumber_cons hc rest
  | @blank d _ _ hd =>
    refine endsNumber_cons (Bool.eq_false_iff.mpr fun hcont => ?_) _
    simp only [continuesNumber, Bool.or_eq_true, decide_eq_true_eq] at hcont
    rcases hcont with ((hdigit | rfl) | rfl) | rfl
    · rw [Label.isBlank_of_isNameChar (Label.isNameChar_of_isDigit hdigit)] at hd
      cases hd
    all_goals exact absurd hd (by decide)
  | comment => exact endsNumber_cons (by decide) _

theorem readWeight_of_head?_ne (h : cs.head? ≠ some '[') : readWeight cs = .ok (none, cs) := by
  unfold readWeight
  split
  · exact absurd rfl h
  · rfl

/-- A weight is taken exactly where one is spelled, and left out only where no bracket opens. -/
theorem readWeight_eq_ok_iff {weight : Option Numeral} :
    readWeight cs = .ok (weight, rest) ↔
      WeightAt weight cs rest ∧ (weight = none → cs.head? ≠ some '[') := by
  constructor
  · intro h
    unfold readWeight at h
    split at h
    · obtain ⟨⟨n, behind⟩, hnumber, h⟩ := bind_eq_ok_iff.mp h
      obtain ⟨⟨_, behindMark⟩, hmark, h⟩ := bind_eq_ok_iff.mp h
      cases h
      obtain ⟨number, hspelled, heq⟩ := exists_numberText (readNumber_eq_ok_iff.mp hnumber)
      refine ⟨.some (heq ▸ gap_skipBlanks _) hspelled ?_, by simp⟩
      rw [← readMark_eq_ok_iff.mp hmark]
      exact gap_skipBlanks behind
    · rename_i hopen
      cases h
      refine ⟨.none cs, fun _ hhead => ?_⟩
      obtain ⟨tail, rfl⟩ := List.head?_eq_some_iff.mp hhead
      exact hopen tail rfl
  · rintro ⟨h, hnone⟩
    cases h with
    | none => exact readWeight_of_head?_ne (hnone rfl)
    | @some n cs number behind _ hopen hnumber hclose =>
      have hends : EndsNumber behind := hclose.endsNumber (by decide)
      have hread : readNumber (skipBlanks cs) = .ok (n, behind) := by
        rw [hnumber.skipBlanks_eq hopen, readNumber_eq_ok_iff, read?_append hnumber hends]
      have hmark : readMark ']' (skipBlanks behind) = .ok ((), rest) := by
        rw [hclose.skipBlanks_eq, skipBlanks_eq_self (by decide) (by decide), readMark_eq_ok_iff]
      exact bind_eq_ok_iff.mpr ⟨_, hread, bind_eq_ok_iff.mpr ⟨_, hmark, rfl⟩⟩

theorem readLanguage_of_head?_ne (h : cs.head? ≠ some '@') :
    readLanguage cs = .ok (none, cs) := by
  unfold readLanguage
  split
  · exact absurd rfl h
  · rfl

/-- A language is taken exactly where one is spelled, and left out only where there is no at
sign. -/
theorem readLanguage_eq_ok_iff {language : Option String} :
    readLanguage cs = .ok (language, rest) ↔
      LanguageAt language cs rest ∧ (language = none → cs.head? ≠ some '@') := by
  constructor
  · intro h
    unfold readLanguage at h
    split at h
    · obtain ⟨⟨name, behind⟩, hread, h⟩ := bind_eq_ok_iff.mp h
      cases h
      obtain ⟨hne, hname, hrest, rfl⟩ := readName_eq_ok_iff.mp (mapError_eq_ok_iff.mp hread)
      refine ⟨?_, by simp⟩
      simpa using LanguageAt.some hne hname hrest
    · rename_i hat
      cases h
      refine ⟨.none cs, fun _ hhead => ?_⟩
      obtain ⟨tail, rfl⟩ := List.head?_eq_some_iff.mp hhead
      exact hat tail rfl
  · rintro ⟨h, hnone⟩
    cases h with
    | none => exact readLanguage_of_head?_ne (hnone rfl)
    | some hne hname hrest =>
      have hread := readName_append hne hname hrest
      exact bind_eq_ok_iff.mpr ⟨_, mapError_eq_ok_iff.mpr hread, rfl⟩

/-! ### Bodies -/

theorem SymbolAt.exists_cons {symbol : Symbol} (h : SymbolAt symbol cs rest) :
    ∃ c tail, cs = c :: tail ∧ beginsSymbol c = true := by
  cases h with
  | quoted => exact ⟨_, _, rfl, by decide⟩
  | bracketed => exact ⟨_, _, rfl, by decide⟩
  | word hname => exact ⟨_, _, rfl, by simp [beginsSymbol, hname _ List.mem_cons_self]⟩
  | label hname => exact ⟨_, _, rfl, by simp [beginsSymbol, hname _ List.mem_cons_self]⟩

/-- Symbols are taken up to a mark that ends a body, with the gap before it. -/
theorem readBody_eq_ok_iff {body : List Symbol} :
    readBody cs = .ok (body, rest) ↔
      ∃ behind, BodyAt body cs behind ∧ skipBlanks behind = rest ∧ endsBody rest = true := by
  constructor
  · intro h
    fun_induction readBody cs generalizing body rest with
    | case1 =>
      rename_i cs found hends
      cases h
      exact ⟨cs, .nil cs, rfl, hends⟩
    | case2 => cases h
    | case3 =>
      rename_i cs found hends symbol tail hsymbol ih
      obtain ⟨⟨symbols, last⟩, hbody, hpair⟩ := bind_eq_ok_iff.mp h
      cases hpair
      obtain ⟨behind, hspelled, hrest⟩ := ih hbody
      exact ⟨behind, .cons (gap_skipBlanks cs) (readSymbol_eq_ok_iff.mp hsymbol) hspelled, hrest⟩
  · rintro ⟨behind, h, rfl, hends⟩
    induction h with
    | nil cs => rw [readBody_eq, if_pos hends]
    | cons hgap hsymbol h ih =>
      obtain ⟨c, tail, rfl, hbegins⟩ := hsymbol.exists_cons
      rw [readBody_eq, hgap.skipBlanks_eq, skipBlanks_of_beginsSymbol hbegins,
        endsBody_of_beginsSymbol hbegins, if_neg (by decide)]
      have hread := readSymbol_eq_ok_iff.mpr hsymbol
      exact bind_eq_ok_iff.mpr ⟨_, hread, bind_eq_ok_iff.mpr ⟨_, ih hends, rfl⟩⟩

/-! ### Rules -/

theorem readHead_eq_ok_iff {head : String} :
    readHead cs = .ok (head, rest) ↔ SymbolAt (.nonterminal head) cs rest := by
  rw [← readSymbol_eq_ok_iff]
  constructor
  · intro h
    obtain ⟨⟨symbol, behind⟩, hread, h⟩ := bind_eq_ok_iff.mp h
    cases symbol with
    | terminal word => cases h
    | nonterminal label =>
      cases h
      exact mapError_eq_ok_iff.mp hread
  · intro h
    exact bind_eq_ok_iff.mpr ⟨_, mapError_eq_ok_iff.mpr h, rfl⟩

theorem readArrow_eq_ok_iff : readArrow cs = .ok ((), rest) ↔ cs = '-' :: '>' :: rest := by
  unfold readArrow
  split
  · simp
  · rename_i harrow
    simp only [reduceCtorEq, false_iff]
    exact harrow rest

/-- A language is taken behind a gap, or found missing at the semicolon. -/
theorem readLanguage_of_gap {language : Option String} (h : LanguageAt language found behind)
    (hgap : Gap cs found) (hend : Gap behind (';' :: rest)) :
    ((skipBlanks cs).head? = some '@' ∨ (skipBlanks cs).head? = some ';') ∧
      ∃ left, readLanguage (skipBlanks cs) = .ok (language, left) ∧
        skipBlanks left = ';' :: rest := by
  have hsemicolon : skipBlanks (';' :: rest) = ';' :: rest :=
    skipBlanks_eq_self (by decide) (by decide)
  have hskip := hgap.skipBlanks_eq
  have hfinish := hend.skipBlanks_eq
  rw [hsemicolon] at hfinish
  cases h with
  | none =>
    rw [hskip, hfinish]
    exact ⟨.inr rfl, ';' :: rest, readLanguage_of_head?_ne (by simp), hsemicolon⟩
  | some hne hname hrest =>
    rw [skipBlanks_eq_self (by decide) (by decide)] at hskip
    rw [hskip]
    exact ⟨.inl rfl, behind, readLanguage_eq_ok_iff.mpr ⟨.some hne hname hrest, by simp⟩, hfinish⟩

/-- A weight is taken behind a gap, or found missing where the language or the semicolon is. -/
theorem readWeight_of_gap {weight : Option Numeral} (h : WeightAt weight found behind)
    (hgap : Gap cs found)
    (hend : (skipBlanks behind).head? = some '@' ∨ (skipBlanks behind).head? = some ';') :
    endsBody (skipBlanks cs) = true ∧
      ∃ left, readWeight (skipBlanks cs) = .ok (weight, left) ∧
        skipBlanks left = skipBlanks behind := by
  have hskip := hgap.skipBlanks_eq
  cases h with
  | none =>
    rw [hskip]
    refine ⟨?_, skipBlanks found, readWeight_of_head?_ne ?_, skipBlanks_skipBlanks found⟩
    · rcases hend with hend | hend <;> simp [endsBody, hend]
    · rcases hend with hend | hend <;> simp [hend]
  | some hopen hnumber hclose =>
    rw [skipBlanks_eq_self (by decide) (by decide)] at hskip
    rw [hskip]
    exact ⟨rfl, behind, readWeight_eq_ok_iff.mpr ⟨.some hopen hnumber hclose, by simp⟩, rfl⟩

variable [Weight α] [DecimalText α]

/-- A rule is taken exactly where one is spelled. -/
theorem readRule_eq_ok_iff {rule : Rule α} :
    readRule cs = .ok (rule, rest) ↔ RuleAt rule cs rest := by
  constructor
  · intro h
    obtain ⟨⟨head, behindHead⟩, hhead, h⟩ := bind_eq_ok_iff.mp h
    obtain ⟨⟨_, behindArrow⟩, harrow, h⟩ := bind_eq_ok_iff.mp h
    obtain ⟨⟨body, weightText⟩, hbody, h⟩ := bind_eq_ok_iff.mp h
    obtain ⟨⟨weight, behindWeight⟩, hweight, h⟩ := bind_eq_ok_iff.mp h
    obtain ⟨⟨language, behindLanguage⟩, hlanguage, h⟩ := bind_eq_ok_iff.mp h
    obtain ⟨⟨_, behind⟩, hend, h⟩ := bind_eq_ok_iff.mp h
    cases h
    obtain ⟨behindBody, hspelled, rfl, -⟩ := readBody_eq_ok_iff.mp (mapError_eq_ok_iff.mp hbody)
    refine .mk (readHead_eq_ok_iff.mp hhead) ?_ hspelled (gap_skipBlanks behindBody)
      (readWeight_eq_ok_iff.mp hweight).1 (gap_skipBlanks behindWeight)
      (readLanguage_eq_ok_iff.mp hlanguage).1 ?_
    · rw [← readArrow_eq_ok_iff.mp harrow]
      exact gap_skipBlanks behindHead
    · rw [← readMark_eq_ok_iff.mp (mapError_eq_ok_iff.mp hend)]
      exact gap_skipBlanks behindLanguage
  · rintro ⟨hhead, harrow, hbody, hweightGap, hweight, hlanguageGap, hlanguage, hend⟩
    -- From the end to the front: where the body ends depends on what is found behind it.
    obtain ⟨hbegins, behindLanguage, hreadLanguage, hsemicolon⟩ :=
      readLanguage_of_gap hlanguage hlanguageGap hend
    obtain ⟨hends, behindWeight, hreadWeight, hskip⟩ := readWeight_of_gap hweight hweightGap hbegins
    rw [← hskip] at hreadLanguage
    have hreadBody := readBody_eq_ok_iff.mpr ⟨_, hbody, rfl, hends⟩
    have hfound := harrow.skipBlanks_eq
    rw [skipBlanks_eq_self (by decide) (by decide)] at hfound
    exact bind_eq_ok_iff.mpr ⟨_, readHead_eq_ok_iff.mpr hhead,
      bind_eq_ok_iff.mpr ⟨_, readArrow_eq_ok_iff.mpr hfound,
      bind_eq_ok_iff.mpr ⟨_, mapError_eq_ok_iff.mpr hreadBody,
      bind_eq_ok_iff.mpr ⟨_, hreadWeight,
      bind_eq_ok_iff.mpr ⟨_, hreadLanguage,
      bind_eq_ok_iff.mpr ⟨_, mapError_eq_ok_iff.mpr (readMark_eq_ok_iff.mpr hsemicolon), rfl⟩⟩⟩⟩⟩⟩

theorem RuleAt.exists_cons {rule : Rule α} (h : RuleAt rule cs rest) :
    ∃ c tail, cs = c :: tail ∧ beginsSymbol c = true := by
  obtain ⟨hhead⟩ := h
  exact hhead.exists_cons

/-! ### Lists of rules -/

/-- Takes all rules of a text, and gives what is left behind them as well. -/
def takeRules (cs : List Char) : Except ReadError (Taken (Ruleset α)) :=
  let found := skipBlanks cs
  if found = [] then .ok ([], found)
  else
    match _h : readRule (α := α) found with
    | .error e => .error e
    | .ok (rule, rest) => do
      let (rules, rest) ← takeRules rest
      return (rule :: rules, rest)
termination_by cs.length
decreasing_by
  exact Nat.lt_of_lt_of_le (length_readRule_lt (by assumption)) (length_skipBlanks_le cs)

theorem takeRules_eq (cs : List Char) :
    (takeRules cs : Except ReadError (Taken (Ruleset α))) =
      if skipBlanks cs = [] then .ok ([], [])
      else do
        let (rule, rest) ← readRule (skipBlanks cs)
        let (rules, rest) ← takeRules rest
        return (rule :: rules, rest) := by
  rw [takeRules]
  split
  · rename_i hnil
    rw [hnil]
  · split <;> rename_i h <;> rw [h] <;> rfl

theorem readRules_eq_map_takeRules (cs : List Char) :
    (readRules cs : Except ReadError (Ruleset α)) = (takeRules cs).map Prod.fst := by
  fun_induction takeRules (α := α) cs with
  | case1 cs found hnil =>
    rw [readRules_eq, if_pos hnil]
    rfl
  | case2 cs found hne e hread =>
    rw [readRules_eq, if_neg hne, hread]
    rfl
  | case3 cs found hne rule rest hread ih =>
    rw [readRules_eq, if_neg hne, hread]
    show (readRules rest >>= fun rules => pure (rule :: rules)) = _
    rw [ih]
    cases takeRules (α := α) rest <;> rfl

/-- Rules are taken exactly from the texts that spell them, and nothing is left. -/
theorem takeRules_eq_ok_iff {rules : Ruleset α} :
    takeRules cs = .ok (rules, rest) ↔ RulesIn rules cs ∧ rest = [] := by
  constructor
  · intro h
    fun_induction takeRules (α := α) cs generalizing rules rest with
    | case1 =>
      rename_i cs found hnil
      cases h
      exact ⟨.nil (hnil ▸ gap_skipBlanks cs), hnil⟩
    | case2 => cases h
    | case3 =>
      rename_i cs found hne rule behind hread ih
      obtain ⟨⟨rules', last⟩, hrules, hpair⟩ := bind_eq_ok_iff.mp h
      cases hpair
      obtain ⟨hspelled, hrest⟩ := ih hrules
      exact ⟨.cons (gap_skipBlanks cs) (readRule_eq_ok_iff.mp hread) hspelled, hrest⟩
  · rintro ⟨h, rfl⟩
    induction h with
    | nil hgap =>
      rw [takeRules_eq, hgap.skipBlanks_eq, skipBlanks_nil, if_pos rfl]
    | cons hgap hrule h ih =>
      obtain ⟨c, tail, rfl, hbegins⟩ := hrule.exists_cons
      rw [takeRules_eq, hgap.skipBlanks_eq, skipBlanks_of_beginsSymbol hbegins,
        if_neg (List.cons_ne_nil c tail)]
      have hread := readRule_eq_ok_iff.mpr hrule
      exact bind_eq_ok_iff.mpr ⟨_, hread, bind_eq_ok_iff.mpr ⟨_, ih, rfl⟩⟩

/-- The rules of a text are read exactly if it spells them: reading ends for every text, with an
error or with the rules and nothing left behind them. -/
theorem readRules_accepts (cs : List Char) :
    (readRules cs : Except ReadError (Ruleset α)) = (takeRules cs).map Prod.fst ∧
      (∀ rules : Ruleset α, readRules cs = .ok rules ↔ RulesIn rules cs) ∧
        ∀ (rules : Ruleset α) (rest : List Char),
          takeRules cs = .ok (rules, rest) ↔ RulesIn rules cs ∧ rest = [] := by
  refine ⟨readRules_eq_map_takeRules cs, fun rules => ?_, fun _ _ => takeRules_eq_ok_iff⟩
  rw [readRules_eq_map_takeRules]
  constructor
  · intro h
    cases htake : takeRules (α := α) cs with
    | error e => rw [htake] at h; cases h
    | ok taken =>
      rw [htake] at h
      cases h
      exact (takeRules_eq_ok_iff.mp htake).1
  · intro h
    rw [takeRules_eq_ok_iff.mpr ⟨h, rfl⟩]
    rfl

end Constituency.GrammarFile
