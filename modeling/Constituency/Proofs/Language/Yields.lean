import Constituency.Proofs.Ruleset.Frames
import Constituency.Text.Case

/-!
# The language of a list of rules

Symbols yield tokens by rewriting labels with any rules, whatever their shape, and by matching words
in lower case. A reading says which tokens each symbol stands for. If a reading is a model of the
rules, it holds of everything that they yield; what a list of rules yields is a model of it.
-/
namespace Constituency

variable {α : Type}

/-- Tokens that a list of symbols can be rewritten to. -/
inductive Yields (rules : Ruleset α) : List Symbol → List String → Prop
  | nil : Yields rules [] []
  | word {word token : String} {rest : List Symbol} {tokens : List String}
      (hmatch : Text.lowerCase word = Text.lowerCase token) (hrest : Yields rules rest tokens) :
      Yields rules (.terminal word :: rest) (token :: tokens)
  | rule {head : String} {body rest : List Symbol} {us vs : List String}
      (hrule : rules.Has head body) (hbody : Yields rules body us) (hrest : Yields rules rest vs) :
      Yields rules (.nonterminal head :: rest) (us ++ vs)

/-- Tokens that symbols stand for, one symbol after the other. -/
def Spells (Q : Symbol → List String → Prop) : List Symbol → List String → Prop
  | [], tokens => tokens = []
  | symbol :: rest, tokens => ∃ us vs, tokens = us ++ vs ∧ Q symbol us ∧ Spells Q rest vs

theorem spells_singleton {Q : Symbol → List String → Prop} {symbol : Symbol}
    {tokens : List String} : Spells Q [symbol] tokens ↔ Q symbol tokens := by
  constructor
  · rintro ⟨us, vs, rfl, h, rfl⟩
    rwa [List.append_nil]
  · intro h
    exact ⟨tokens, [], (List.append_nil tokens).symm, h, rfl⟩

theorem Spells.imp {Q Q' : Symbol → List String → Prop} {symbols : List Symbol}
    {tokens : List String} (h : Spells Q symbols tokens)
    (hQ : ∀ symbol ∈ symbols, ∀ us, Q symbol us → Q' symbol us) : Spells Q' symbols tokens := by
  induction symbols generalizing tokens with
  | nil => exact h
  | cons symbol rest ih =>
    obtain ⟨us, vs, rfl, hs, hrest⟩ := h
    exact ⟨us, vs, rfl, hQ symbol List.mem_cons_self us hs,
      ih hrest fun s hs => hQ s (List.mem_cons_of_mem symbol hs)⟩

theorem spells_map {Q : Symbol → List String → Prop} {f : Symbol → Symbol} {symbols : List Symbol}
    {tokens : List String} :
    Spells Q (symbols.map f) tokens ↔ Spells (fun symbol => Q (f symbol)) symbols tokens := by
  induction symbols generalizing tokens with
  | nil => rfl
  | cons symbol rest ih => simp only [List.map_cons, Spells, ih]

namespace Yields

variable {rules : Ruleset α} {symbols : List Symbol} {tokens : List String}

theorem nil_iff : Yields rules [] tokens ↔ tokens = [] := by
  constructor
  · intro h
    cases h
    rfl
  · rintro rfl
    exact .nil

/-- What a label yields a body of it yields. -/
theorem label_iff {label : String} :
    Yields rules [.nonterminal label] tokens ↔
      ∃ body, rules.Has label body ∧ Yields rules body tokens := by
  constructor
  · intro h
    cases h with
    | rule hrule hbody hrest =>
      rw [nil_iff.mp hrest, List.append_nil]
      exact ⟨_, hrule, hbody⟩
  · rintro ⟨body, hrule, hbody⟩
    have h := Yields.rule hrule hbody .nil
    rwa [List.append_nil] at h

theorem word_iff {word : String} :
    Yields rules [.terminal word] tokens ↔
      ∃ token, tokens = [token] ∧ Text.lowerCase word = Text.lowerCase token := by
  constructor
  · intro h
    cases h with
    | word hmatch hrest =>
      rw [nil_iff.mp hrest]
      exact ⟨_, rfl, hmatch⟩
  · rintro ⟨token, rfl, hmatch⟩
    exact .word hmatch .nil

theorem cons_iff {symbol : Symbol} {rest : List Symbol} :
    Yields rules (symbol :: rest) tokens ↔
      ∃ us vs, tokens = us ++ vs ∧ Yields rules [symbol] us ∧ Yields rules rest vs := by
  constructor
  · intro h
    cases h with
    | word hmatch hrest => exact ⟨[_], _, rfl, word_iff.mpr ⟨_, rfl, hmatch⟩, hrest⟩
    | rule hrule hbody hrest => exact ⟨_, _, rfl, label_iff.mpr ⟨_, hrule, hbody⟩, hrest⟩
  · rintro ⟨us, vs, rfl, hs, hrest⟩
    cases symbol with
    | terminal word =>
      obtain ⟨token, rfl, hmatch⟩ := word_iff.mp hs
      exact .word hmatch hrest
    | nonterminal label =>
      obtain ⟨body, hrule, hbody⟩ := label_iff.mp hs
      exact .rule hrule hbody hrest

/-- Symbols yield what each of them yields, one after the other. -/
theorem iff_spells :
    Yields rules symbols tokens ↔ Spells (fun symbol => Yields rules [symbol]) symbols tokens := by
  induction symbols generalizing tokens with
  | nil => exact nil_iff
  | cons symbol rest ih =>
    rw [cons_iff, Spells]
    simp only [ih]

end Yields

/-- A reading that matches words, and in which every rule rewrites its head to something that the
head stands for. -/
structure IsModel (rules : Ruleset α) (Q : Symbol → List String → Prop) : Prop where
  word : ∀ word token, Text.lowerCase word = Text.lowerCase token → Q (.terminal word) [token]
  rule : ∀ head body tokens, rules.Has head body → Spells Q body tokens →
    Q (.nonterminal head) tokens

/-- Symbols stand for what they yield. -/
theorem IsModel.spells {rules : Ruleset α} {Q : Symbol → List String → Prop}
    (hQ : IsModel rules Q) {symbols : List Symbol} {tokens : List String}
    (h : Yields rules symbols tokens) : Spells Q symbols tokens := by
  induction h with
  | nil => rfl
  | word hmatch _ ih => exact ⟨[_], _, rfl, hQ.word _ _ hmatch, ih⟩
  | rule hrule _ _ ihbody ihrest => exact ⟨_, _, rfl, hQ.rule _ _ _ hrule ihbody, ihrest⟩

/-- If the yields of other rules justify every rule, they include all yields. -/
theorem Yields.of_justified {rules others : Ruleset α}
    (hrules : ∀ head body tokens, rules.Has head body → Yields others body tokens →
      Yields others [.nonterminal head] tokens)
    {symbols : List Symbol} {tokens : List String} (h : Yields rules symbols tokens) :
    Yields others symbols tokens := by
  have hmodel : IsModel rules fun symbol => Yields others [symbol] :=
    ⟨fun _ token hmatch => Yields.word_iff.mpr ⟨token, rfl, hmatch⟩,
      fun head body ts hrule hbody => hrules head body ts hrule (Yields.iff_spells.mpr hbody)⟩
  exact Yields.iff_spells.mpr (hmodel.spells h)

end Constituency
