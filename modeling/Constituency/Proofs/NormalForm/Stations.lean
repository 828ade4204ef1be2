import Constituency.NormalForm.Binarization
import Constituency.Proofs.Language.Yields
import Constituency.Proofs.NormalForm.Names

/-!
# The stations of a chain

The chain that stands for a long rule has one link at each of its stations. The head of a station
stands for what is left of the body there. Rules share stations, but a synthetic label gives away
which label and which first symbol have come before it (`exists_before`); so the tails of different
rules do not mix, and splitting rules keeps the language.
-/
namespace Constituency

/-- A label and the body that it stands for. -/
structure Station where
  head : String
  body : List Symbol
deriving DecidableEq

namespace Station

/-- The station after the first symbol of a body with more than two. -/
def next? : Station → Option Station
  | ⟨head, first :: second :: third :: rest⟩ =>
    some ⟨syntheticLabel head first second, second :: third :: rest⟩
  | _ => none

/-- What the link at a station rewrites its head to. -/
def linkBody : Station → List Symbol
  | ⟨head, first :: second :: _ :: _⟩ =>
    [first, .nonterminal (syntheticLabel head first second)]
  | ⟨_, body⟩ => body

/-- The stations from a head and a body on. -/
def line (head : String) : List Symbol → List Station
  | first :: second :: third :: rest =>
    ⟨head, first :: second :: third :: rest⟩ ::
      line (syntheticLabel head first second) (second :: third :: rest)
  | body => [⟨head, body⟩]

theorem next?_eq_some {s n : Station} (h : s.next? = some n) :
    ∃ first second, s.body = first :: n.body ∧ n.body.head? = some second ∧
      n.head = syntheticLabel s.head first second ∧ s.linkBody = [first, .nonterminal n.head] := by
  obtain ⟨head, body⟩ := s
  match body, h with
  | first :: second :: third :: rest, h =>
    cases h
    exact ⟨first, second, rfl, rfl, rfl, rfl⟩

theorem two_le_length_of_next? {s n : Station} (h : s.next? = some n) : 2 ≤ n.body.length := by
  obtain ⟨head, body⟩ := s
  match body, h with
  | first :: second :: third :: rest, h =>
    cases h
    simp

theorem length_le_two {body : List Symbol} (h : ∀ first second third rest,
    body = first :: second :: third :: rest → False) : body.length ≤ 2 := by
  match body, h with
  | [], _ => simp
  | [_], _ => simp
  | [_, _], _ => simp
  | first :: second :: third :: rest, h => exact absurd rfl (h first second third rest)

theorem next?_eq_none {head : String} {body : List Symbol} (h : body.length ≤ 2) :
    next? ⟨head, body⟩ = none := by
  match body, h with
  | [], _ => rfl
  | [_], _ => rfl
  | [_, _], _ => rfl

theorem line_of_length_le {head : String} {body : List Symbol} (h : body.length ≤ 2) :
    line head body = [⟨head, body⟩] := by
  match body, h with
  | [], _ => rfl
  | [_], _ => rfl
  | [_, _], _ => rfl

theorem linkBody_of_next?_eq_none {s : Station} (h : s.next? = none) :
    s.linkBody = s.body ∧ s.body.length ≤ 2 := by
  obtain ⟨head, body⟩ := s
  match body, h with
  | [], _ => exact ⟨rfl, by simp⟩
  | [_], _ => exact ⟨rfl, by simp⟩
  | [_, _], _ => exact ⟨rfl, by simp⟩

/-- After its first station a line runs through the stations that come next. -/
theorem line_eq (head : String) (body : List Symbol) :
    line head body = ⟨head, body⟩ :: (line head body).filterMap next? := by
  fun_induction line head body with
  | case1 head first second third rest ih =>
    rw [List.filterMap_cons]
    simp only [next?]
    rw [← ih]
  | case2 head body hshort =>
    simp [next?_eq_none (length_le_two hshort)]

theorem mem_line_iff {head : String} {body : List Symbol} {s : Station} :
    s ∈ line head body ↔
      s = ⟨head, body⟩ ∨ ∃ p ∈ line head body, p.next? = some s := by
  rw [line_eq, List.mem_cons, List.mem_filterMap, ← line_eq]

/-- A body of a station is what is left of the whole body. -/
theorem suffix_of_mem_line {head : String} {body : List Symbol} {s : Station}
    (h : s ∈ line head body) : s.body <:+ body := by
  fun_induction line head body with
  | case1 head first second third rest ih =>
    rcases List.mem_cons.mp h with rfl | h
    · exact List.suffix_refl _
    · exact (ih h).trans (List.suffix_cons first _)
  | case2 head body hshort =>
    obtain rfl := List.mem_singleton.mp h
    exact List.suffix_refl _

/-- The label of a station begins with the head of the line. -/
theorem prefix_of_mem_line {head : String} {body : List Symbol} {s : Station}
    (h : s ∈ line head body) : head.toList <+: s.head.toList := by
  fun_induction line head body with
  | case1 head first second third rest ih =>
    rcases List.mem_cons.mp h with rfl | h
    · exact List.prefix_refl _
    · refine List.IsPrefix.trans ?_ (ih h)
      rw [toList_syntheticLabel]
      exact List.prefix_append _ _
  | case2 head body hshort =>
    obtain rfl := List.mem_singleton.mp h
    exact List.prefix_refl _

/-- The label of a station begins with an underscore only if the head of the line does. -/
theorem underscore_head?_of_mem_line {head : String} {body : List Symbol} {s : Station}
    (h : s ∈ line head body) (hs : s.head.toList.head? = some '_') :
    head.toList.head? = some '_' := by
  fun_induction line head body with
  | case1 head first second third rest ih =>
    rcases List.mem_cons.mp h with rfl | h
    · exact hs
    · have hsynthetic := ih h
      rw [toList_syntheticLabel] at hsynthetic
      cases hhead : head.toList with
      | nil => simp [hhead] at hsynthetic
      | cons c cs => simpa [hhead] using hsynthetic
  | case2 head body hshort =>
    obtain rfl := List.mem_singleton.mp h
    exact hs

theorem body_ne_nil_of_mem_line {head : String} {body : List Symbol} {s : Station}
    (h : s ∈ line head body) (hbody : body ≠ []) : s.body ≠ [] := by
  rcases mem_line_iff.mp h with rfl | ⟨p, -, hp⟩
  · exact hbody
  · obtain ⟨first, second, -, hsecond, -⟩ := next?_eq_some hp
    intro hnil
    simp [hnil] at hsecond

end Station

namespace Rule

variable {α : Type}

/-- The stations of the chain of a rule. -/
def stations (rule : Rule α) : List Station :=
  Station.line rule.head rule.body

theorem links_eq (rule : Rule α) (head : String) (body : List Symbol) :
    rule.links head body =
      (Station.line head body).map fun s => rule.derive s.head s.linkBody rule.weight := by
  fun_induction Station.line head body with
  | case1 head first second third rest ih =>
    rw [links, List.map_cons, ih]
    rfl
  | case2 head body hshort =>
    match body, hshort with
    | [], _ => rfl
    | [_], _ => rfl
    | [_, _], _ => rfl
    | first :: second :: third :: rest, hshort => exact absurd rfl (hshort first second third rest)

/-- A chain has one link at each station. -/
theorem chain_eq (rule : Rule α) :
    rule.chain = rule.stations.map fun s => rule.derive s.head s.linkBody rule.weight :=
  rule.links_eq rule.head rule.body

theorem syntheticLabels_eq (rule : Rule α) :
    rule.syntheticLabels = (rule.stations.filterMap Station.next?).map (·.head) := by
  rw [syntheticLabels, chain_eq, stations, Station.line_eq, List.map_cons, List.tail_cons,
    ← Station.line_eq, List.map_map]
  rfl

theorem stations_of_not_isLong {rule : Rule α} (h : rule.isLong = false) :
    rule.stations = [⟨rule.head, rule.body⟩] ∧
      Station.linkBody ⟨rule.head, rule.body⟩ = rule.body := by
  rw [isLong, decide_eq_false_iff_not, Nat.not_lt] at h
  exact ⟨Station.line_of_length_le h,
    (Station.linkBody_of_next?_eq_none (Station.next?_eq_none h)).1⟩

end Rule

namespace Ruleset

variable {α : Type} {rules : Ruleset α} {head : String} {body : List Symbol}

/-- What is left at a station has symbols of the rules only. -/
theorem mem_symbols_of_mem_stations {rule : Rule α} (hr : rule ∈ rules) {s : Station}
    (hs : s ∈ rule.stations) {symbol : Symbol} (hm : symbol ∈ s.body) : symbol ∈ rules.symbols :=
  Has.mem_symbols_of_mem ⟨rule, hr, rfl, rfl⟩ ((Station.suffix_of_mem_line hs).subset hm)

/-- The label of a station that comes next is not plain. -/
theorem not_isPlainName_of_next? {s n : Station} (hn : s.next? = some n) :
    ¬ IsPlainName n.head := by
  obtain ⟨first, second, -, -, hhead, -⟩ := Station.next?_eq_some hn
  exact fun hplain => hplain.1 (hhead ▸ bar_mem_syntheticLabel s.head first second)

/-- A station whose label is plain is the first one. -/
theorem eq_first_of_isPlainName {rule : Rule α} {s : Station} (hs : s ∈ rule.stations)
    (hp : IsPlainName s.head) : s.head = rule.head ∧ s.body = rule.body := by
  rcases Station.mem_line_iff.mp hs with rfl | ⟨p, -, hn⟩
  · exact ⟨rfl, rfl⟩
  · exact absurd hp (not_isPlainName_of_next? hn)

/-- Two stations that are followed by stations with one label, in whatever chains, have one label
and one first symbol. -/
theorem before_eq (hnames : rules.PlainNames) {rule rule' : Rule α} (hr : rule ∈ rules)
    (hr' : rule' ∈ rules) {s n s' n' : Station} (hs : s ∈ rule.stations) (hn : s.next? = some n)
    (hs' : s' ∈ rule'.stations) (hn' : s'.next? = some n') (hhead : n'.head = n.head) :
    s'.head = s.head ∧ s'.body.head? = s.body.head? := by
  obtain ⟨first, second, hbody, hsecond, hsyn, -⟩ := Station.next?_eq_some hn
  obtain ⟨first', second', hbody', hsecond', hsyn', -⟩ := Station.next?_eq_some hn'
  have hfirst : first ∈ rules.symbols :=
    mem_symbols_of_mem_stations hr hs (hbody ▸ List.mem_cons_self)
  have hfirst' : first' ∈ rules.symbols :=
    mem_symbols_of_mem_stations hr' hs' (hbody' ▸ List.mem_cons_self)
  have hsec : second ∈ rules.symbols := mem_symbols_of_mem_stations hr hs
    (hbody ▸ List.mem_cons_of_mem first (List.mem_of_mem_head? hsecond))
  have hsec' : second' ∈ rules.symbols := mem_symbols_of_mem_stations hr' hs'
    (hbody' ▸ List.mem_cons_of_mem first' (List.mem_of_mem_head? hsecond'))
  obtain ⟨hlabel, hname, -⟩ := syntheticLabel_injective (hnames.plain _ hfirst')
    (hnames.plain _ hsec') (hnames.plain _ hfirst) (hnames.plain _ hsec) (hsyn' ▸ hsyn ▸ hhead)
  refine ⟨hlabel, ?_⟩
  rw [hbody, hbody', hnames.name_injective hfirst' hfirst hname, List.head?_cons, List.head?_cons]

theorem isPlainName_head (hnames : rules.PlainNames) {rule : Rule α} (hr : rule ∈ rules) :
    IsPlainName rule.head :=
  hnames.plain _ (Has.head_mem_symbols ⟨rule, hr, rfl, rfl⟩)

/-- What has come before a station, in whatever chain, can be read off its synthetic label. -/
theorem exists_before (hnames : rules.PlainNames) {rule rule' : Rule α} (hr : rule ∈ rules)
    (hr' : rule' ∈ rules) {s n s' : Station} (hs : s ∈ rule.stations) (hn : s.next? = some n)
    (hs' : s' ∈ rule'.stations) (hhead : s'.head = n.head) :
    ∃ p ∈ rule'.stations, p.next? = some s' ∧ p.head = s.head ∧
      p.body.head? = s.body.head? := by
  rcases Station.mem_line_iff.mp hs' with rfl | ⟨p, hp, hnext⟩
  · have hplain : IsPlainName n.head := hhead ▸ isPlainName_head hnames hr'
    exact absurd hplain (not_isPlainName_of_next? hn)
  · exact ⟨p, hp, hnext, before_eq hnames hr hr' hs hn hp hnext hhead⟩

/-! ### The language of the links -/

/-- A label yields what the body at the end of all its links yields. -/
theorem yields_of_links {others : Ruleset α} {head : String} {body : List Symbol}
    {tokens : List String} (hlinks : ∀ s ∈ Station.line head body, others.Has s.head s.linkBody)
    (h : Yields others body tokens) : Yields others [.nonterminal head] tokens := by
  fun_induction Station.line head body generalizing tokens with
  | case1 head first second third rest ih =>
    obtain ⟨us, vs, rfl, hus, hvs⟩ := Yields.cons_iff.mp h
    have htail := ih (fun s hs => hlinks s (List.mem_cons_of_mem _ hs)) hvs
    exact Yields.label_iff.mpr ⟨_, hlinks _ List.mem_cons_self,
      Yields.cons_iff.mpr ⟨us, vs, rfl, hus, htail⟩⟩
  | case2 head body hshort =>
    have hlink := hlinks _ (List.mem_singleton.mpr rfl)
    have hnone : Station.next? ⟨head, body⟩ = none :=
      Station.next?_eq_none (Station.length_le_two hshort)
    rw [(Station.linkBody_of_next?_eq_none hnone).1] at hlink
    exact Yields.label_iff.mpr ⟨body, hlink, h⟩

/-- The tokens that a symbol stands for once rules are split: a label stands for what is left at its
stations. -/
def Stands (rules : Ruleset α) : Symbol → List String → Prop
  | .terminal word, tokens => Yields rules [.terminal word] tokens
  | .nonterminal label, tokens =>
    ∃ rule ∈ rules, ∃ s ∈ rule.stations, s.head = label ∧ Yields rules s.body tokens

/-- A symbol with a plain name stands for what it yields. -/
theorem stands_iff {symbol : Symbol} (hp : IsPlainName symbol.name) {tokens : List String} :
    rules.Stands symbol tokens ↔ Yields rules [symbol] tokens := by
  cases symbol with
  | terminal word => exact Iff.rfl
  | nonterminal label =>
    rw [Yields.label_iff]
    constructor
    · rintro ⟨rule, hr, s, hs, rfl, hyields⟩
      obtain ⟨hhead, hbody⟩ := eq_first_of_isPlainName hs hp
      exact ⟨s.body, ⟨rule, hr, hhead.symm, hbody.symm⟩, hyields⟩
    · rintro ⟨_, ⟨rule, hr, rfl, rfl⟩, hyields⟩
      exact ⟨rule, hr, ⟨rule.head, rule.body⟩, Station.mem_line_iff.mpr (.inl rfl), rfl, hyields⟩

theorem spells_stands {symbols : List Symbol} (hp : ∀ symbol ∈ symbols, IsPlainName symbol.name)
    {tokens : List String} (h : Spells rules.Stands symbols tokens) :
    Yields rules symbols tokens :=
  Yields.iff_spells.mpr (h.imp fun symbol hs _ => (stands_iff (hp symbol hs)).mp)

variable [Weight α]

/-- Splitting rules leaves the links at the stations of all rules. -/
theorem has_binarize_iff :
    rules.binarize.Has head body ↔
      ∃ rule ∈ rules, ∃ s ∈ rule.stations, s.head = head ∧ s.linkBody = body := by
  have hchain : ∀ rule : Rule α, Has rule.chain head body ↔
      ∃ s ∈ rule.stations, s.head = head ∧ s.linkBody = body := by
    intro rule
    rw [Rule.chain_eq]
    simp [Has, Rule.derive]
  rw [binarize, has_append, has_map (fun link => by split <;> exact ⟨rfl, rfl⟩), has_merge,
    has_flatMap]
  simp only [hchain]
  constructor
  · rintro (⟨rule, hr, rfl, rfl⟩ | ⟨rule, hr, h⟩)
    · obtain ⟨hmem, hshort⟩ := List.mem_filter.mp hr
      obtain ⟨hline, hlink⟩ := Rule.stations_of_not_isLong (by simpa using hshort)
      exact ⟨rule, hmem, _, hline ▸ List.mem_singleton.mpr rfl, rfl, hlink⟩
    · exact ⟨rule, (List.mem_filter.mp hr).1, h⟩
  · rintro ⟨rule, hr, s, hs, rfl, rfl⟩
    cases hlong : rule.isLong with
    | true => exact .inr ⟨rule, List.mem_filter.mpr ⟨hr, hlong⟩, s, hs, rfl, rfl⟩
    | false =>
      obtain ⟨hline, hlink⟩ := Rule.stations_of_not_isLong hlong
      rw [hline] at hs
      obtain rfl := List.mem_singleton.mp hs
      exact .inl ⟨rule, List.mem_filter.mpr ⟨hr, by simp [hlong]⟩, rfl, hlink.symm⟩

/-- Every link rewrites its head to something that the head stands for, in whatever rule the link
and what follows it have their origin. -/
theorem isModel_stands (hnames : rules.PlainNames) : IsModel rules.binarize rules.Stands where
  word word token hmatch := Yields.word_iff.mpr ⟨token, rfl, hmatch⟩
  rule head body tokens hrule hspells := by
    obtain ⟨rule, hr, s, hs, rfl, rfl⟩ := has_binarize_iff.mp hrule
    cases hn : s.next? with
    | none =>
      rw [(Station.linkBody_of_next?_eq_none hn).1] at hspells
      have hplain : ∀ symbol ∈ s.body, IsPlainName symbol.name :=
        fun symbol hm => hnames.plain _ (mem_symbols_of_mem_stations hr hs hm)
      exact ⟨rule, hr, s, hs, rfl, spells_stands hplain hspells⟩
    | some n =>
      obtain ⟨first, second, hbody, -, -, hlink⟩ := Station.next?_eq_some hn
      rw [hlink] at hspells
      obtain ⟨us, vs, rfl, hus, hvs⟩ := hspells
      rw [spells_singleton] at hvs
      obtain ⟨rule', hr', s', hs', hhead, hvs⟩ := hvs
      obtain ⟨p, hp, hnext, hlabel, hfirst⟩ := exists_before hnames hr hr' hs hn hs' hhead
      obtain ⟨first', -, hbody', -⟩ := Station.next?_eq_some hnext
      rw [hbody, hbody', List.head?_cons, List.head?_cons, Option.some.injEq] at hfirst
      subst hfirst
      have hmem : first' ∈ rules.symbols :=
        mem_symbols_of_mem_stations hr' hp (hbody' ▸ List.mem_cons_self)
      refine ⟨rule', hr', p, hp, hlabel, ?_⟩
      rw [hbody', Yields.cons_iff]
      exact ⟨us, vs, rfl, (stands_iff (hnames.plain _ hmem)).mp hus, hvs⟩

/-- Splitting rules keeps the language of every label with a plain name. -/
theorem yields_binarize_iff (hnames : rules.PlainNames) {label : String}
    (hlabel : IsPlainName label) {tokens : List String} :
    Yields rules.binarize [.nonterminal label] tokens ↔
      Yields rules [.nonterminal label] tokens := by
  constructor
  · intro h
    have hplain : IsPlainName (Symbol.nonterminal label).name := hlabel
    exact (stands_iff hplain).mp (spells_singleton.mp ((isModel_stands hnames).spells h))
  · refine Yields.of_justified fun head body us hrule hbody => ?_
    obtain ⟨rule, hr, rfl, rfl⟩ := hrule
    exact yields_of_links (fun s hs => has_binarize_iff.mpr ⟨rule, hr, s, hs, rfl, rfl⟩) hbody

end Ruleset

end Constituency
