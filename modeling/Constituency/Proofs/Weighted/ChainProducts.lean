import Mathlib.Algebra.BigOperators.Field
import Constituency.Proofs.NormalForm.DistinctFrames
import Constituency.Proofs.Weighted.Totals

/-!
# Products along chains

Links are merged within a language, but divided by the weight that all languages give to their
label. So along the chain of a rule all factors cancel but one for each synthetic label: the part
that the language of the rule has in the weight of the label (`prod_weight_ownLinks`). The product
is the weight of the rule if and only if no other language uses these labels.
-/
namespace Constituency

theorem prod_le_one_of_pos {factors : List ℚ} (h : ∀ x ∈ factors, 0 < x ∧ x ≤ 1) :
    0 < factors.prod ∧ factors.prod ≤ 1 := by
  induction factors with
  | nil => simp
  | cons x rest ih =>
    obtain ⟨⟨hx, hle⟩, hrest⟩ := List.forall_mem_cons.mp h
    obtain ⟨hp, hple⟩ := ih hrest
    rw [List.prod_cons]
    exact ⟨mul_pos hx hp, mul_le_one₀ hle hp.le hple⟩

/-- A product of numbers up to one is one only if all of them are. -/
theorem prod_eq_one_iff {factors : List ℚ} (h : ∀ x ∈ factors, 0 < x ∧ x ≤ 1) :
    factors.prod = 1 ↔ ∀ x ∈ factors, x = 1 := by
  refine ⟨fun hone => ?_, List.prod_eq_one⟩
  induction factors with
  | nil => simp
  | cons x rest ih =>
    obtain ⟨⟨hx, hle⟩, hrest⟩ := List.forall_mem_cons.mp h
    rw [List.prod_cons] at hone
    have hxone : x = 1 :=
      le_antisymm hle (hone ▸ mul_le_of_le_one_right hx.le (prod_le_one_of_pos hrest).2)
    rw [hxone, one_mul] at hone
    exact List.forall_mem_cons.mpr ⟨hxone, ih hrest hone⟩

namespace Station

/-- The labels of a line get longer. -/
theorem nodup_map_head_line (head : String) (body : List Symbol) :
    ((line head body).map (·.head)).Nodup := by
  fun_induction line head body with
  | case1 head first second third rest ih =>
    rw [List.map_cons, List.nodup_cons]
    refine ⟨fun hmem => ?_, ih⟩
    obtain ⟨s, hs, hhead⟩ := List.mem_map.mp hmem
    have hlength := (prefix_of_mem_line hs).length_le
    rw [hhead, toList_syntheticLabel, List.length_append] at hlength
    simp at hlength
  | case2 head body hshort => exact List.nodup_singleton _

/-- Along a line every label but the first meets the factor for what comes before it. -/
theorem prod_line (share part : String → ℚ) (last : ℚ) (head : String) (body : List Symbol) :
    ((line head body).map fun s => share s.head * s.next?.elim last fun n => part n.head).prod =
      share head * last *
        (((line head body).filterMap next?).map fun n => part n.head * share n.head).prod := by
  fun_induction line head body with
  | case1 head first second third rest ih =>
    rw [List.map_cons, List.prod_cons, ih, List.filterMap_cons]
    simp only [next?, Option.elim_some, List.map_cons, List.prod_cons]
    ring
  | case2 head body hshort =>
    simp [next?_eq_none (length_le_two hshort)]

end Station

/-- No two links of a chain have the same frame. -/
theorem Rule.nodup_map_frame_chain (rule : Rule ℚ) : (rule.chain.map Rule.frame).Nodup := by
  refine List.Nodup.of_map Prod.fst ?_
  rw [map_frame_chain, List.map_map]
  exact Station.nodup_map_head_line rule.head rule.body

namespace Ruleset

variable {rules : Ruleset ℚ} {rule other : Rule ℚ} {s s' n : Station}

theorem PlainNames.clearNames (h : rules.PlainNames) : rules.ClearNames where
  noBar _ hlabel := (h.plain _ (mem_nonterminals.mp hlabel)).1
  plain rule hr _ _ hs := h.plain _ (Has.mem_symbols_of_mem ⟨rule, hr, rfl, rfl⟩ hs)
  apart rule hr _ other ho _ _ hs _ hs' :=
    h.name_injective (Has.mem_symbols_of_mem ⟨rule, hr, rfl, rfl⟩ hs)
      (Has.mem_symbols_of_mem ⟨other, ho, rfl, rfl⟩ hs')

/-! ### Which chains have a link -/

/-- Stations with one label are at one place, behind the same symbols. -/
theorem place_eq_of_head_eq (hclear : rules.ClearNames) (hr : rule ∈ rules) (ho : other ∈ rules)
    (hs : s ∈ rule.stations) (hs' : s' ∈ other.stations) (hhead : s'.head = s.head) :
    ∃ k, rule.stations[k]? = some s ∧ other.stations[k]? = some s' ∧ other.head = rule.head ∧
      other.body.take k = rule.body.take k := by
  obtain ⟨k, hk⟩ := List.mem_iff_getElem?.mp hs
  obtain ⟨k', hk'⟩ := List.mem_iff_getElem?.mp hs'
  have hplace : 0 < k ↔ 0 < k' := by
    rw [← bar_mem_head_iff hclear hr hk, ← bar_mem_head_iff hclear ho hk', hhead]
  cases k with
  | zero =>
    obtain rfl : k' = 0 := by omega
    refine ⟨0, hk, hk', ?_, rfl⟩
    rw [Rule.stations, Station.getElem?_line_zero] at hk hk'
    cases hk
    cases hk'
    exact hhead
  | succ k =>
    obtain ⟨k', rfl⟩ : ∃ m, k' = m + 1 := Nat.exists_eq_add_one.mpr (hplace.mp (Nat.succ_pos k))
    obtain ⟨rfl, hrule, htake⟩ := origin_eq_of_head_eq hclear ho hr hk' hk hhead
    refine ⟨_, hk, hk', hrule, ?_⟩
    have hshorter := congrArg (List.take (k' + 1)) htake
    rwa [List.take_take, List.take_take, min_eq_left (Nat.le_succ _)] at hshorter

/-- The link in front of a tail is in the chains that use the label of the tail. -/
theorem mem_map_frame_chain_of_next? (hnames : rules.PlainNames) (hr : rule ∈ rules)
    (ho : other ∈ rules) (hs : s ∈ rule.stations) (hn : s.next? = some n)
    {language : Option String} :
    (s.head, s.linkBody, language) ∈ other.chain.map Rule.frame ↔
      other.language = language ∧ n.head ∈ other.syntheticLabels := by
  obtain ⟨first, second, hbody, -, -, hlink⟩ := Station.next?_eq_some hn
  simp only [Rule.map_frame_chain, Rule.syntheticLabels_eq, List.mem_map, List.mem_filterMap,
    Prod.mk.injEq]
  constructor
  · rintro ⟨s', hs', -, hsame, rfl⟩
    refine ⟨rfl, ?_⟩
    rw [hlink] at hsame
    cases hn' : s'.next? with
    | none =>
      -- The last link has symbols of the rules only, and a label made up is none of them.
      rw [(Station.linkBody_of_next?_eq_none hn').1] at hsame
      have hmem : Symbol.nonterminal n.head ∈ rules.symbols :=
        mem_symbols_of_mem_stations ho hs' (by simp [hsame])
      exact absurd (hnames.plain _ hmem) (not_isPlainName_of_next? hn)
    | some n' =>
      obtain ⟨first', -, -, -, -, hlink'⟩ := Station.next?_eq_some hn'
      rw [hlink'] at hsame
      exact ⟨n', ⟨s', hs', hn'⟩, by simp_all⟩
  · rintro ⟨rfl, n', ⟨s', hs', hn'⟩, hhead⟩
    obtain ⟨first', -, hbody', -, -, hlink'⟩ := Station.next?_eq_some hn'
    obtain ⟨hlabel, hfirst⟩ := before_eq hnames hr ho hs hn hs' hn' hhead
    rw [hbody, hbody', List.head?_cons, List.head?_cons, Option.some.injEq] at hfirst
    exact ⟨s', hs', hlabel, by rw [hlink, hlink', hfirst, hhead], rfl⟩

/-- The last link is in the chains of rules with the same frame. -/
theorem mem_map_frame_chain_of_last (hnames : rules.PlainNames) (hr : rule ∈ rules)
    (ho : other ∈ rules) (hs : s ∈ rule.stations) (hn : s.next? = none) :
    (s.head, s.linkBody, rule.language) ∈ other.chain.map Rule.frame ↔
      other.frame = rule.frame := by
  simp only [Rule.map_frame_chain, List.mem_map, Prod.mk.injEq, Rule.frame]
  constructor
  · rintro ⟨s', hs', hhead, hsame, hlanguage⟩
    rw [(Station.linkBody_of_next?_eq_none hn).1] at hsame
    obtain ⟨k, hk, hk', hrule, htake⟩ :=
      place_eq_of_head_eq hnames.clearNames hr ho hs hs' hhead
    cases hn' : s'.next? with
    | none =>
      rw [(Station.linkBody_of_next?_eq_none hn').1, Station.body_eq_drop hk,
        Station.body_eq_drop hk'] at hsame
      refine ⟨hrule, ?_, hlanguage⟩
      rw [← List.take_append_drop k other.body, htake, hsame, List.take_append_drop]
    | some n' =>
      obtain ⟨first', -, -, -, -, hlink'⟩ := Station.next?_eq_some hn'
      have hmem : Symbol.nonterminal n'.head ∈ rules.symbols :=
        mem_symbols_of_mem_stations hr hs (by simp [← hsame, hlink'])
      exact absurd (hnames.plain _ hmem) (not_isPlainName_of_next? hn')
  · rintro ⟨hhead, hbody, hlanguage⟩
    refine ⟨s, ?_, rfl, rfl, hlanguage⟩
    rwa [Rule.stations, hhead, hbody]

/-! ### The weights of links -/

/-- The rules of a language. -/
def inLanguage (rules : Ruleset ℚ) (language : Option String) : Ruleset ℚ :=
  rules.filter (·.language = language)

/-- The total weight of the rules that use a synthetic label. -/
def userTotal (rules : Ruleset ℚ) (label : String) : ℚ :=
  ((rules.filter (label ∈ ·.syntheticLabels)).map (·.weight)).sum

/-- A filtered sum counts nothing for what is left out. -/
theorem sum_map_filter {ι : Type} (l : List ι) (p : ι → Prop) [DecidablePred p] (f : ι → ℚ) :
    ((l.filter p).map f).sum = (l.map fun i => if p i then f i else 0).sum := by
  induction l with
  | nil => rfl
  | cons i l ih =>
    rw [List.filter_cons, List.map_cons, List.sum_cons, ← ih]
    by_cases h : p i <;> simp [h]

theorem weightAt_flatMap {ι : Type} (items : List ι) (f : ι → Ruleset ℚ) (frame : Frame) :
    weightAt (items.flatMap f) frame = (items.map fun i => (f i).weightAt frame).sum := by
  induction items with
  | nil => rfl
  | cons i items ih => rw [List.flatMap_cons, weightAt_append, ih, List.map_cons, List.sum_cons]

/-- Each link of a chain has the weight of the rule. -/
theorem weightAt_chain (rule : Rule ℚ) (frame : Frame) : weightAt rule.chain frame =
    if frame ∈ rule.chain.map Rule.frame then rule.weight else 0 := by
  split
  · rename_i hframe
    obtain ⟨link, hl, rfl⟩ := List.mem_map.mp hframe
    rw [weightAt_eq_weight rule.nodup_map_frame_chain hl]
    rw [Rule.chain_eq] at hl
    obtain ⟨s, -, rfl⟩ := List.mem_map.mp hl
    rfl
  · rename_i hframe
    exact weightAt_eq_zero hframe

/-- The weight of a link adds up the rules with this link in their chains. -/
theorem weightAt_chains (rules : Ruleset ℚ) (frame : Frame) :
    weightAt (rules.flatMap Rule.chain) frame =
      ((rules.filter (frame ∈ ·.chain.map Rule.frame)).map (·.weight)).sum := by
  rw [weightAt_flatMap, sum_map_filter]
  exact congrArg List.sum (List.map_congr_left fun rule _ => weightAt_chain rule frame)

theorem weightAt_chains_of_next? (hnames : rules.PlainNames) (hr : rule ∈ rules)
    (hs : s ∈ rule.stations) (hn : s.next? = some n) (language : Option String) :
    weightAt (rules.flatMap Rule.chain) (s.head, s.linkBody, language) =
      (rules.inLanguage language).userTotal n.head := by
  rw [weightAt_chains, userTotal, inLanguage, List.filter_filter]
  refine congrArg List.sum (congrArg _ (List.filter_congr fun other ho => ?_))
  simp only [mem_map_frame_chain_of_next? hnames hr ho hs hn, Bool.decide_and, Bool.and_comm]

theorem weightAt_chains_of_last (hnames : rules.PlainNames) (hr : rule ∈ rules)
    (hs : s ∈ rule.stations) (hn : s.next? = none) :
    weightAt (rules.flatMap Rule.chain) (s.head, s.linkBody, rule.language) =
      rules.weightAt rule.frame := by
  rw [weightAt_chains, weightAt]
  refine congrArg List.sum (congrArg _ (List.filter_congr fun other ho => ?_))
  simp only [mem_map_frame_chain_of_last hnames hr ho hs hn]

theorem chains_of_short : (rules.filter fun rule => !rule.isLong).flatMap Rule.chain =
    rules.filter fun rule => !rule.isLong := by
  have hchain : ∀ rule ∈ rules.filter fun rule => !rule.isLong, rule.chain = [rule] := by
    intro rule hr
    have hshort : rule.isLong = false := by simpa using (List.mem_filter.mp hr).2
    obtain ⟨hstations, hlink⟩ := Rule.stations_of_not_isLong hshort
    rw [Rule.chain_eq, hstations, List.map_singleton, hlink]
    rfl
  rw [List.flatMap_congr hchain, List.flatMap_singleton']

/-- Every rule that is there once rules are split is in some chain, apart from its weight. -/
theorem exists_mem_chain {made : Rule ℚ} (hm : made ∈ rules.binarize) :
    ∃ rule ∈ rules, made.frame ∈ rule.chain.map Rule.frame := by
  have hframe := List.mem_map_of_mem (f := Rule.frame) hm
  rw [map_frame_binarize, ← chains_of_short, List.mem_append, mem_map_frame_merge,
    List.map_flatMap, List.map_flatMap, List.mem_flatMap, List.mem_flatMap] at hframe
  obtain ⟨rule, hr, hframe⟩ | ⟨rule, hr, hframe⟩ := hframe
  · exact ⟨rule, (List.mem_filter.mp hr).1, hframe⟩
  · exact ⟨rule, (List.mem_filter.mp hr).1, hframe⟩

/-- Splitting rules multiplies the weight of a link with the share of its label. -/
theorem weightAt_binarize (htails : rules.TailsNew) (frame : Frame) :
    rules.binarize.weightAt frame =
      rules.stationShare frame.1 * weightAt (rules.flatMap Rule.chain) frame := by
  have hscaled : ∀ links : Ruleset ℚ,
      weightAt (links.map fun link =>
        { link with weight := rules.stationShare link.head * link.weight }) frame =
      rules.stationShare frame.1 * links.weightAt frame := by
    intro links
    induction links with
    | nil => simp [weightAt]
    | cons link links ih =>
      rw [List.map_cons, weightAt_cons, weightAt_cons, ih, mul_add, mul_ite, mul_zero]
      refine congrArg (· + _) (ite_congr rfl (fun hframe => ?_) fun _ => rfl)
      rw [← show link.head = frame.1 from congrArg Prod.fst hframe]
  have hshort : weightAt (rules.filter fun rule => !rule.isLong) frame =
      rules.stationShare frame.1 * weightAt (rules.filter fun rule => !rule.isLong) frame := by
    by_cases hframe : frame ∈ (rules.filter fun rule => !rule.isLong).map Rule.frame
    · obtain ⟨rule, hr, rfl⟩ := List.mem_map.mp hframe
      have hhead : rule.frame.1 ∉ rules.tailLabels := htails rule (List.mem_filter.mp hr).1
      rw [stationShare, if_neg hhead, one_mul]
    · rw [weightAt_eq_zero hframe, mul_zero]
  have hperm : (rules.flatMap Rule.chain).Perm
      ((rules.filter Rule.isLong).flatMap Rule.chain ++
        (rules.filter fun rule => !rule.isLong).flatMap Rule.chain) := by
    rw [← List.flatMap_append]
    exact (List.filter_append_perm Rule.isLong rules).symm.flatMap_right _
  have hsum : weightAt (rules.flatMap Rule.chain) frame =
      weightAt ((rules.filter Rule.isLong).flatMap Rule.chain) frame +
        weightAt (rules.filter fun rule => !rule.isLong) frame := by
    rw [← weightAt_append, ← chains_of_short]
    exact ((hperm.filter _).map _).sum_eq
  rw [binarize_eq htails, weightAt_append, hscaled, weightAt_merge, hshort, hsum]
  ring

theorem spread_eq_sum (rules : Ruleset ℚ) (ψ : Station → ℚ) : rules.spread ψ =
    (rules.map fun rule => rule.weight * (rule.stations.map ψ).sum).sum := by
  induction rules with
  | nil => rfl
  | cons rule rules ih => rw [spread_cons, ih, List.map_cons, List.sum_cons]

/-- The first station has no tail's label. -/
theorem mem_map_head_stations_iff (htails : rules.TailsNew) (hr : rule ∈ rules) {label : String}
    (hlabel : label ∈ rules.tailLabels) :
    label ∈ rule.stations.map (·.head) ↔ label ∈ rule.syntheticLabels := by
  rw [Rule.syntheticLabels_eq, Rule.stations, Station.line_eq, List.map_cons, List.mem_cons,
    ← Station.line_eq]
  exact or_iff_right fun h => htails rule hr ((show label = rule.head from h) ▸ hlabel)

/-- A tail's label counts the rules that use it. -/
theorem stationTotal_eq_userTotal (htails : rules.TailsNew) {label : String}
    (hlabel : label ∈ rules.tailLabels) : rules.stationTotal label = rules.userTotal label := by
  have hcount : ∀ rule ∈ rules,
      (rule.stations.map fun s => if s.head = label then (1 : ℚ) else 0).sum =
        if label ∈ rule.syntheticLabels then 1 else 0 := by
    intro rule hr
    have hheads : (rule.stations.map (·.head)).Nodup :=
      Station.nodup_map_head_line rule.head rule.body
    have hones : (rule.stations.map fun s => if s.head = label then (1 : ℚ) else 0).sum =
        (rule.stations.map (·.head)).count label := by
      rw [← sum_map_filter, List.count, List.countP_map, List.countP_eq_length_filter]
      simp [Function.comp_def, beq_eq_decide]
    rw [hones, hheads.count, Nat.cast_ite, Nat.cast_one, Nat.cast_zero]
    exact if_congr (mem_map_head_stations_iff htails hr hlabel) rfl rfl
  rw [stationTotal, spread_eq_sum, userTotal, sum_map_filter]
  refine congrArg List.sum (List.map_congr_left fun rule hr => ?_)
  rw [hcount rule hr, mul_ite, mul_one, mul_zero]

/-- The weight of the links that split a rule, in its language. -/
theorem weightAt_binarize_of_mem_stations (hnames : rules.PlainNames) (hr : rule ∈ rules)
    (hs : s ∈ rule.stations) :
    rules.binarize.weightAt (s.head, s.linkBody, rule.language) =
      rules.stationShare s.head * s.next?.elim (rules.weightAt rule.frame)
        fun n => (rules.inLanguage rule.language).userTotal n.head := by
  rw [weightAt_binarize hnames.tailsNew]
  cases hn : s.next? with
  | none => rw [weightAt_chains_of_last hnames hr hs hn, Option.elim_none]
  | some n => rw [weightAt_chains_of_next? hnames hr hs hn, Option.elim_some]

/-! ### The links of one rule -/

/-- The links of a rule that are there once rules are split. -/
def ownLinks (rules : Ruleset ℚ) (rule : Rule ℚ) : Ruleset ℚ :=
  rules.binarize.filter (·.frame ∈ rule.chain.map Rule.frame)

/-- A long rule has each link of its chain once, with all the weight that the link has. -/
theorem ownLinks_spec (hnames : rules.PlainNames) (hr : rule ∈ rules) (hlong : rule.isLong = true) :
    ((rules.ownLinks rule).map Rule.frame).Perm (rule.chain.map Rule.frame) ∧
      ∀ link ∈ rules.ownLinks rule, link.weight = rules.binarize.weightAt link.frame := by
  have hnew : ∀ frame ∈ rule.chain.map Rule.frame,
      frame ∉ (rules.filter fun rule => !rule.isLong).map Rule.frame := by
    intro frame hframe hshort
    obtain ⟨link, hl, rfl⟩ := List.mem_map.mp hframe
    exact frame_notMem_of_mem_chain hnames.clearNames.noBar hlong hl
      ((List.filter_sublist.map _).subset hshort)
  obtain ⟨links, hbinarize, hframes⟩ : ∃ links : Ruleset ℚ,
      rules.binarize = rules.filter (fun rule => !rule.isLong) ++ links ∧
        links.map Rule.frame =
          (merge ((rules.filter Rule.isLong).flatMap Rule.chain)).map Rule.frame := by
    refine ⟨_, binarize_eq hnames.tailsNew, ?_⟩
    rw [List.map_map]
    rfl
  have hnodup : (links.map Rule.frame).Nodup := hframes ▸ nodup_map_frame_merge _
  have hown : rules.ownLinks rule = links.filter (·.frame ∈ rule.chain.map Rule.frame) := by
    have hnone : (rules.filter fun rule => !rule.isLong).filter
        (·.frame ∈ rule.chain.map Rule.frame) = [] := by
      refine List.filter_eq_nil_iff.mpr fun short hs hframe => ?_
      exact hnew _ (of_decide_eq_true hframe) (List.mem_map_of_mem hs)
    rw [ownLinks, hbinarize, List.filter_append, hnone, List.nil_append]
  constructor
  · have hsublist := (List.filter_sublist (l := links)
      (p := (·.frame ∈ rule.chain.map Rule.frame))).map Rule.frame
    rw [hown, List.perm_ext_iff_of_nodup (hnodup.sublist hsublist) rule.nodup_map_frame_chain]
    intro frame
    constructor
    · intro hframe
      obtain ⟨link, hl, rfl⟩ := List.mem_map.mp hframe
      exact of_decide_eq_true (List.mem_filter.mp hl).2
    · intro hframe
      have hmem : frame ∈ links.map Rule.frame := by
        rw [hframes, mem_map_frame_merge, List.map_flatMap, List.mem_flatMap]
        exact ⟨rule, List.mem_filter.mpr ⟨hr, hlong⟩, hframe⟩
      obtain ⟨link, hl, rfl⟩ := List.mem_map.mp hmem
      exact List.mem_map_of_mem (List.mem_filter.mpr ⟨hl, decide_eq_true hframe⟩)
  · intro link hl
    rw [hown] at hl
    obtain ⟨hmem, hframe⟩ := List.mem_filter.mp hl
    rw [hbinarize, weightAt_append, weightAt_eq_zero (hnew _ (of_decide_eq_true hframe)),
      weightAt_eq_weight hnodup hmem, zero_add]

/-- The product along a chain has one factor for each synthetic label: what the language of the rule
has in the weight of the label. -/
theorem prod_weight_ownLinks (hnames : rules.PlainNames) (hr : rule ∈ rules)
    (hlong : rule.isLong = true) : ((rules.ownLinks rule).map (·.weight)).prod =
      rules.weightAt rule.frame * (rule.syntheticLabels.map fun label =>
        (rules.inLanguage rule.language).userTotal label / rules.userTotal label).prod := by
  obtain ⟨hperm, hweight⟩ := ownLinks_spec hnames hr hlong
  have hhead : rules.stationShare rule.head = 1 := if_neg (hnames.tailsNew rule hr)
  have hshare : ∀ label ∈ rule.syntheticLabels,
      rules.stationShare label = 1 / rules.userTotal label := by
    intro label hlabel
    have htail : label ∈ rules.tailLabels := List.mem_flatMap.mpr ⟨rule, hr, hlabel⟩
    rw [stationShare, if_pos htail, stationTotal_eq_userTotal hnames.tailsNew htail]
  calc ((rules.ownLinks rule).map (·.weight)).prod
      = (((rules.ownLinks rule).map Rule.frame).map rules.binarize.weightAt).prod := by
        rw [List.map_map]
        exact congrArg List.prod (List.map_congr_left hweight)
    _ = ((rule.chain.map Rule.frame).map rules.binarize.weightAt).prod := (hperm.map _).prod_eq
    _ = (rule.stations.map fun s => rules.stationShare s.head *
          s.next?.elim (rules.weightAt rule.frame)
            fun n => (rules.inLanguage rule.language).userTotal n.head).prod := by
        rw [Rule.map_frame_chain, List.map_map]
        refine congrArg List.prod (List.map_congr_left fun s hs => ?_)
        exact weightAt_binarize_of_mem_stations hnames hr hs
    _ = rules.weightAt rule.frame * (rule.syntheticLabels.map fun label =>
          (rules.inLanguage rule.language).userTotal label * rules.stationShare label).prod := by
        rw [Rule.stations, Station.prod_line, hhead, one_mul, Rule.syntheticLabels_eq,
          List.map_map]
        rfl
    _ = rules.weightAt rule.frame * (rule.syntheticLabels.map fun label =>
          (rules.inLanguage rule.language).userTotal label / rules.userTotal label).prod := by
        refine congrArg (fun factors : List ℚ => rules.weightAt rule.frame * factors.prod)
          (List.map_congr_left fun label hlabel => ?_)
        rw [hshare label hlabel, mul_one_div]

theorem IsPositive.filter (hpos : rules.IsPositive) (p : Rule ℚ → Bool) :
    IsPositive (rules.filter p) :=
  fun rule hr => hpos rule (List.mem_filter.mp hr).1

theorem IsPositive.sum_nonneg (hpos : rules.IsPositive) : 0 ≤ (rules.map (·.weight)).sum := by
  refine List.sum_nonneg fun w hw => ?_
  obtain ⟨rule, hr, rfl⟩ := List.mem_map.mp hw
  exact (hpos rule hr).le

theorem IsPositive.sum_pos_iff (hpos : rules.IsPositive) :
    0 < (rules.map (·.weight)).sum ↔ ∃ rule, rule ∈ rules := by
  constructor
  · intro h
    refine List.exists_mem_of_ne_nil _ ?_
    rintro rfl
    exact lt_irrefl _ h
  · rintro ⟨rule, hr⟩
    refine List.sum_pos _ (fun w hw => ?_) fun hnil => ?_
    · obtain ⟨rule, hr, rfl⟩ := List.mem_map.mp hw
      exact hpos rule hr
    · rw [List.map_eq_nil_iff.mp hnil] at hr
      exact List.not_mem_nil hr

/-- With positive weights a label has a weight as soon as it is used. -/
theorem userTotal_pos_iff (hpos : rules.IsPositive) {label : String} :
    0 < rules.userTotal label ↔ ∃ rule ∈ rules, label ∈ rule.syntheticLabels := by
  rw [userTotal, (hpos.filter _).sum_pos_iff]
  simp only [List.mem_filter, decide_eq_true_eq]

/-- A language has a part in the weight of each label that it uses, and all of it if no other one
uses the label. -/
theorem userTotal_inLanguage (hpos : rules.IsPositive) {label : String} (hr : rule ∈ rules)
    (hlabel : label ∈ rule.syntheticLabels) :
    0 < (rules.inLanguage rule.language).userTotal label ∧
      (rules.inLanguage rule.language).userTotal label ≤ rules.userTotal label ∧
      ((rules.inLanguage rule.language).userTotal label = rules.userTotal label ↔
        ∀ other ∈ rules, label ∈ other.syntheticLabels → other.language = rule.language) := by
  obtain ⟨others, hothers⟩ : ∃ others : Ruleset ℚ,
      others = rules.filter fun other => !decide (other.language = rule.language) := ⟨_, rfl⟩
  have hsum : rules.userTotal label =
      (rules.inLanguage rule.language).userTotal label + others.userTotal label := by
    have hperm : (rules.inLanguage rule.language ++ others).Perm rules :=
      hothers ▸ List.filter_append_perm (fun other : Rule ℚ => other.language = rule.language) _
    rw [userTotal, userTotal, userTotal, ← List.sum_append, ← List.map_append, ← List.filter_append]
    exact ((hperm.symm.filter _).map _).sum_eq
  have hrest : others.IsPositive := hothers ▸ hpos.filter _
  have hnonneg : 0 ≤ others.userTotal label := (hrest.filter _).sum_nonneg
  refine ⟨(userTotal_pos_iff (hpos.filter _)).mpr
    ⟨rule, List.mem_filter.mpr ⟨hr, decide_eq_true rfl⟩, hlabel⟩, by linarith, ?_⟩
  have hzero : (rules.inLanguage rule.language).userTotal label = rules.userTotal label ↔
      ¬ 0 < others.userTotal label := by
    rw [hsum, not_lt]
    exact ⟨fun h => by linarith, fun h => by linarith⟩
  rw [hzero, userTotal_pos_iff hrest, hothers]
  constructor
  · intro hnone other ho hother
    by_contra hne
    exact hnone ⟨other, List.mem_filter.mpr ⟨ho, by simpa using hne⟩, hother⟩
  · rintro hsame ⟨other, ho, hother⟩
    obtain ⟨hmem, hne⟩ := List.mem_filter.mp ho
    have hdiffer : other.language ≠ rule.language := by simpa using hne
    exact hdiffer (hsame other hmem hother)

/-- A link with a synthetic label that is in the chains of rules with one frame only has the
weight one. -/
theorem weight_eq_one_of_alone (hnames : rules.PlainNames) (hpos : rules.IsPositive)
    (hr : rule ∈ rules) (hlong : rule.isLong = true) {link : Rule ℚ}
    (hlink : link ∈ rules.ownLinks rule) (hlabel : link.head ∈ rule.syntheticLabels)
    (halone : ∀ other ∈ rules, link.head ∈ other.syntheticLabels → other.frame = rule.frame) :
    link.weight = 1 := by
  obtain ⟨hperm, hweight⟩ := ownLinks_spec hnames hr hlong
  have htail : link.head ∈ rules.tailLabels := List.mem_flatMap.mpr ⟨rule, hr, hlabel⟩
  have hframe : ∀ made ∈ rules.binarize, made.head = link.head → made.frame = link.frame := by
    intro made hm hhead
    obtain ⟨other, ho, hmade⟩ := exists_mem_chain hm
    have hown := hperm.subset (List.mem_map_of_mem hlink)
    rw [Rule.map_frame_chain] at hmade hown
    obtain ⟨s, hs, hsame⟩ := List.mem_map.mp hown
    obtain ⟨s', hs', hsame'⟩ := List.mem_map.mp hmade
    have hlabels : s'.head = s.head :=
      (congrArg Prod.fst hsame').trans (hhead.trans (congrArg Prod.fst hsame).symm)
    have hused : link.head ∈ other.stations.map (·.head) :=
      List.mem_map.mpr ⟨s', hs', (congrArg Prod.fst hsame').trans hhead⟩
    have hother := halone other ho ((mem_map_head_stations_iff hnames.tailsNew ho htail).mp hused)
    simp only [Rule.frame, Prod.mk.injEq] at hother
    obtain ⟨hrule, hbody, hlanguage⟩ := hother
    rw [Rule.stations, hrule, hbody] at hs'
    rw [← hsame, ← hsame', hlanguage,
      List.inj_on_of_nodup_map (Station.nodup_map_head_line rule.head rule.body) hs' hs hlabels]
  have htotal := total_binarize hnames.tailsNew hpos link.head
  rw [if_pos htail] at htotal
  rw [hweight link hlink, ← htotal, total, weightsOf, weightAt]
  refine congrArg List.sum (congrArg _ (List.filter_congr fun made hm => ?_))
  exact decide_eq_decide.mpr ⟨congrArg Prod.fst, hframe made hm⟩

/-- If no name has a bar or an underscore and no name is both a word and a label, each link of the
chain of a long rule is there once. With positive weights the product along the chain is the weight
of all rules with the frame of the rule if and only if no rule of another language uses one of its
synthetic labels. A link of a label that no rule with another frame uses has the weight one. -/
theorem prod_weight_ownLinks_iff (hnames : rules.PlainNames) (hpos : rules.IsPositive)
    (hr : rule ∈ rules) (hlong : rule.isLong = true) :
    ((rules.ownLinks rule).map Rule.frame).Perm (rule.chain.map Rule.frame) ∧
      (((rules.ownLinks rule).map (·.weight)).prod = rules.weightAt rule.frame ↔
        ∀ other ∈ rules, ∀ label ∈ rule.syntheticLabels, label ∈ other.syntheticLabels →
          other.language = rule.language) ∧
      ∀ link ∈ rules.ownLinks rule, link.head ∈ rule.syntheticLabels →
        (∀ other ∈ rules, link.head ∈ other.syntheticLabels → other.frame = rule.frame) →
          link.weight = 1 := by
  refine ⟨(ownLinks_spec hnames hr hlong).1, ?_,
    fun link hl hlabel => weight_eq_one_of_alone hnames hpos hr hlong hl hlabel⟩
  have hweight : 0 < rules.weightAt rule.frame :=
    (hpos.filter _).sum_pos_iff.mpr ⟨rule, List.mem_filter.mpr ⟨hr, decide_eq_true rfl⟩⟩
  have hparts : ∀ x ∈ rule.syntheticLabels.map fun label =>
      (rules.inLanguage rule.language).userTotal label / rules.userTotal label,
      0 < x ∧ x ≤ 1 := by
    intro x hx
    obtain ⟨label, hlabel, rfl⟩ := List.mem_map.mp hx
    obtain ⟨hlanguage, hle, -⟩ := userTotal_inLanguage hpos hr hlabel
    have htotal := hlanguage.trans_le hle
    exact ⟨div_pos hlanguage htotal, (div_le_one htotal).mpr hle⟩
  rw [prod_weight_ownLinks hnames hr hlong, mul_eq_left₀ hweight.ne', prod_eq_one_iff hparts,
    List.forall_mem_map]
  constructor
  · intro hones other ho label hlabel hother
    obtain ⟨hlanguage, hle, hiff⟩ := userTotal_inLanguage hpos hr hlabel
    exact hiff.mp ((div_eq_one_iff_eq (hlanguage.trans_le hle).ne').mp (hones label hlabel))
      other ho hother
  · intro hsame label hlabel
    obtain ⟨hlanguage, hle, hiff⟩ := userTotal_inLanguage hpos hr hlabel
    exact (div_eq_one_iff_eq (hlanguage.trans_le hle).ne').mpr
      (hiff.mpr fun other ho hother => hsame other ho label hlabel hother)

/-- A rule with four symbols. -/
def repeatedRule : Rule ℚ where
  head := "X"
  body := [.nonterminal "A", .terminal "b", .nonterminal "C", .nonterminal "A"]
  weight := 1 / 4
  language := some "en"

/-- The rule twice, one that begins like it, and one of another language. -/
def repeatedRules : Ruleset ℚ :=
  [repeatedRule,
    { head := "X", body := [.nonterminal "A", .terminal "b", .nonterminal "D"], weight := 1 / 3,
      language := some "en" },
    { repeatedRule with weight := 1 / 6 },
    { head := "Y", body := [.nonterminal "A", .terminal "b", .nonterminal "D"], weight := 1,
      language := some "de" }]

/-- The product counts both times that the rule is given, and its last label is its own. -/
theorem prod_weight_ownLinks_repeated :
    ((repeatedRules.ownLinks repeatedRule).map (·.weight)).prod = 5 / 12 ∧
      ∃ link ∈ repeatedRules.ownLinks repeatedRule, link.head = "X|A_b|b_C" ∧
        link.weight = 1 := by
  have hnames : repeatedRules.PlainNames := ⟨by decide +kernel, by decide +kernel⟩
  have hpos : ∀ rule ∈ repeatedRules, 0 < rule.weight := by decide +kernel
  obtain ⟨-, hproduct, halone⟩ := prod_weight_ownLinks_iff hnames hpos
    (List.mem_cons_self : repeatedRule ∈ repeatedRules) (by decide)
  have hweight : repeatedRules.weightAt repeatedRule.frame = 5 / 12 := by decide +kernel
  obtain ⟨link, hl, hhead⟩ :
      ∃ link ∈ repeatedRules.ownLinks repeatedRule, link.head = "X|A_b|b_C" := by decide +kernel
  refine ⟨hweight ▸ hproduct.mpr (by decide +kernel), link, hl, hhead, halone link hl ?_ ?_⟩
  · rw [hhead]
    decide +kernel
  · rw [hhead]
    decide +kernel

/-- A long rule that is given for two languages. -/
def bilingualRules : Ruleset ℚ :=
  [{ head := "X", body := [.nonterminal "A", .nonterminal "B", .nonterminal "C"], weight := 1 / 4,
      language := some "en" },
    { head := "X", body := [.nonterminal "A", .nonterminal "B", .nonterminal "C"], weight := 3 / 4,
      language := some "de" }]

/-- Two languages that share a synthetic label get less than the weights of their rules. -/
theorem prod_weight_ownLinks_bilingual :
    bilingualRules.PlainNames ∧ bilingualRules.IsPositive ∧
      ∃ rule ∈ bilingualRules, rule.isLong = true ∧ bilingualRules.weightAt rule.frame = 1 / 4 ∧
        ((bilingualRules.ownLinks rule).map (·.weight)).prod = 1 / 16 := by
  have hpos : ∀ rule ∈ bilingualRules, 0 < rule.weight := by decide +kernel
  exact ⟨⟨by decide +kernel, by decide +kernel⟩, hpos, by decide +kernel⟩

end Ruleset

end Constituency
