import Constituency.Proofs.Weighted.Spreads

/-!
# Solutions and shared tails

Rules that begin alike share a tail, and the series of a tail is the average of what is left of its
rules. Items that are all given the average of their key have the sum they had before
(`sum_averaged`); so, link by link, the averages telescope, and a solution of the rules extends to
the tails as a solution of the rules that are split (`Solves.binarize`).
-/
namespace Constituency

section KeySums

variable {ι κ : Type} [DecidableEq κ] {items : List ι} {key : ι → κ}

/-- The sum over the items with one key. -/
def keySum (items : List ι) (key : ι → κ) (x : ι → ℚ) (k : κ) : ℚ :=
  (items.map fun i => if key i = k then x i else 0).sum

theorem keySum_congr {x y : ι → ℚ} {k : κ} (h : ∀ i ∈ items, key i = k → x i = y i) :
    keySum items key x k = keySum items key y k := by
  refine congrArg List.sum (List.map_congr_left fun i hi => ?_)
  by_cases hk : key i = k
  · rw [if_pos hk, if_pos hk, h i hi hk]
  · rw [if_neg hk, if_neg hk]

theorem keySum_zero (k : κ) : keySum items key (fun _ => 0) k = 0 := by
  simp [keySum]

theorem keySum_div (x : ι → ℚ) (c : ℚ) (k : κ) :
    keySum items key (fun i => x i / c) k = keySum items key x k / c := by
  rw [keySum, keySum, div_eq_mul_inv, ← List.sum_map_mul_right]
  refine congrArg List.sum (List.map_congr_left fun i _ => ?_)
  rw [ite_mul, zero_mul, div_eq_mul_inv]

theorem keySum_pos {p : ι → ℚ} (hp : ∀ i ∈ items, 0 < p i) {i : ι} (hi : i ∈ items) :
    0 < keySum items key p (key i) := by
  have hmem : p i ∈ items.map fun j => if key j = key i then p j else 0 :=
    List.mem_map.mpr ⟨i, hi, if_pos rfl⟩
  refine (hp i hi).trans_le (List.single_le_sum ?_ _ hmem)
  intro x hx
  obtain ⟨j, hj, rfl⟩ := List.mem_map.mp hx
  split
  · exact (hp j hj).le
  · exact le_refl _

/-- Two items with one key meet in both sums. -/
theorem sum_mul_keySum (x y : ι → ℚ) :
    (items.map fun i => x i * keySum items key y (key i)).sum =
      (items.map fun j => keySum items key x (key j) * y j).sum := by
  calc (items.map fun i => x i * keySum items key y (key i)).sum
      = (items.map fun i =>
          (items.map fun j => if key i = key j then x i * y j else 0).sum).sum := by
        refine congrArg List.sum (List.map_congr_left fun i _ => ?_)
        rw [keySum, ← List.sum_map_mul_left]
        simp only [mul_ite, mul_zero, eq_comm]
    _ = (items.map fun j =>
          (items.map fun i => if key i = key j then x i * y j else 0).sum).sum :=
        sum_sum_comm items items _
    _ = (items.map fun j => keySum items key x (key j) * y j).sum := by
        refine congrArg List.sum (List.map_congr_left fun j _ => ?_)
        rw [keySum, ← List.sum_map_mul_right]
        simp only [ite_mul, zero_mul]

/-- The part that an item has in the weight of its key, if it counts. -/
def keyShare (items : List ι) (key : ι → κ) (p : ι → ℚ) (q : ι → Prop) [DecidablePred q]
    (i : ι) : ℚ :=
  if q i then p i / keySum items key p (key i) else 0

variable {p : ι → ℚ} {q : ι → Prop} [DecidablePred q] (hp : ∀ i ∈ items, 0 < p i)
  (hq : ∀ i ∈ items, ∀ j ∈ items, key j = key i → (q j ↔ q i))
include hp hq

/-- The shares of the items with one key add up to one. -/
theorem keySum_keyShare {j : ι} (hj : j ∈ items) :
    keySum items key (keyShare items key p q) (key j) = if q j then 1 else 0 := by
  split
  · rename_i hqj
    have hshare : ∀ i ∈ items, key i = key j →
        keyShare items key p q i = p i / keySum items key p (key j) := by
      intro i hi hk
      rw [keyShare, if_pos ((hq j hj i hi hk).mpr hqj), hk]
    rw [keySum_congr hshare, keySum_div, div_self (keySum_pos hp hj).ne']
  · rename_i hqj
    have hshare : ∀ i ∈ items, key i = key j → keyShare items key p q i = 0 := by
      intro i hi hk
      exact if_neg fun hqi => hqj ((hq j hj i hi hk).mp hqi)
    rw [keySum_congr hshare, keySum_zero]

variable (key) in
/-- Items with positive weights keep their weighted sum when the values of all items with one key
are replaced by their average. Only items with the property `q` count, which keys decide. -/
theorem sum_averaged {u v : ι → ℚ}
    (hu : ∀ i ∈ items, q i →
      u i = keySum items key (fun j => p j * v j) (key i) / keySum items key p (key i)) :
    (items.map fun i => if q i then p i * u i else 0).sum =
      (items.map fun i => if q i then p i * v i else 0).sum := by
  calc (items.map fun i => if q i then p i * u i else 0).sum
      = (items.map fun i => keyShare items key p q i *
          keySum items key (fun j => p j * v j) (key i)).sum := by
        refine congrArg List.sum (List.map_congr_left fun i hi => ?_)
        rw [keyShare]
        split
        · rename_i hqi
          rw [hu i hi hqi]
          ring
        · rw [zero_mul]
    _ = (items.map fun j => keySum items key (keyShare items key p q) (key j) * (p j * v j)).sum :=
        sum_mul_keySum _ _
    _ = (items.map fun j => if q j then p j * v j else 0).sum := by
        refine congrArg List.sum (List.map_congr_left fun j hj => ?_)
        rw [keySum_keyShare hp hq hj, ite_mul, one_mul, zero_mul]

end KeySums

theorem Series.mul_zero (f : Series) (words : List String) : f.mul (fun _ => 0) words = 0 := by
  simp [Series.mul]

namespace Ruleset

variable {rules : Ruleset ℚ} {F : String → Series}

/-- The series of all labels once rules are split: a tail has the average of what is left at its
stations. -/
def splitSeries (rules : Ruleset ℚ) (F : String → Series) (label : String) : Series :=
  if label ∈ rules.tailLabels then fun words =>
    (rules.spread fun s => if s.head = label then bodySeries F s.body words else 0) /
      rules.stationTotal label
  else F label

theorem splitSeries_of_isPlainName {label : String} (h : IsPlainName label) :
    rules.splitSeries F label = F label :=
  if_neg (not_mem_tailLabels h)

theorem symbolSeries_splitSeries {symbol : Symbol} (h : IsPlainName symbol.name) :
    symbolSeries (rules.splitSeries F) symbol = symbolSeries F symbol := by
  cases symbol with
  | terminal word => rfl
  | nonterminal label => exact splitSeries_of_isPlainName h

/-- What is left at stations of the rules has the series that it had before. -/
theorem bodySeries_splitSeries (hnames : rules.PlainNames) {rule : Rule ℚ} (hr : rule ∈ rules)
    {s : Station} (hs : s ∈ rule.stations) :
    bodySeries (rules.splitSeries F) s.body = bodySeries F s.body :=
  bodySeries_congr fun _ hm =>
    symbolSeries_splitSeries (hnames.plain _ (mem_symbols_of_mem_stations hr hs hm))

/-- The stations with the label of a tail come next after other stations. -/
theorem spread_of_tail (htails : rules.TailsNew) {label : String}
    (hlabel : label ∈ rules.tailLabels) {ψ : Station → ℚ}
    (hψ : ∀ s : Station, s.head ≠ label → ψ s = 0) :
    rules.spread ψ = rules.spread fun s => s.next?.elim 0 ψ := by
  rw [spread_eq, add_eq_right]
  refine mass_eq_zero fun rule hr => hψ _ ?_
  rintro rfl
  exact htails rule hr hlabel

/-- The stations with a plain label are the rules for it. -/
theorem spread_of_not_tail {label : String} (hlabel : label ∉ rules.tailLabels) {ψ : Station → ℚ}
    (hψ : ∀ s : Station, s.head ≠ label → ψ s = 0) :
    rules.spread ψ = rules.mass fun head body => ψ ⟨head, body⟩ := by
  rw [spread_eq, add_eq_left]
  refine spread_eq_zero fun rule hr s hs => ?_
  cases hn : s.next? with
  | none => rfl
  | some n =>
    refine hψ n ?_
    rintro rfl
    exact hlabel (mem_tailLabels.mpr ⟨rule, hr, s, hs, n, hn, rfl⟩)

/-- The label of the station that comes next, if there is one. -/
def tailKey (s : Station) : Option String :=
  s.next?.map (·.head)

theorem tailKey_eq_none_iff {s : Station} : tailKey s = none ↔ s.next? = none :=
  Option.map_eq_none_iff

theorem exists_next {s : Station} (h : tailKey s ≠ none) : ∃ n, s.next? = some n :=
  Option.ne_none_iff_exists'.mp fun hn => h (tailKey_eq_none_iff.mpr hn)

/-- A link to a tail gives the average of the bodies that have the tail. -/
theorem bodySeries_linkBody (hnames : rules.PlainNames) {rule : Rule ℚ} (hr : rule ∈ rules)
    {s n : Station} (hs : s ∈ rule.stations) (hn : s.next? = some n) (words : List String) :
    bodySeries (rules.splitSeries F) s.linkBody words =
      (rules.spread fun p => if tailKey p = tailKey s then bodySeries F p.body words else 0) /
        rules.spread fun p => if tailKey p = tailKey s then 1 else 0 := by
  obtain ⟨first, second, hbody, -, -, hlink⟩ := Station.next?_eq_some hn
  have hlabel : n.head ∈ rules.tailLabels := mem_tailLabels.mpr ⟨rule, hr, s, hs, n, hn, rfl⟩
  have hkey : tailKey s = some n.head := by rw [tailKey, hn]; rfl
  have hfirst : IsPlainName first.name :=
    hnames.plain _ (mem_symbols_of_mem_stations hr hs (hbody ▸ List.mem_cons_self))
  have htotal : rules.stationTotal n.head =
      rules.spread fun p => if tailKey p = some n.head then 1 else 0 := by
    rw [stationTotal, spread_of_tail hnames.tailsNew hlabel fun p hp => if_neg hp]
    refine spread_congr fun _ _ p _ => ?_
    cases hp : p.next? <;> simp [tailKey, hp]
  have hsum : rules.spread (fun p => (symbolSeries F first).mul
      (fun ws => if p.head = n.head then bodySeries F p.body ws else 0) words) =
        rules.spread fun p => if tailKey p = some n.head then bodySeries F p.body words else 0 := by
    rw [spread_of_tail hnames.tailsNew hlabel fun p hp => by simp only [if_neg hp, Series.mul_zero]]
    refine spread_congr fun rule' hr' p hp => ?_
    cases hpn : p.next? with
    | none => simp [tailKey, hpn]
    | some n' =>
      by_cases hhead : n'.head = n.head
      · obtain ⟨first', -, hbody', -⟩ := Station.next?_eq_some hpn
        obtain ⟨-, hsame⟩ := before_eq hnames hr hr' hs hn hp hpn hhead
        rw [hbody, hbody', List.head?_cons, List.head?_cons, Option.some.injEq] at hsame
        simp [tailKey, hpn, hhead, hbody', hsame, bodySeries]
      · simp [tailKey, hpn, hhead, Series.mul_zero]
  rw [hlink, bodySeries_pair, symbolSeries_splitSeries hfirst, hkey, ← hsum, ← htotal]
  simp only [symbolSeries, splitSeries, if_pos hlabel, spread]
  exact Series.mul_sum_div _ _ _ _ _ _

/-- The stations with one label are those with a tail and those without. -/
theorem spread_head_eq (label : String) (x : Station → ℚ) :
    (rules.spread fun s => if s.head = label then x s else 0) =
      (rules.weightedStations.map fun p =>
        if p.2.head = label ∧ tailKey p.2 ≠ none then p.1 * x p.2 else 0).sum +
      rules.spread fun s => if s.head = label ∧ tailKey s = none then x s else 0 := by
  rw [spread, spread, ← List.sum_map_add]
  refine congrArg List.sum (List.map_congr_left fun p _ => ?_)
  by_cases hhead : p.2.head = label <;> by_cases hkey : tailKey p.2 = none <;> simp [hhead, hkey]

/-- Stations with one tail have one label. -/
theorem head_eq_of_tailKey_eq (hnames : rules.PlainNames) {p p' : ℚ × Station}
    (hp : p ∈ rules.weightedStations) (hp' : p' ∈ rules.weightedStations)
    (hkey : tailKey p'.2 = tailKey p.2) (hne : tailKey p.2 ≠ none) : p'.2.head = p.2.head := by
  obtain ⟨rule, hr, -, hs⟩ := mem_weightedStations.mp hp
  obtain ⟨rule', hr', -, hs'⟩ := mem_weightedStations.mp hp'
  obtain ⟨n, hn⟩ := exists_next hne
  rw [tailKey, tailKey, hn] at hkey
  obtain ⟨n', hn', hhead⟩ := Option.map_eq_some_iff.mp hkey
  exact (before_eq hnames hr hr' hs hn hs' hn' hhead).1

/-- Over all stations with one label, the links give what the bodies there give. -/
theorem spread_linkBody (hnames : rules.PlainNames) (hpos : rules.IsPositive)
    (label : String) (words : List String) :
    (rules.spread fun s =>
      if s.head = label then bodySeries (rules.splitSeries F) s.linkBody words else 0) =
        rules.spread fun s => if s.head = label then bodySeries F s.body words else 0 := by
  have hlast : ∀ rule ∈ rules, ∀ s ∈ rule.stations,
      (if s.head = label ∧ tailKey s = none then
        bodySeries (rules.splitSeries F) s.linkBody words else 0) =
      if s.head = label ∧ tailKey s = none then bodySeries F s.body words else 0 := by
    intro rule hr s hs
    split
    · rename_i h
      rw [(Station.linkBody_of_next?_eq_none (tailKey_eq_none_iff.mp h.2)).1,
        bodySeries_splitSeries hnames hr hs]
    · rfl
  rw [spread_head_eq, spread_head_eq, spread_congr hlast]
  congr 1
  refine sum_averaged (fun p => tailKey p.2) (fun _ hp => hpos.of_mem_weightedStations hp) ?_ ?_
  · intro p hp p' hp' hkey
    rw [hkey]
    refine and_congr_left fun hne => ?_
    rw [head_eq_of_tailKey_eq hnames hp hp' hkey hne]
  · rintro p hp ⟨-, hne⟩
    obtain ⟨rule, hr, -, hs⟩ := mem_weightedStations.mp hp
    obtain ⟨n, hn⟩ := exists_next hne
    rw [bodySeries_linkBody hnames hr hs hn]
    simp only [spread, keySum, mul_ite, mul_one, mul_zero]

theorem spread_mul_left (c : ℚ) (ψ : Station → ℚ) :
    (rules.spread fun s => c * ψ s) = c * rules.spread ψ := by
  rw [spread, spread, ← List.sum_map_mul_left]
  exact congrArg List.sum (List.map_congr_left fun p _ => by ring)

/-- A solution of the rules extends to the tails when rules are split. -/
theorem Solves.binarize (h : rules.Solves F) (hnames : rules.PlainNames)
    (hpos : rules.IsPositive) : rules.binarize.Solves (rules.splitSeries F) := by
  intro label words
  have hshare : (rules.spread fun s => rules.stationShare s.head *
      bodyAt (rules.splitSeries F) label words s.head s.linkBody) = rules.stationShare label *
        rules.spread fun s => if s.head = label then bodySeries F s.body words else 0 := by
    rw [← spread_linkBody hnames hpos, ← spread_mul_left]
    refine spread_congr fun rule _ s _ => ?_
    rw [bodyAt]
    by_cases hhead : s.head = label <;> simp [hhead]
  rw [mass_binarize hnames.tailsNew, hshare, splitSeries, stationShare]
  split
  · rw [one_div_mul_eq_div]
  · rename_i hlabel
    rw [one_mul, spread_of_not_tail hlabel fun s hs => if_neg hs, h label words]
    rfl

/-- Tails have nothing for the empty list if no label has. -/
theorem isProper_splitSeries (hempty : ∀ head body, rules.Has head body → body ≠ [])
    (hF : IsProper F) : IsProper (rules.splitSeries F) := by
  intro label
  rw [splitSeries]
  split
  · have hzero : (rules.spread fun s =>
        if s.head = label then bodySeries F s.body [] else 0) = 0 := by
      refine spread_eq_zero fun rule hr s hs => ?_
      have hbody : s.body ≠ [] :=
        Station.body_ne_nil_of_mem_line hs (hempty _ _ ⟨rule, hr, rfl, rfl⟩)
      rw [hF.bodySeries_nil hbody, ite_self]
    simp only [hzero, zero_div]
  · exact hF label

end Ruleset

end Constituency
