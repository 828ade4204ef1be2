import Mathlib.Data.List.Forall2
import Constituency.Proofs.Chart.Agreement
import Constituency.Proofs.Chart.Endings

/-!
# A cell depends on its window only

What a chart holds over a window of tokens hangs on the lower case of these tokens alone: not on
where the window lies, on the tokens around it or on how many there are. Two charts are compared
span by span. Whatever one builds over its window, the other builds over its own by the same rules
and in the same order (`Tree.Parallel`), so that both break ties alike, close their cells in the
same steps and drop the same labels for a beam. No law of scores is needed for this.
-/
namespace Constituency

variable {α σ : Type} [Score σ] [Logarithm α σ] {origin origin' : Nat}

/-! ### Trees over two windows -/

/-- Two trees with the same rules in the same places, one over tokens from `origin` on and the other
over tokens from `origin'` on that have the same lower case. -/
inductive Tree.Parallel (origin origin' : Nat) : Tree α → Tree α → Prop
  | lexical (rule : Rule α) (place : Nat) {token token' : String}
      (hcase : Text.lowerCase token = Text.lowerCase token') :
      Parallel origin origin' (.lexical rule token (origin + place))
        (.lexical rule token' (origin' + place))
  | unary (rule : Rule α) {child child' : Tree α} (h : Parallel origin origin' child child') :
      Parallel origin origin' (.unary rule child) (.unary rule child')
  | binary (rule : Rule α) {left left' right right' : Tree α}
      (hleft : Parallel origin origin' left left') (hright : Parallel origin origin' right right') :
      Parallel origin origin' (.binary rule left right) (.binary rule left' right')

theorem Tree.Parallel.label_eq {tree tree' : Tree α} (h : tree.Parallel origin origin' tree') :
    tree.label = tree'.label := by
  cases h <;> rfl

theorem Tree.Parallel.score_eq {tree tree' : Tree α} (h : tree.Parallel origin origin' tree') :
    tree.score = tree'.score := by
  induction h with
  | lexical rule place _ => rfl
  | unary rule _ ih => rw [score, score, ih]
  | binary rule _ _ ihl ihr => rw [score, score, ihl, ihr]

/-- Two constituents with the same label over spans in the same place of their windows. -/
def Constituent.Parallel (origin origin' : Nat) (c c' : Constituent) : Prop :=
  c.label = c'.label ∧ ∃ i j, c.first = origin + i ∧ c'.first = origin' + i ∧
    c.last = origin + j ∧ c'.last = origin' + j

theorem Tree.Parallel.constituent {tree tree' : Tree α} (h : tree.Parallel origin origin' tree') :
    tree.constituent.Parallel origin origin' tree'.constituent := by
  induction h with
  | lexical rule place _ => exact ⟨rfl, place, place, rfl, rfl, rfl, rfl⟩
  | unary rule _ ih =>
    obtain ⟨-, i, j, hspan⟩ := ih
    exact ⟨rfl, i, j, hspan⟩
  | binary rule _ _ ihl ihr =>
    obtain ⟨-, i, -, hi, hi', -⟩ := ihl
    obtain ⟨-, -, j, -, -, hj, hj'⟩ := ihr
    exact ⟨rfl, i, j, hi, hi', hj, hj'⟩

/-- All spans of a tree are shifted alike. -/
theorem Tree.Parallel.constituents {tree tree' : Tree α} (h : tree.Parallel origin origin' tree') :
    List.Forall₂ (Constituent.Parallel origin origin') tree.constituents tree'.constituents := by
  unfold Tree.constituents
  rw [List.forall₂_map_left_iff, List.forall₂_map_right_iff]
  induction h with
  | lexical rule place hcase => exact .cons (Parallel.lexical rule place hcase).constituent .nil
  | unary rule h ih => exact .cons (Parallel.unary rule h).constituent ih
  | binary rule hleft hright ihl ihr =>
    exact .cons (Parallel.binary rule hleft hright).constituent (List.rel_append ihl ihr)

/-- Two analyses with parallel trees. -/
def Analysis.Parallel (origin origin' : Nat) (a a' : Analysis α) : Prop :=
  a.tree.Parallel origin origin' a'.tree

namespace Analysis.Parallel

variable {a a' : Analysis α}

theorem label_eq (h : a.Parallel origin origin' a') : a.label = a'.label :=
  Tree.Parallel.label_eq h

theorem score_eq (h : a.Parallel origin origin' a') : a.score = a'.score := by
  rw [a.score_eq, a'.score_eq, Tree.Parallel.score_eq h]

end Analysis.Parallel

/-! ### Cells over two windows -/

/-- Two cells that hold parallel analyses for the same labels. -/
def Cell.Parallel (origin origin' : Nat) (cell cell' : Cell α) : Prop :=
  ∀ label : String, Option.Rel (Analysis.Parallel origin origin') cell[label]? cell'[label]?

/-- Two lists of labels and analyses that are one list of labels with pairs of parallel analyses,
seen from its two sides. -/
def Cell.Paired (origin origin' : Nat) (entries entries' : List (String × Analysis α)) : Prop :=
  ∃ pairs : List (String × Analysis α × Analysis α),
    entries = pairs.map (fun entry => (entry.1, entry.2.1)) ∧
    entries' = pairs.map (fun entry => (entry.1, entry.2.2)) ∧
    ∀ entry ∈ pairs, entry.2.1.Parallel origin origin' entry.2.2

namespace Cell.Paired

variable {entries entries' : List (String × Analysis α)} {label : String} {a : Analysis α}

theorem length_eq (h : Paired origin origin' entries entries') :
    entries.length = entries'.length := by
  obtain ⟨pairs, rfl, rfl, -⟩ := h
  rw [List.length_map, List.length_map]

theorem exists_right (h : Paired origin origin' entries entries') (ha : (label, a) ∈ entries) :
    ∃ a', (label, a') ∈ entries' ∧ a.Parallel origin origin' a' := by
  obtain ⟨pairs, rfl, rfl, hpairs⟩ := h
  obtain ⟨entry, hentry, heq⟩ := List.mem_map.mp ha
  cases heq
  exact ⟨entry.2.2, List.mem_map_of_mem hentry, hpairs entry hentry⟩

theorem exists_left (h : Paired origin origin' entries entries') (ha : (label, a) ∈ entries') :
    ∃ b, (label, b) ∈ entries := by
  obtain ⟨pairs, rfl, rfl, -⟩ := h
  obtain ⟨entry, hentry, heq⟩ := List.mem_map.mp ha
  cases heq
  exact ⟨entry.2.1, List.mem_map_of_mem hentry⟩

theorem take (h : Paired origin origin' entries entries') (count : Nat) :
    Paired origin origin' (entries.take count) (entries'.take count) := by
  obtain ⟨pairs, rfl, rfl, hpairs⟩ := h
  exact ⟨pairs.take count, List.map_take.symm, List.map_take.symm,
    fun entry hentry => hpairs entry (List.mem_of_mem_take hentry)⟩

/-- Parallel analyses have the same scores, so that both lists are sorted alike. -/
theorem mergeSort (h : Paired origin origin' entries entries') :
    Paired origin origin' (entries.mergeSort fun x y => ranksBefore x.2 y.2)
      (entries'.mergeSort fun x y => ranksBefore x.2 y.2) := by
  obtain ⟨pairs, rfl, rfl, hpairs⟩ := h
  refine ⟨pairs.mergeSort fun x y => ranksBefore x.2.1 y.2.1, ?_, ?_, fun entry hentry => ?_⟩
  · refine (List.map_mergeSort fun _ _ _ _ => ?_).symm
    rfl
  · refine (List.map_mergeSort fun x hx y hy => ?_).symm
    simp only [ranksBefore, (hpairs x hx).score_eq, (hpairs y hy).score_eq]
  · exact hpairs entry ((List.mergeSort_perm _ _).mem_iff.mp hentry)

theorem map_snd (h : Paired origin origin' entries entries') :
    List.Forall₂ (Analysis.Parallel origin origin') (entries.map (·.2)) (entries'.map (·.2)) := by
  obtain ⟨pairs, rfl, rfl, hpairs⟩ := h
  rw [List.map_map, List.map_map, List.forall₂_map_left_iff, List.forall₂_map_right_iff,
    List.forall₂_same]
  exact hpairs

end Cell.Paired

namespace Cell.Parallel

variable {cell cell' : Cell α} {a a' : Analysis α}

theorem empty : Parallel origin origin' (∅ : Cell α) ∅ := by
  intro label
  simp

/-- For a label both cells hold nothing or both hold something. -/
theorem held (h : cell.Parallel origin origin' cell') (label : String) :
    (cell[label]? = none ∧ cell'[label]? = none) ∨
      ∃ b b', cell[label]? = some b ∧ cell'[label]? = some b' ∧ b.Parallel origin origin' b' := by
  have hrel := h label
  cases hb : cell[label]? <;> cases hb' : cell'[label]? <;> rw [hb, hb'] at hrel <;> cases hrel
  · exact .inl ⟨rfl, rfl⟩
  · exact .inr ⟨_, _, rfl, rfl, by assumption⟩

/-- What one cell accepts the other one accepts. -/
theorem accepts_eq (h : cell.Parallel origin origin' cell') (ha : a.Parallel origin origin' a') :
    cell.accepts a = cell'.accepts a' := by
  unfold accepts
  rw [ha.label_eq, ha.score_eq]
  rcases h.held a'.label with ⟨hb, hb'⟩ | ⟨b, b', hb, hb', hheld⟩
  · rw [hb, hb']
  · simp only [hb, hb', hheld.score_eq]

theorem hasBetter_eq (h : cell.Parallel origin origin' cell') (ha : a.Parallel origin origin' a') :
    cell.hasBetter a = cell'.hasBetter a' := by
  unfold hasBetter
  rw [ha.label_eq, ha.score_eq]
  rcases h.held a'.label with ⟨hb, hb'⟩ | ⟨b, b', hb, hb', hheld⟩
  · rw [hb, hb']
  · simp only [hb, hb', hheld.score_eq]

theorem offer (h : cell.Parallel origin origin' cell') (ha : a.Parallel origin origin' a') :
    (cell.offer a).Parallel origin origin' (cell'.offer a') := by
  intro label
  rw [getElem?_offer, getElem?_offer, h.accepts_eq ha, ha.label_eq]
  split
  · exact .some ha
  · exact h label

/-- Parallel cells list parallel analyses in the same order. -/
theorem paired_toList (h : cell.Parallel origin origin' cell') :
    Paired origin origin' cell.toList cell'.toList := by
  let both : Std.TreeMap String (Analysis α × Analysis α) :=
    cell.filterMap fun label a => cell'[label]?.map fun a' => (a, a')
  have hboth : ∀ label : String, both[label]? =
      cell[label]?.bind fun a => cell'[label]?.map fun a' => (a, a') :=
    fun label => Std.TreeMap.getElem?_filterMap'
  have hleft : (both.map fun _ pair => pair.1).Equiv cell := by
    refine Std.TreeMap.Equiv.of_forall_constGet?_eq fun label => ?_
    rw [Std.TreeMap.getElem?_map, hboth]
    rcases h.held label with ⟨hb, hb'⟩ | ⟨b, b', hb, hb', -⟩ <;> rw [hb, hb'] <;> rfl
  have hright : (both.map fun _ pair => pair.2).Equiv cell' := by
    refine Std.TreeMap.Equiv.of_forall_constGet?_eq fun label => ?_
    rw [Std.TreeMap.getElem?_map, hboth]
    rcases h.held label with ⟨hb, hb'⟩ | ⟨b, b', hb, hb', -⟩ <;> rw [hb, hb'] <;> rfl
  refine ⟨both.toList, ?_, ?_, fun entry hentry => ?_⟩
  · rw [← hleft.toList_eq, Std.TreeMap.toList_map]
  · rw [← hright.toList_eq, Std.TreeMap.toList_map]
  · have hpair := Std.TreeMap.mem_toList_iff_getElem?_eq_some.mp hentry
    rw [hboth] at hpair
    rcases h.held entry.1 with ⟨hb, hb'⟩ | ⟨b, b', hb, hb', hheld⟩ <;> rw [hb, hb'] at hpair
    · cases hpair
    · rw [← Option.some.inj hpair]
      exact hheld

theorem values (h : cell.Parallel origin origin' cell') :
    List.Forall₂ (Analysis.Parallel origin origin') cell.values cell'.values := by
  rw [Std.TreeMap.values_eq_map_snd, Std.TreeMap.values_eq_map_snd]
  exact h.paired_toList.map_snd

/-- A beam leaves the same labels of parallel cells. -/
theorem prune (h : cell.Parallel origin origin' cell') (beam : Nat) :
    (cell.prune beam).Parallel origin origin' (cell'.prune beam) := by
  have hranking : Paired origin origin' cell.ranking cell'.ranking := h.paired_toList.mergeSort
  have hsize : cell.size = cell'.size := by
    simpa [ranking, List.length_mergeSort] using hranking.length_eq
  have hkept : Paired origin origin' (cell.kept beam) (cell'.kept beam) := by
    unfold kept
    rw [hsize]
    split
    · exact hranking.take beam
    · exact hranking
  intro label
  cases ha : (cell.prune beam)[label]? with
  | some a =>
    obtain ⟨a', ha', hparallel⟩ := hkept.exists_right (getElem?_prune.mp ha)
    rw [getElem?_prune.mpr ha']
    exact .some hparallel
  | none =>
    cases ha' : (cell'.prune beam)[label]? with
    | none => exact .none
    | some a' =>
      obtain ⟨b, hb⟩ := hkept.exists_left (getElem?_prune.mp ha')
      rw [getElem?_prune.mpr hb] at ha
      cases ha

end Cell.Parallel

/-! ### Closures over two windows -/

/-- Two closures whose cells are parallel, and in which parallel analyses wait in the same order. -/
structure Closure.Parallel (origin origin' : Nat) (c c' : Closure α) : Prop where
  cell : c.cell.Parallel origin origin' c'.cell
  pending : List.Forall₂ (Analysis.Parallel origin origin') c.pending c'.pending

namespace Closure.Parallel

variable {c c' : Closure α} {child child' : Analysis α}

theorem start {cell cell' : Cell α} (h : cell.Parallel origin origin' cell') (used used' : Nat) :
    Parallel origin origin' (start cell used) (start cell' used') where
  cell := h
  pending := List.rel_reverse h.values

theorem apply (h : c.Parallel origin origin' c') (hchild : child.Parallel origin origin' child')
    (rule : Rule α) : (c.apply child rule).Parallel origin origin' (c'.apply child' rule) := by
  have hmade : (Analysis.unary rule child).Parallel origin origin' (.unary rule child') :=
    .unary rule hchild
  constructor
  · rw [cell_apply, cell_apply]
    exact h.cell.offer hmade
  · rw [pending_apply, pending_apply, h.cell.accepts_eq hmade]
    split
    · exact .cons hmade h.pending
    · exact h.pending

theorem foldl_apply (h : c.Parallel origin origin' c')
    (hchild : child.Parallel origin origin' child') (rules : Ruleset α) :
    (rules.foldl (Closure.apply child) c).Parallel origin origin'
      (rules.foldl (Closure.apply child') c') := by
  induction rules generalizing c c' with
  | nil => exact h
  | cons rule rules ih => exact ih (h.apply hchild rule)

variable [Weight α] {g : Grammar α}

/-- Parallel closures take parallel steps. -/
theorem step (h : c.Parallel origin origin' c') :
    (c.step g).Parallel origin origin' (c'.step g) := by
  obtain ⟨cell, pending, used⟩ := c
  obtain ⟨cell', pending', used'⟩ := c'
  obtain ⟨hcell, hpending⟩ := h
  cases hpending with
  | nil => exact ⟨hcell, .nil⟩
  | @cons child child' rest rest' hchild hrest =>
    have hdropped : Parallel origin origin' ⟨cell, rest, used⟩ ⟨cell', rest', used'⟩ :=
      ⟨hcell, hrest⟩
    simp only [Closure.step, hcell.hasBetter_eq hchild, hchild.label_eq]
    split
    · exact hdropped
    · exact hdropped.foldl_apply hchild _

omit [Weight α] in
theorem pending_eq_nil_iff (h : c.Parallel origin origin' c') :
    c.pending = [] ↔ c'.pending = [] := by
  rw [← List.length_eq_zero_iff, h.pending.length_eq, List.length_eq_zero_iff]

/-- Parallel closures that both come to an end are parallel in the end. -/
theorem run {limit limit' : Option Nat} (h : c.Parallel origin origin' c') {d d' : Closure α}
    (hrun : c.run g limit = some (.ok d)) (hrun' : c'.run g limit' = some (.ok d')) :
    d.Parallel origin origin' d' := by
  have key : ∀ {c r}, Ends g limit c r → ∀ {c' d : Closure α}, c.Parallel origin origin' c' →
      r = .ok d → Ends g limit' c' (.ok d') → d.Parallel origin origin' d' := by
    intro c r hends
    induction hends with
    | idle hp =>
      intro c' d h hd hends'
      cases hd
      cases hends' with
      | idle => exact h
      | step hp' => exact absurd (h.pending_eq_nil_iff.mp hp) hp'
    | cutOff =>
      intro c' d _ hd
      cases hd
    | step hp _ _ ih =>
      intro c' d h hd hends'
      cases hends' with
      | idle hp' => exact absurd (h.pending_eq_nil_iff.mpr hp') hp
      | step _ _ hrest' => exact ih h.step hd hrest'
  exact key (run_eq_some_iff.mp hrun) h rfl (run_eq_some_iff.mp hrun')

end Closure.Parallel

/-! ### Spans over two windows -/

namespace Chart

variable [Weight α] {g : Grammar α} {tokens tokens' : List String} {width : Nat}

/-- Two windows whose tokens have the same lower case. -/
def SameWindow (tokens tokens' : List String) (origin origin' width : Nat) : Prop :=
  ∀ place < width, ∃ token token', tokens[origin + place]? = some token ∧
    tokens'[origin' + place]? = some token' ∧ Text.lowerCase token = Text.lowerCase token'

theorem parallel_ofToken (place : Nat) {token token' : String}
    (hcase : Text.lowerCase token = Text.lowerCase token') :
    List.Forall₂ (List.Forall₂ (Analysis.Parallel origin origin'))
      (ofToken g token (origin + place)) (ofToken g token' (origin' + place)) := by
  unfold ofToken
  rw [hcase, List.forall₂_map_left_iff, List.forall₂_map_right_iff, List.forall₂_same]
  exact fun rule _ => .cons (.lexical rule place hcase) .nil

theorem parallel_ofCells {left left' right right' : Cell α}
    (hleft : left.Parallel origin origin' left') (hright : right.Parallel origin origin' right') :
    List.Forall₂ (List.Forall₂ (Analysis.Parallel origin origin'))
      (ofCells g left right) (ofCells g left' right') := by
  refine List.rel_flatMap hleft.values fun a a' ha => ?_
  refine List.rel_map (fun b b' hb => ?_) hright.values
  rw [ha.label_eq, hb.label_eq, List.forall₂_map_left_iff, List.forall₂_map_right_iff,
    List.forall₂_same]
  exact fun rule _ => .binary rule ha hb

/-- Spans in the same place of their windows are split in the same places. -/
theorem forall₂_splits (origin origin' i j : Nat) :
    List.Forall₂
      (fun split split' => ∃ k, i ≤ k ∧ k < j ∧ split = origin + k ∧ split' = origin' + k)
      (List.range' (origin + i) (origin + j - (origin + i)))
      (List.range' (origin' + i) (origin' + j - (origin' + i))) := by
  have hlength : ∀ origin, origin + j - (origin + i) = j - i := fun origin => by omega
  rw [hlength, hlength, List.range'_eq_map_range, List.range'_eq_map_range,
    List.forall₂_map_left_iff, List.forall₂_map_right_iff, List.forall₂_same]
  intro place hplace
  have := List.mem_range.mp hplace
  exact ⟨i + place, by omega, by omega, by omega, by omega⟩

variable {chart chart' : Chart α} {i j : Nat}

/-- Parallel cells of all shorter spans make a span start with parallel analyses. -/
theorem parallel_starters (hwords : SameWindow tokens tokens' origin origin' width) (hj : j < width)
    (hij : i ≤ j)
    (hcells : ∀ k l, k ≤ l → l ≤ j → l - k < j - i →
      (chart.cell (origin + k) (origin + l)).Parallel origin origin'
        (chart'.cell (origin' + k) (origin' + l))) :
    List.Forall₂ (List.Forall₂ (Analysis.Parallel origin origin'))
      (starters g tokens.toArray chart (origin + i) (origin + j))
      (starters g tokens'.toArray chart' (origin' + i) (origin' + j)) := by
  rcases Nat.eq_or_lt_of_le hij with rfl | hlt
  · obtain ⟨token, token', ht, ht', hcase⟩ := hwords i hj
    simpa [starters, ht, ht'] using parallel_ofToken i hcase
  · have hne : origin + i ≠ origin + j := by omega
    have hne' : origin' + i ≠ origin' + j := by omega
    rw [starters, starters, if_neg hne, if_neg hne']
    refine List.rel_flatMap (forall₂_splits origin origin' i j) ?_
    rintro _ _ ⟨k, hik, hkj, rfl, rfl⟩
    exact parallel_ofCells (hcells i k hik (by omega) (by omega))
      (hcells (k + 1) j (by omega) (by omega) (by omega))

theorem parallel_opened (hwords : SameWindow tokens tokens' origin origin' width) (hj : j < width)
    (hij : i ≤ j)
    (hcells : ∀ k l, k ≤ l → l ≤ j → l - k < j - i →
      (chart.cell (origin + k) (origin + l)).Parallel origin origin'
        (chart'.cell (origin' + k) (origin' + l))) :
    (opened g tokens.toArray chart (origin + i) (origin + j)).Parallel origin origin'
      (opened g tokens'.toArray chart' (origin' + i) (origin' + j)) := by
  have hflat := List.rel_flatten (parallel_starters (g := g) hwords hj hij hcells)
  exact List.rel_foldl (fun _ _ h _ _ ha => h.offer ha) .empty hflat

/-- The cells of two spans in the same place of their windows are parallel. -/
theorem Grown.parallel {beam : Nat} {limit limit' : Option Nat}
    (hwords : SameWindow tokens tokens' origin origin' width) {first last : Nat} {cell : Cell α}
    (h : Grown g tokens.toArray beam limit first last cell) :
    ∀ {i j : Nat} {cell' : Cell α}, first = origin + i → last = origin + j → j < width →
      Grown g tokens'.toArray beam limit' (origin' + i) (origin' + j) cell' →
        cell.Parallel origin origin' cell' := by
  induction h with
  | fill hle hlt shorter hrun ih =>
    intro i j cell' hfirst hlast hj h'
    subst hfirst hlast
    cases h' with
    | fill _ _ shorter' hrun' =>
      have hcells : ∀ k l, k ≤ l → l ≤ j → l - k < j - i → _ := fun k l hkl hl hlen =>
        ih (origin + k) (origin + l) (by omega) (by omega) (by omega) rfl rfl (by omega)
          (shorter' (origin' + k) (origin' + l) (by omega) (by omega) (by omega))
      have hopened := parallel_opened (g := g) hwords hj (by omega) hcells
      exact (Closure.Parallel.run (.start hopened _ _) hrun hrun').cell.prune beam

end Chart

namespace Grammar

variable [Weight α]

/-- Over windows whose tokens have the same lower case two charts with the same beam hold the same
labels, with the same scores, and with trees that differ in the spelling of the words and in a shift
of all spans only. -/
theorem chart_local (g : Grammar α) {tokens tokens' : List String} {options options' : ParseOptions}
    (hbeam : options.beam = options'.beam) {chart chart' : Chart α}
    (h : g.chart tokens options = .ok chart) (h' : g.chart tokens' options' = .ok chart')
    {width : Nat} (hwidth : 0 < width)
    (hwords : Chart.SameWindow tokens tokens' origin origin' width) (label : String) :
    Option.Rel (fun a a' => a.score = a'.score ∧ a.tree.Parallel origin origin' a'.tree ∧
        List.Forall₂ (Constituent.Parallel origin origin') a.tree.constituents a'.tree.constituents)
      (chart.best? label origin (origin + width - 1))
      (chart'.best? label origin' (origin' + width - 1)) := by
  obtain ⟨-, progress, hfill, rfl⟩ := fill_of_chart h
  obtain ⟨-, progress', hfill', rfl⟩ := fill_of_chart h'
  have hlast : width - 1 < width := Nat.sub_one_lt_of_lt hwidth
  rw [Nat.add_sub_assoc hwidth, Nat.add_sub_assoc hwidth]
  obtain ⟨_, _, ht, ht', -⟩ := hwords (width - 1) hlast
  obtain ⟨hlt, -⟩ := List.getElem?_eq_some_iff.mp ht
  obtain ⟨hlt', -⟩ := List.getElem?_eq_some_iff.mp ht'
  have hgrown := (Chart.grown_of_fill hfill).2 origin _ (Nat.le_add_right _ _) hlt
  have hgrown' := (Chart.grown_of_fill hfill').2 origin' _ (Nat.le_add_right _ _) hlt'
  rw [← hbeam] at hgrown'
  have hcell := hgrown.parallel hwords (i := 0) rfl rfl hlast hgrown'
  unfold Chart.best?
  rcases hcell.held label with ⟨ha, ha'⟩ | ⟨a, a', ha, ha', hparallel⟩
  · rw [ha, ha']
    exact .none
  · rw [ha, ha']
    exact .some ⟨hparallel.score_eq, hparallel, Tree.Parallel.constituents hparallel⟩

/-- The words of two windows, one of them after another word. -/
theorem sameWindow_doubling : Chart.SameWindow ["a", "A"] ["b", "A", "a"] 0 1 2 := by
  intro place hplace
  obtain rfl | rfl : place = 0 ∨ place = 1 := by omega
  · exact ⟨"a", "A", rfl, rfl, by decide +kernel⟩
  · exact ⟨"A", "a", rfl, rfl, by decide +kernel⟩

/-- A word before a window that is not in the grammar, and capital letters, change nothing. -/
theorem chart_local_doubling :
    ∃ chart chart', doubling.chart ["a", "A"] { beam := 1 } = .ok chart ∧
      doubling.chart ["b", "A", "a"] { beam := 1 } = .ok chart' ∧
      Option.Rel (fun a a' => a.score = a'.score ∧ a.tree.Parallel 0 1 a'.tree ∧
          List.Forall₂ (Constituent.Parallel 0 1) a.tree.constituents a'.tree.constituents)
        (chart.best? "S" 0 1) (chart'.best? "S" 1 2) := by
  obtain ⟨chart, h⟩ := exists_chart unaryRules_doubling ["a", "A"] (List.cons_ne_nil _ _)
    { beam := 1 } rfl
  obtain ⟨chart', h'⟩ := exists_chart unaryRules_doubling ["b", "A", "a"] (List.cons_ne_nil _ _)
    { beam := 1 } rfl
  exact ⟨chart, chart', h, h',
    chart_local doubling rfl h h' Nat.two_pos sameWindow_doubling "S"⟩

end Grammar

end Constituency
