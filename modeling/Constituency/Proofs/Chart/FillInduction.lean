import Mathlib.Data.List.Basic
import Constituency.Chart.Filling
import Constituency.Proofs.Chart.Slots

/-!
# Induction along the filling of a chart

The spans are filled in an order in which every span comes after all shorter ones, and each is
filled once. What holds of the cell of a span whenever it holds of the cells of all shorter spans
therefore holds of every cell in the end (`fill_induction`). It may also be what makes it possible to
fill the next span (`exists_fill`).
-/
namespace Constituency

theorem Counted.bind_eq_ok {β γ : Type} {x : Counted β} {f : β → Counted γ} {c : γ}
    (h : (x >>= f).run = some (.ok c)) : ∃ b, x.run = some (.ok b) ∧ (f b).run = some (.ok c) := by
  rw [ExceptT.run_bind] at h
  obtain ⟨r, hr, hc⟩ := Option.bind_eq_some_iff.mp h
  cases r with
  | error e => cases hc
  | ok b => exact ⟨b, hr, hc⟩

theorem Counted.run_bind_of_ok {β γ : Type} {x : Counted β} {b : β} (hx : x.run = some (.ok b))
    (f : β → Counted γ) : (x >>= f).run = (f b).run := by
  rw [ExceptT.run_bind, hx]
  rfl

namespace Chart

theorem mem_spans {length first last : Nat} :
    (first, last) ∈ spans length ↔ first ≤ last ∧ last < length := by
  simp only [spans, List.mem_flatMap, List.mem_map, List.mem_range, Prod.mk.injEq]
  constructor
  · rintro ⟨more, hm, i, hi, rfl, rfl⟩
    omega
  · rintro ⟨h, hl⟩
    exact ⟨last - first, by omega, first, by omega, rfl, by omega⟩

/-- No span is listed before a shorter one, and none twice. -/
theorem pairwise_spans (length : Nat) :
    (spans length).Pairwise fun s t => s.2 - s.1 ≤ t.2 - t.1 ∧ s ≠ t := by
  rw [spans, List.pairwise_flatMap]
  constructor
  · intro more _
    rw [List.pairwise_map]
    refine List.pairwise_lt_range.imp fun {i j} hij => ⟨by omega, fun h => ?_⟩
    have := congrArg Prod.fst h
    simp only at this
    omega
  · refine List.pairwise_lt_range.imp fun {more more'} hlt s hs t ht => ?_
    obtain ⟨i, _, rfl⟩ := List.mem_map.mp hs
    obtain ⟨j, _, rfl⟩ := List.mem_map.mp ht
    refine ⟨by dsimp only; omega, fun h => ?_⟩
    have h1 := congrArg Prod.fst h
    have h2 := congrArg Prod.snd h
    simp only at h1 h2
    omega

variable {α σ : Type} [Score σ] [Logarithm α σ] [Weight α]

/-- The cell of a span before it is closed. -/
def opened (g : Grammar α) (tokens : Array String) (chart : Chart α) (first last : Nat) : Cell α :=
  (starters g tokens chart first last).flatten.foldl Cell.offer ∅

/-- A span that is filled gets the closure of what it starts with. -/
theorem fillSpan_eq_ok {g : Grammar α} {tokens : Array String} {beam : Nat} {limit : Option Nat}
    {progress next : Progress α} {first last : Nat}
    (h : (fillSpan g tokens beam limit progress (first, last)).run = some (.ok next)) :
    ∃ used closed, (Closure.start (opened g tokens progress.chart first last) used).run g limit
        = some (.ok closed) ∧ next.chart = progress.chart.store first last beam closed.cell := by
  simp only [fillSpan] at h
  split at h
  · cases h
  · obtain ⟨closed, hrun, h⟩ := Counted.bind_eq_ok h
    cases h
    exact ⟨_, closed, hrun, rfl⟩

variable {g : Grammar α} {tokens : Array String} {beam : Nat} {limit : Option Nat}
  {Q : Nat → Nat → Cell α → Prop}

/-- The spans that are `done` have cells with a property. -/
structure Filled (tokens : Array String) (Q : Nat → Nat → Cell α → Prop) (done : List (Nat × Nat))
    (chart : Chart α) : Prop where
  length_eq : chart.length = tokens.size
  cells : ∀ s ∈ done, Q s.1 s.2 (chart.cell s.1 s.2)

/-- A way to fill a span that gives it the property once all shorter spans have it. -/
def Fills (g : Grammar α) (tokens : Array String) (beam : Nat) (limit : Option Nat)
    (Q : Nat → Nat → Cell α → Prop) : Prop :=
  ∀ (chart : Chart α) (first last used : Nat) (closed : Closure α), chart.length = tokens.size →
    first ≤ last → last < tokens.size →
    (∀ i j, i ≤ j → j < tokens.size → j - i < last - first → Q i j (chart.cell i j)) →
    (Closure.start (opened g tokens chart first last) used).run g limit = some (.ok closed) →
    Q first last (closed.cell.prune beam)

/-- Shorter spans come before a span, and the span itself does not. -/
theorem before_of_spans {n : Nat} {done todo : List (Nat × Nat)} {s : Nat × Nat}
    (hspans : done ++ s :: todo = spans n) :
    (∀ i j, i ≤ j → j < n → j - i < s.2 - s.1 → (i, j) ∈ done) ∧ s ∉ done := by
  have horder := hspans ▸ pairwise_spans n
  rw [List.pairwise_append, List.pairwise_cons] at horder
  obtain ⟨-, ⟨htodo, -⟩, hdone⟩ := horder
  constructor
  · intro i j hij hj hlen
    have hmem : (i, j) ∈ done ++ s :: todo := hspans ▸ mem_spans.mpr ⟨hij, hj⟩
    rcases List.mem_append.mp hmem with hmem | hmem
    · exact hmem
    · rcases List.mem_cons.mp hmem with rfl | hmem
      · exact absurd hlen (Nat.lt_irrefl _)
      · exact absurd hlen (Nat.not_lt.mpr (htodo _ hmem).1)
  · intro hs
    exact (hdone s hs s List.mem_cons_self).2 rfl

theorem Filled.fillSpan (hQ : Fills g tokens beam limit Q) {done todo : List (Nat × Nat)}
    {s : Nat × Nat} (hspans : done ++ s :: todo = spans tokens.size) {progress next : Progress α}
    (hf : Filled tokens Q done progress.chart)
    (h : (fillSpan g tokens beam limit progress s).run = some (.ok next)) :
    Filled tokens Q (done ++ [s]) next.chart := by
  obtain ⟨first, last⟩ := s
  obtain ⟨used, closed, hrun, hchart⟩ := fillSpan_eq_ok h
  obtain ⟨hle, hlt⟩ : first ≤ last ∧ last < tokens.size := mem_spans.mp (by simp [← hspans])
  obtain ⟨hbefore, hnew⟩ := before_of_spans hspans
  refine ⟨by rw [hchart, length_store, hf.length_eq], fun t ht => ?_⟩
  rw [hchart]
  rcases List.mem_append.mp ht with hold | hlast
  · have hne : ¬ (first = t.1 ∧ last = t.2) := by
      rintro ⟨rfl, rfl⟩
      exact hnew hold
    rw [cell_store_of_ne _ _ _ hne]
    exact hf.cells t hold
  · obtain rfl := List.mem_singleton.mp hlast
    rw [cell_store_self _ _ _ hle (hf.length_eq ▸ hlt)]
    exact hQ progress.chart first last used closed hf.length_eq hle hlt
      (fun i j hij hj hlen => hf.cells (i, j) (hbefore i j hij hj hlen)) hrun

theorem Filled.foldlM (hQ : Fills g tokens beam limit Q) {done now todo : List (Nat × Nat)}
    (hspans : done ++ now ++ todo = spans tokens.size) {progress last : Progress α}
    (hf : Filled tokens Q done progress.chart)
    (h : (now.foldlM (Chart.fillSpan g tokens beam limit) progress).run = some (.ok last)) :
    Filled tokens Q (done ++ now) last.chart := by
  induction now generalizing done progress with
  | nil =>
    cases h
    rwa [List.append_nil]
  | cons s now ih =>
    rw [List.foldlM_cons] at h
    obtain ⟨next, hs, hrest⟩ := Counted.bind_eq_ok h
    have hspan : done ++ s :: (now ++ todo) = spans tokens.size := by rw [← hspans]; simp
    rw [List.append_cons]
    exact ih (by rw [← hspan]; simp) (hf.fillSpan hQ hspan hs) hrest

omit [Weight α] in
theorem filled_nil (tokens : Array String) (Q : Nat → Nat → Cell α → Prop) :
    Filled tokens Q [] (empty tokens.size : Chart α) :=
  ⟨rfl, by simp⟩

/-- What every span gets once all shorter spans have it, all cells of a filled chart have. -/
theorem fill_induction (hQ : Fills g tokens beam limit Q) {progress : Progress α}
    (h : (fill g tokens beam limit).run = some (.ok progress)) :
    progress.chart.length = tokens.size ∧
      ∀ i j, i ≤ j → j < tokens.size → Q i j (progress.chart.cell i j) := by
  have hf : Filled tokens Q (spans tokens.size) progress.chart :=
    (filled_nil tokens Q).foldlM hQ (List.append_nil _) h
  exact ⟨hf.length_eq, fun i j hij hj => hf.cells (i, j) (mem_spans.mpr ⟨hij, hj⟩)⟩

/-- If every span can be filled once all shorter spans have the property, all of them can. -/
theorem Filled.exists_foldlM (hQ : Fills g tokens beam limit Q)
    (hspan : ∀ {done todo s} {progress : Progress α}, done ++ s :: todo = spans tokens.size →
      Filled tokens Q done progress.chart →
        ∃ next, (Chart.fillSpan g tokens beam limit progress s).run = some (.ok next))
    {done todo : List (Nat × Nat)} (hspans : done ++ todo = spans tokens.size)
    {progress : Progress α} (hf : Filled tokens Q done progress.chart) :
    ∃ last, (todo.foldlM (Chart.fillSpan g tokens beam limit) progress).run = some (.ok last) := by
  induction todo generalizing done progress with
  | nil => exact ⟨progress, rfl⟩
  | cons s todo ih =>
    obtain ⟨next, hnext⟩ := hspan hspans hf
    obtain ⟨last, hlast⟩ := ih (by rw [← hspans]; simp) (hf.fillSpan hQ hspans hnext)
    refine ⟨last, ?_⟩
    rw [List.foldlM_cons, Counted.run_bind_of_ok hnext]
    exact hlast

/-- A chart can be filled if every span can be, once all shorter spans have the property. -/
theorem exists_fill (hQ : Fills g tokens beam limit Q)
    (hspan : ∀ {done todo s} {progress : Progress α}, done ++ s :: todo = spans tokens.size →
      Filled tokens Q done progress.chart →
        ∃ next, (Chart.fillSpan g tokens beam limit progress s).run = some (.ok next)) :
    ∃ progress, (fill g tokens beam limit).run = some (.ok progress) :=
  Filled.exists_foldlM hQ hspan (List.nil_append _) (filled_nil tokens Q)

end Chart

end Constituency
