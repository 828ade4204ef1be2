import Mathlib.Data.List.MinMax
import Constituency.Proofs.Chart.Endings

/-!
# What is built within a limit

A limit counts steps, and a step that joins two analyses builds as many as there are binary rules
for the pair. To see what is built also where the limit cuts a chart off, the filling is written
once more, step by step, with a tally that survives the cut (`Grammar.tallied`); it gives the same
charts and the same errors. No step builds more than `fanout` analyses, so that all together build
`fanout` times the limit at most; but they can build more than the limit.
-/
namespace Constituency

/-- The steps that have been taken, the one that exceeds a limit included, and the analyses that
have been built. -/
structure Tally where
  used : Nat := 0
  built : Nat := 0
deriving DecidableEq, Repr

/-- Work with a tally, which is there also where the work is cut off. -/
abbrev Tallied := ExceptT Exhausted (StateT Tally Option)

namespace Tallied

variable {β γ ι : Type} {limit : Option Nat} {t t' : Tally}

/-- What comes of work that goes on from a tally. -/
def runFrom (work : Tallied β) (t : Tally) : Option (Except Exhausted β × Tally) :=
  work.run.run t

/-- Takes a step, and builds a number of analyses if the limit allows it. -/
def step (limit : Option Nat) (count : Nat) : Tallied Unit := do
  modify fun t => { t with used := t.used + 1 }
  if exceeds limit (← get).used then throw {}
  modify fun t => { t with built := t.built + count }

/-- Takes a step for every item of a list. -/
def steps (limit : Option Nat) (count : ι → Nat) (f : β → ι → β) (items : List ι) (b : β) :
    Tallied β :=
  items.foldlM (fun b i => do step limit (count i); return f b i) b

theorem runFrom_pure (b : β) (t : Tally) : (pure b : Tallied β).runFrom t = some (.ok b, t) := rfl

theorem runFrom_bind (work : Tallied β) (next : β → Tallied γ) (t : Tally) :
    (work >>= next).runFrom t = (work.runFrom t).bind fun
      | (.ok b, t') => (next b).runFrom t'
      | (.error e, t') => some (.error e, t') := by
  simp only [runFrom, ExceptT.run_bind, StateT.run_bind]
  cases work.run.run t with
  | none => rfl
  | some r =>
    obtain ⟨r, t'⟩ := r
    cases r <;> rfl

theorem runFrom_step (limit : Option Nat) (count : Nat) (t : Tally) :
    (step limit count).runFrom t =
      if exceeds limit (t.used + 1) then some (.error {}, { t with used := t.used + 1 })
      else some (.ok (), { used := t.used + 1, built := t.built + count }) := by
  change (if exceeds limit (t.used + 1) then throw {}
    else modify fun t => { t with built := t.built + count } : Tallied Unit).runFrom
      { t with used := t.used + 1 } = _
  split <;> rfl

/-! ### Work that comes to the same -/

/-- Whether tallied work, begun with a tally, ends as plain work does. -/
structure Follows (work : Tallied β) (t : Tally) (plain : Counted γ) (view : γ → β × Tally) :
    Prop where
  ok : ∀ {c}, plain.run = some (.ok c) → work.runFrom t = some (.ok (view c).1, (view c).2)
  error : plain.run = some (.error {}) → ∃ t', work.runFrom t = some (.error {}, t')

theorem Follows.pure {c : γ} {view : γ → β × Tally} :
    Follows (Pure.pure (view c).1) (view c).2 (Pure.pure c) view where
  ok h := by cases h; rfl
  error h := by cases h

/-- Work that has begun goes on as plain work does. -/
theorem Follows.after {b : β} {β' : Type} {work : Tallied β} {next : β → Tallied β'}
    {plain : Counted γ} {view : γ → β' × Tally} (hwork : work.runFrom t = some (.ok b, t'))
    (h : Follows (next b) t' plain view) : Follows (work >>= next) t plain view where
  ok hc := by rw [runFrom_bind, hwork]; exact h.ok hc
  error he := by rw [runFrom_bind, hwork]; exact h.error he

theorem Follows.bind {β' γ' : Type} {work : Tallied β} {plain : Counted γ} {view : γ → β × Tally}
    (h : Follows work t plain view) {next : β → Tallied β'} {plainNext : γ → Counted γ'}
    {view' : γ' → β' × Tally} (hnext : ∀ c, plain.run = some (.ok c) →
      Follows (next (view c).1) (view c).2 (plainNext c) view') :
    Follows (work >>= next) t (plain >>= plainNext) view' where
  ok hc := by
    obtain ⟨c, hplain, hc⟩ := Counted.bind_eq_ok hc
    rw [runFrom_bind, h.ok hplain]
    exact (hnext c hplain).ok hc
  error he := by
    rw [ExceptT.run_bind] at he
    obtain ⟨r, hplain, he⟩ := Option.bind_eq_some_iff.mp he
    rw [runFrom_bind]
    cases r with
    | error e =>
      obtain ⟨t', ht⟩ := h.error hplain
      exact ⟨t', by rw [ht]; rfl⟩
    | ok c =>
      rw [h.ok hplain]
      exact (hnext c hplain).error he

theorem runFrom_steps_cons (count : ι → Nat) (f : β → ι → β) (i : ι) (items : List ι) (b : β)
    (t : Tally) :
    (steps limit count f (i :: items) b).runFrom t =
      if exceeds limit (t.used + 1) then some (.error {}, { t with used := t.used + 1 })
      else (steps limit count f items (f b i)).runFrom
        { used := t.used + 1, built := t.built + count i } := by
  rw [steps, List.foldlM_cons, runFrom_bind, runFrom_bind, runFrom_step]
  split <;> rfl

/-- Steps within the limit are all taken. -/
theorem runFrom_steps {limit : Nat} (count : ι → Nat) (f : β → ι → β) {items : List ι} {b : β}
    (h : t.used + items.length ≤ limit) :
    (steps (some limit) count f items b).runFrom t =
      some (.ok (items.foldl f b),
        { used := t.used + items.length, built := t.built + (items.map count).sum }) := by
  induction items generalizing b t with
  | nil => rfl
  | cons i items ih =>
    rw [List.length_cons] at h
    have hone : ¬ limit < t.used + 1 := by omega
    rw [runFrom_steps_cons, exceeds_some, decide_eq_false hone, if_neg Bool.false_ne_true, ih (by
      dsimp only
      omega)]
    simp only [List.foldl_cons, List.length_cons, List.map_cons, List.sum_cons]
    congr 3 <;> omega

theorem exists_runFrom_steps {limit : Nat} (count : ι → Nat) (f : β → ι → β) {items : List ι}
    {b : β} (h : t.used ≤ limit) (hlimit : limit < t.used + items.length) :
    ∃ t', (steps (some limit) count f items b).runFrom t = some (.error {}, t') := by
  induction items generalizing b t with
  | nil =>
    rw [List.length_nil] at hlimit
    omega
  | cons i items ih =>
    rw [List.length_cons] at hlimit
    rw [runFrom_steps_cons]
    split
    · exact ⟨_, rfl⟩
    · rename_i hone
      have hone : t.used + 1 ≤ limit := by simpa using hone
      exact ih hone (by dsimp only; omega)

end Tallied

variable {α σ : Type} [Weight α] [Score σ] [Logarithm α σ]

namespace Closure

/-- Works off the next analysis, rule by rule. -/
def stepTallied (g : Grammar α) (limit : Option Nat) (c : Closure α) : Tallied (Closure α) :=
  match c.pending with
  | [] => pure c
  | child :: rest =>
    if c.cell.hasBetter child then pure { c with pending := rest }
    else Tallied.steps limit (fun _ => 1) (apply child) (g.unaryRules child.label)
      { c with pending := rest }

/-- The closure in the end, and the tally. -/
def runTallied? (g : Grammar α) (limit : Option Nat) (c : Closure α) (t : Tally) :
    Option (Except Exhausted (Closure α) × Tally) :=
  if c.pending.isEmpty then some (.ok c, t)
  else do
    match ← (c.stepTallied g limit).runFrom t with
    | (.ok next, t') => next |>.runTallied? g limit t'
    | (.error e, t') => some (.error e, t')
partial_fixpoint

/-- Runs a closure, rule by rule. -/
def runTallied (g : Grammar α) (limit : Option Nat) (c : Closure α) : Tallied (Closure α) :=
  ExceptT.mk fun t => c.runTallied? g limit t

end Closure

namespace Chart

/-- Fills one span, step by step. -/
def fillSpanTallied (g : Grammar α) (tokens : Array String) (beam : Nat) (limit : Option Nat)
    (chart : Chart α) (span : Nat × Nat) : Tallied (Chart α) := do
  let cell ← Tallied.steps limit List.length (List.foldl Cell.offer)
    (starters g tokens chart span.1 span.2) ∅
  let closed ← (Closure.start cell (← get).used).runTallied g limit
  return chart.store span.1 span.2 beam closed.cell

/-- Fills all spans, step by step. -/
def fillTallied (g : Grammar α) (tokens : Array String) (beam : Nat) (limit : Option Nat) :
    Tallied (Chart α) :=
  (spans tokens.size).foldlM (fillSpanTallied g tokens beam limit) (empty tokens.size)

end Chart

namespace Closure

variable {g : Grammar α} {limit : Nat} {c d : Closure α} {t : Tally}

/-- The tally of a closure that has taken steps since, each of which builds one analysis. -/
def tallyAfter (c : Closure α) (t : Tally) (d : Closure α) : Tally :=
  { used := d.used, built := t.built + (d.used - c.used) }

omit [Weight α] in
theorem tallyAfter_trans {next : Closure α} (h : c.used ≤ next.used) (h' : next.used ≤ d.used) :
    next.tallyAfter (c.tallyAfter t next) d = c.tallyAfter t d := by
  simp only [tallyAfter, Tally.mk.injEq, true_and]
  omega

theorem runFrom_stepTallied (hp : c.pending ≠ []) (ht : t.used = c.used)
    (h : (c.step g).used ≤ limit) :
    (c.stepTallied g (some limit)).runFrom t =
      some (.ok (c.step g), c.tallyAfter t (c.step g)) := by
  obtain ⟨child, rest, hp⟩ := List.exists_cons_of_ne_nil hp
  obtain ⟨used, built⟩ := t
  obtain rfl : used = c.used := ht
  rcases step_cons (g := g) hp with ⟨hs, hbetter⟩ | ⟨hs, hbetter⟩
  · simp [hs, stepTallied, hp, hbetter, tallyAfter, Tallied.runFrom_pure]
  · rw [hs, used_foldl_apply] at h
    simp only [stepTallied, hp, hbetter, Bool.false_eq_true, if_false]
    rw [Tallied.runFrom_steps _ _ h, hs, tallyAfter, used_foldl_apply]
    simp

theorem exists_runFrom_stepTallied (hp : c.pending ≠ []) (ht : t.used = c.used)
    (hc : c.used ≤ limit) (h : limit < (c.step g).used) :
    ∃ t', (c.stepTallied g (some limit)).runFrom t = some (.error {}, t') := by
  obtain ⟨child, rest, hp⟩ := List.exists_cons_of_ne_nil hp
  rcases step_cons (g := g) hp with ⟨hs, -⟩ | ⟨hs, hbetter⟩
  · rw [hs] at h
    exact absurd h (Nat.not_lt.mpr hc)
  · rw [hs, used_foldl_apply] at h
    simp only [stepTallied, hp, hbetter, Bool.false_eq_true, if_false]
    exact Tallied.exists_runFrom_steps _ _ (ht ▸ hc) (ht ▸ h)

/-- A closure that comes to a result does so rule by rule as well, with a step for each analysis. -/
theorem Ends.runTallied?_eq {r : Except Exhausted (Closure α)} (h : Ends g (some limit) c r)
    (hr : r = .ok d) (ht : t.used = c.used) :
    c.used ≤ d.used ∧ c.runTallied? g (some limit) t = some (.ok d, c.tallyAfter t d) := by
  induction h generalizing t with
  | idle hp =>
    cases hr
    refine ⟨Nat.le_refl _, ?_⟩
    rw [runTallied?, if_pos (List.isEmpty_iff.mpr hp), tallyAfter, Nat.sub_self, ← ht]
    rfl
  | cutOff => cases hr
  | @step c _ hp hl _ ih =>
    have hle : (c.step g).used ≤ limit := by simpa using hl
    have hstep := used_le_step g c
    obtain ⟨hused, hrun⟩ := ih hr (t := c.tallyAfter t (c.step g)) rfl
    rw [tallyAfter_trans hstep hused] at hrun
    refine ⟨Nat.le_trans hstep hused, ?_⟩
    rw [runTallied?, if_neg (by simpa using hp), runFrom_stepTallied hp ht hle]
    exact hrun

/-- A closure that is cut off is cut off among the rules for an analysis. -/
theorem Ends.exists_runTallied? {r : Except Exhausted (Closure α)} (h : Ends g (some limit) c r)
    (hr : r = .error {}) (ht : t.used = c.used) (hc : c.used ≤ limit) :
    ∃ t', c.runTallied? g (some limit) t = some (.error {}, t') := by
  induction h generalizing t with
  | idle => cases hr
  | cutOff hp hl =>
    obtain ⟨t', ht'⟩ := exists_runFrom_stepTallied (t := t) hp ht hc (by simpa using hl)
    refine ⟨t', ?_⟩
    rw [runTallied?, if_neg (by simpa using hp), ht']
    rfl
  | @step c _ hp hl _ ih =>
    have hle : (c.step g).used ≤ limit := by simpa using hl
    rw [runTallied?, if_neg (by simpa using hp), runFrom_stepTallied hp ht hle]
    exact ih hr (t := c.tallyAfter t (c.step g)) rfl hle

/-- A closure that is run rule by rule ends as it does step by step. -/
theorem follows_run (ht : t.used = c.used) (hc : c.used ≤ limit) :
    Tallied.Follows (c.runTallied g (some limit)) t (ExceptT.mk (c.run g (some limit)))
      fun d => (d, c.tallyAfter t d) where
  ok hd := ((run_eq_some_iff.mp hd).runTallied?_eq rfl ht).2
  error he := (run_eq_some_iff.mp he).exists_runTallied? rfl ht hc

end Closure

namespace Chart

variable {g : Grammar α} {limit : Nat}

/-- What a progress comes to in a tally. -/
def Progress.view (progress : Progress α) : Chart α × Tally :=
  (progress.chart, { used := progress.used, built := progress.built })

theorem follows_fillSpan (tokens : Array String) (beam : Nat) {progress : Progress α}
    (span : Nat × Nat) (h : progress.used ≤ limit) :
    Tallied.Follows (fillSpanTallied g tokens beam (some limit) progress.view.1 span)
      progress.view.2 (fillSpan g tokens beam (some limit) progress span) Progress.view := by
  obtain ⟨chart, used, built⟩ := progress
  simp only [Progress.view, fillSpanTallied, fillSpan] at h ⊢
  by_cases hl : limit < used + (starters g tokens chart span.1 span.2).length
  · obtain ⟨t', ht'⟩ := Tallied.exists_runFrom_steps (t := { used, built }) List.length
      (List.foldl Cell.offer) (b := (∅ : Cell α)) h hl
    simp only [exceeds_some, hl, decide_true, if_true]
    refine ⟨fun hc => (by cases hc), fun _ => ⟨t', ?_⟩⟩
    rw [Tallied.runFrom_bind, ht']
    rfl
  · simp only [exceeds_some, hl, decide_false, Bool.false_eq_true, if_false]
    refine Tallied.Follows.after (Tallied.runFrom_steps _ _ (Nat.not_lt.mp hl)) ?_
    rw [← List.foldl_flatten, ← List.length_flatten]
    refine Tallied.Follows.after rfl ?_
    refine Tallied.Follows.bind (Closure.follows_run rfl (Nat.not_lt.mp hl)) fun closed _ => ?_
    exact @Tallied.Follows.pure _ _ (⟨_, _, _⟩ : Progress α) Progress.view

theorem follows_fill (g : Grammar α) (limit : Nat) (tokens : Array String) (beam : Nat) :
    Tallied.Follows (fillTallied g tokens beam (some limit)) {}
      (fill g tokens beam (some limit)) Progress.view := by
  have key : ∀ (spans : List (Nat × Nat)) (progress : Progress α), progress.used ≤ limit →
      Tallied.Follows (spans.foldlM (fillSpanTallied g tokens beam (some limit)) progress.view.1)
        progress.view.2 (spans.foldlM (fillSpan g tokens beam (some limit)) progress)
        Progress.view := by
    intro spans
    induction spans with
    | nil => exact fun progress _ => Tallied.Follows.pure
    | cons span spans ih =>
      intro progress h
      rw [List.foldlM_cons, List.foldlM_cons]
      refine (follows_fillSpan tokens beam span h).bind fun next hnext => ih next ?_
      exact (((metered_fillSpan g tokens beam progress span).ok_iff h).mp hnext).2
  exact key (spans tokens.size) { chart := empty tokens.size, used := 0, built := 0 }
    (Nat.zero_le limit)

end Chart

/-! ### Work within a limit -/

/-- A tally within a limit, with `width` analyses for each step at most. -/
structure Tally.Within (limit width : Nat) (t : Tally) : Prop where
  used_le : t.used ≤ limit
  built_le : t.built ≤ width * t.used

namespace Tallied

variable {β γ ι : Type} {limit width : Nat}

/-- Work that stays within a limit, or is cut off before it has built more than its steps allow. -/
structure Bounded (limit width : Nat) (work : Tallied β) : Prop where
  ok : ∀ {t b t'}, t.Within limit width → work.runFrom t = some (.ok b, t') → t'.Within limit width
  error : ∀ {t e t'}, t.Within limit width → work.runFrom t = some (.error e, t') →
    t'.built ≤ width * limit

theorem Bounded.pure (b : β) : Bounded limit width (Pure.pure b : Tallied β) where
  ok ht h := by cases h; exact ht
  error ht h := by cases h

theorem Bounded.bind {work : Tallied β} (h : Bounded limit width work) {next : β → Tallied γ}
    (hnext : ∀ b, Bounded limit width (next b)) : Bounded limit width (work >>= next) where
  ok ht hc := by
    rw [runFrom_bind] at hc
    obtain ⟨⟨r, t⟩, hr, hc⟩ := Option.bind_eq_some_iff.mp hc
    cases r with
    | error e => cases hc
    | ok b => exact (hnext b).ok (h.ok ht hr) hc
  error ht hc := by
    rw [runFrom_bind] at hc
    obtain ⟨⟨r, t⟩, hr, hc⟩ := Option.bind_eq_some_iff.mp hc
    cases r with
    | error e => cases hc; exact h.error ht hr
    | ok b => exact (hnext b).error (h.ok ht hr) hc

theorem Bounded.get : Bounded limit width (MonadState.get : Tallied Tally) where
  ok ht h := by cases h; exact ht
  error ht h := by cases h

/-- A step is counted before anything is built, so that one beyond the limit builds nothing. -/
theorem bounded_step {count : Nat} (h : count ≤ width) :
    Bounded limit width (step (some limit) count) where
  ok {t b t'} ht hr := by
    rw [runFrom_step] at hr
    split at hr
    · cases hr
    · rename_i hl
      cases hr
      refine ⟨by simpa using hl, ?_⟩
      have := ht.built_le
      rw [Nat.mul_succ]
      dsimp only
      omega
  error {t e t'} ht hr := by
    rw [runFrom_step] at hr
    split at hr
    · cases hr
      exact Nat.le_trans ht.built_le (Nat.mul_le_mul_left _ ht.used_le)
    · cases hr

theorem Bounded.foldlM {f : β → ι → Tallied β} {items : List ι}
    (h : ∀ b, ∀ i ∈ items, Bounded limit width (f b i)) (b : β) :
    Bounded limit width (items.foldlM f b) := by
  induction items generalizing b with
  | nil => exact .pure b
  | cons i items ih =>
    rw [List.foldlM_cons]
    exact (h b i List.mem_cons_self).bind fun b =>
      ih (fun b i hi => h b i (List.mem_cons_of_mem _ hi)) b

theorem bounded_steps {count : ι → Nat} {items : List ι} (h : ∀ i ∈ items, count i ≤ width)
    (f : β → ι → β) (b : β) : Bounded limit width (steps (some limit) count f items b) :=
  .foldlM (fun b i hi => (bounded_step (h i hi)).bind fun _ => .pure (f b i)) b

end Tallied

theorem Closure.bounded_stepTallied (g : Grammar α) (limit : Nat) {width : Nat}
    (hwidth : 1 ≤ width) (c : Closure α) :
    Tallied.Bounded limit width (c.stepTallied g (some limit)) := by
  unfold stepTallied
  split
  · exact .pure c
  · split
    · exact .pure _
    · exact Tallied.bounded_steps (fun _ _ => hwidth) _ _

theorem Closure.bounded_runTallied (g : Grammar α) {limit width : Nat} (hwidth : 1 ≤ width)
    (c : Closure α) : Tallied.Bounded limit width (c.runTallied g (some limit)) := by
  have key : ∀ (c : Closure α) (t : Tally) (r : Except Exhausted (Closure α) × Tally),
      c.runTallied? g (some limit) t = some r → t.Within limit width →
        (∀ d, r.1 = .ok d → r.2.Within limit width) ∧
          (∀ e, r.1 = .error e → r.2.built ≤ width * limit) := by
    apply runTallied?.partial_correctness
    intro run ih c t r hr ht
    split at hr
    · cases hr
      exact ⟨fun _ _ => ht, fun e he => (by cases he)⟩
    · obtain ⟨⟨s, t'⟩, hs, hr⟩ := Option.bind_eq_some_iff.mp hr
      have hstep := c.bounded_stepTallied g limit hwidth
      cases s with
      | ok next => exact ih next t' r hr (hstep.ok ht hs)
      | error e =>
        cases hr
        exact ⟨fun d hd => (by cases hd), fun _ _ => hstep.error ht hs⟩
  exact ⟨fun ht h => (key c _ _ h ht).1 _ rfl, fun ht h => (key c _ _ h ht).2 _ rfl⟩

namespace Grammar

/-- How many binary rules have the same two children at most, and at least one. -/
def fanout (g : Grammar α) : Nat :=
  max 1 (((g.rules.filterMap Rule.binaryChildren?).map fun pair =>
    (g.binaryRules pair.1 pair.2).length).foldr max 0)

theorem one_le_fanout (g : Grammar α) : 1 ≤ g.fanout :=
  Nat.le_max_left _ _

theorem length_binaryRules_le (g : Grammar α) (left right : String) :
    (g.binaryRules left right).length ≤ g.fanout := by
  cases hrules : g.binaryRules left right with
  | nil => exact Nat.zero_le _
  | cons rule rest =>
    have hmem : rule ∈ g.binaryRules left right := hrules ▸ List.mem_cons_self
    obtain ⟨hin, hbody⟩ := mem_binaryRules.mp hmem
    have hpair : (left, right) ∈ g.rules.filterMap Rule.binaryChildren? :=
      List.mem_filterMap.mpr ⟨rule, hin, Rule.binaryChildren?_eq_some_iff.mpr hbody⟩
    rw [← hrules]
    have hlength := List.mem_map_of_mem
      (f := fun pair : String × String => (g.binaryRules pair.1 pair.2).length) hpair
    exact Nat.le_trans (List.le_max_of_le hlength (Nat.le_refl _)) (Nat.le_max_right _ _)

end Grammar

namespace Chart

variable {g : Grammar α} {limit : Nat}

theorem length_le_fanout_of_mem_starters {tokens : Array String} {chart : Chart α}
    {first last : Nat} {made : List (Analysis α)}
    (h : made ∈ starters g tokens chart first last) : made.length ≤ g.fanout := by
  unfold starters at h
  split at h
  · cases htoken : tokens[first]? with
    | none => simp [htoken] at h
    | some token =>
      simp only [htoken, Option.map_some, Option.getD_some, ofToken, List.mem_map] at h
      obtain ⟨rule, -, rfl⟩ := h
      exact g.one_le_fanout
  · obtain ⟨split, -, h⟩ := List.mem_flatMap.mp h
    obtain ⟨a, -, h⟩ := List.mem_flatMap.mp h
    obtain ⟨b, -, rfl⟩ := List.mem_map.mp h
    rw [List.length_map]
    exact g.length_binaryRules_le _ _

theorem bounded_fillTallied (g : Grammar α) (limit : Nat) (tokens : Array String) (beam : Nat) :
    Tallied.Bounded limit g.fanout (fillTallied g tokens beam (some limit)) := by
  refine .foldlM (fun chart span _ => ?_) _
  refine (Tallied.bounded_steps (fun _ => length_le_fanout_of_mem_starters) _ _).bind fun cell => ?_
  refine Tallied.Bounded.get.bind fun t => ?_
  exact (Closure.bounded_runTallied g g.one_le_fanout _).bind fun _ => .pure _

end Chart

namespace Grammar

/-- The chart of a list of tokens, or why there is none, and the tally that it leaves. -/
def tallied (g : Grammar α) (tokens : List String) (options : ParseOptions) :
    Option (Except ParseError (Chart α) × Tally) :=
  if tokens.isEmpty then some (.error .emptyInput, {})
  else
    ((Chart.fillTallied g tokens.toArray options.beam options.limit).runFrom {}).map fun
      | (.ok chart, t) => (.ok chart, t)
      | (.error _, t) => (.error (.budgetExceeded (options.limit.getD UInt64.size)), t)

/-- Whether a chart within a limit is returned or the limit is exhausted, the analyses that have
been built for it are `fanout` times the limit at most. Where no two binary rules have the same
children, this is the limit. -/
theorem exists_tally_built_le (g : Grammar α) (tokens : List String) (options : ParseOptions)
    (limit : UInt64) :
    ∃ tally, g.tallied tokens { options with maxSteps := some limit } =
        some (g.chart tokens { options with maxSteps := some limit }, tally) ∧
      tally.built ≤ g.fanout * limit.toNat := by
  by_cases ht : tokens = []
  · exact ⟨{}, by simp [tallied, chart, chart?, ht], Nat.zero_le _⟩
  · have hfollows := Chart.follows_fill g limit.toNat tokens.toArray options.beam
    have hbounded := Chart.bounded_fillTallied g limit.toNat tokens.toArray options.beam
    have hzero : Tally.Within limit.toNat g.fanout {} := ⟨Nat.zero_le _, Nat.zero_le _⟩
    cases hfill : (Chart.fill g tokens.toArray options.beam (some limit.toNat)).run with
    | none => exact absurd hfill ((Chart.metered_fill g tokens.toArray options.beam).ends _)
    | some r =>
      cases r with
      | ok progress =>
        have hrun := hfollows.ok hfill
        have hwithin := hbounded.ok hzero hrun
        refine ⟨progress.view.2, ?_, Nat.le_trans hwithin.built_le
          (Nat.mul_le_mul_left _ hwithin.used_le)⟩
        rw [chart_of_fill ht hfill]
        simp [tallied, ht, ParseOptions.limit, hrun, Chart.Progress.view]
      | error e =>
        obtain ⟨tally, hrun⟩ := hfollows.error hfill
        have hchart : g.chart tokens { options with maxSteps := some limit } =
            .error (.budgetExceeded limit.toNat) := chart_of_exhausted ht rfl hfill
        refine ⟨tally, ?_, hbounded.error hzero hrun⟩
        rw [hchart]
        simp [tallied, ht, ParseOptions.limit, hrun]

/-- Three labels for the same pair. -/
def joiningRules : Ruleset ℚ :=
  [.lexical "A" "x" 1, .binary "S" "A" "A" 1, .binary "T" "A" "A" 1, .binary "U" "A" "A" 1]

/-- The grammar of two words that three labels stand for. -/
def joining : Grammar ℚ where
  start := "S"
  rules := joiningRules
  index := .ofRules joiningRules
  rules_ne_nil := List.cons_ne_nil _ _
  rules_valid := by decide +kernel
  index_eq := rfl

theorem unaryRules_joining (label : String) : joining.unaryRules label = [] := by
  rw [unaryRules_eq_filter]
  rfl

theorem fill_joining : ∃ progress,
    (Chart.fill joining #["x", "x"] 10 none).run = some (.ok progress) ∧ progress.used = 3 ∧
      progress.built = 5 := by
  have hword : joining.lexicalRules (Text.lowerCase "x") = [.lexical "A" "x" 1] := by
    rw [lexicalRules_eq_filter]
    decide +kernel
  have hspans : Chart.spans 2 = [(0, 0), (1, 1), (0, 1)] := by decide
  have htoken : ∀ chart : Chart ℚ, ∀ i < 2, Chart.starters joining #["x", "x"] chart i i =
      [[.lexical (.lexical "A" "x" 1) "x" i]] := by
    intro chart i hi
    have hx : #["x", "x"][i]? = some "x" := by
      obtain rfl | rfl : i = 0 ∨ i = 1 := by omega
      all_goals rfl
    simp [Chart.starters, Chart.ofToken, hx, hword]
  simp only [Chart.fill, List.size_toArray, List.length_cons, List.length_nil, hspans,
    List.foldlM_cons, List.foldlM_nil, Chart.fillSpan, exceeds_none, Bool.false_eq_true, if_false,
    Closure.run_of_no_unary unaryRules_joining, htoken _ 0 Nat.two_pos, htoken _ 1 Nat.one_lt_two]
  exact ⟨_, rfl, rfl, rfl⟩

/-- Two words take three steps, in which five analyses are built. -/
theorem exists_tally_beyond_limit :
    ∃ chart tally, joining.tallied ["x", "x"] { maxSteps := some 3 } = some (.ok chart, tally) ∧
      tally.used = 3 ∧ tally.built = 5 := by
  obtain ⟨progress, hfill, hused, hbuilt⟩ := fill_joining
  have hwithin := ((Chart.metered_fill joining #["x", "x"] 10).ok_iff (Nat.zero_le 3)).mpr
    ⟨hfill, hused.le⟩
  have hrun := (Chart.follows_fill joining 3 #["x", "x"] 10).ok hwithin
  refine ⟨progress.chart, progress.view.2, ?_, hused, hbuilt⟩
  change ((Chart.fillTallied joining #["x", "x"] 10 (some 3)).runFrom {}).map _ = _
  rw [hrun]
  rfl

end Grammar

end Constituency
