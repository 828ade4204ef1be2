import Mathlib.Data.List.FinRange
import Mathlib.Algebra.BigOperators.Finprod
import Mathlib.Algebra.BigOperators.Fin
import Constituency.Proofs.NormalForm.UnaryChains
import Constituency.Proofs.Ruleset.Merging

/-!
# Routes

A route is a chain of unary rules with the rule at its end. The rules are named by their places, so
that rules listed twice make different routes. The search for the ends of chains goes along the
routes that visit no label twice, along all of them and along each of them once (`mem_routes`,
`nodup_routes`). So the weight of a rule that is left is the sum of the weights of these routes,
which are products of the weights of rules.
-/
namespace Constituency

/-- Unary rules one after the other and the rule at the end, each by its place. -/
structure Route {α : Type} (rules : Ruleset α) where
  via : List (Fin rules.length)
  last : Fin rules.length
deriving DecidableEq

namespace Route

variable {α : Type} {rules : Ruleset α} {route : Route rules} {label : String}

/-- The route with one more rule at its beginning. -/
def prepend (place : Fin rules.length) (route : Route rules) : Route rules :=
  { route with via := place :: route.via }

/-- The heads of the rules. -/
def labels (route : Route rules) : List String :=
  route.via.map (fun place => (rules.get place).head) ++ [(rules.get route.last).head]

/-- The body at the end. -/
def body (route : Route rules) : List Symbol :=
  (rules.get route.last).body

/-- The place of the first rule. -/
def first (route : Route rules) : Fin rules.length :=
  route.via.headD route.last

/-- Whether a route leads from a label, the child of each rule being the head of the next one, to a
rule that is not unary. -/
inductive LeadsFrom : String → Route rules → Prop
  | last {place : Fin rules.length} (hlast : (rules.get place).unaryChild? = none) :
      LeadsFrom (rules.get place).head ⟨[], place⟩
  | prepend {place : Fin rules.length} {child : String} {route : Route rules}
      (hchild : (rules.get place).unaryChild? = some child) (hroute : LeadsFrom child route) :
      LeadsFrom (rules.get place).head (route.prepend place)

theorem prepend_injective (place : Fin rules.length) :
    Function.Injective (prepend place : Route rules → Route rules) := by
  rintro ⟨via, last⟩ ⟨via', last'⟩ h
  simpa [prepend] using h

@[simp] theorem labels_prepend (place : Fin rules.length) (route : Route rules) :
    (route.prepend place).labels = (rules.get place).head :: route.labels := rfl

@[simp] theorem body_prepend (place : Fin rules.length) (route : Route rules) :
    (route.prepend place).body = route.body := rfl

@[simp] theorem first_prepend (place : Fin rules.length) (route : Route rules) :
    (route.prepend place).first = place := rfl

/-- A route visits the label that it leads from. -/
theorem LeadsFrom.mem_labels (h : route.LeadsFrom label) : label ∈ route.labels := by
  cases h with
  | last => exact List.mem_singleton.mpr rfl
  | prepend => exact List.mem_cons_self

theorem LeadsFrom.head_first (h : route.LeadsFrom label) :
    (rules.get route.first).head = label := by
  cases h <;> rfl

end Route

namespace Ruleset

/-! ### All routes that visit no label twice -/

section Search

variable {α : Type} {rules : Ruleset α} {available : List String} {label : String}
  {route : Route rules}

/-- The places of the rules that a chain can go on with at a label. -/
def placesAt (rules : Ruleset α) (label : String) : List (Fin rules.length) :=
  (List.finRange rules.length).filter fun place =>
    (!isLoop (rules.get place)) && (rules.get place).head = label

theorem map_placesAt (rules : Ruleset α) (label : String) :
    (rules.placesAt label).map rules.get = rules.goingOn label := by
  have hrules : rules.goingOn label =
      ((List.finRange rules.length).map rules.get).filter fun rule =>
        (!isLoop rule) && rule.head = label := by
    rw [List.map_get_finRange, goingOn, nonLoops, List.filter_filter]
    exact List.filter_congr fun rule _ => Bool.and_comm _ _
  rw [hrules, List.filter_map]
  rfl

/-- The routes that begin with a rule and go on with the routes from its child. -/
def routesBy (place : Fin rules.length) (routesFrom : String → List (Route rules)) :
    List (Route rules) :=
  match (rules.get place).unaryChild? with
  | some child => (routesFrom child).map (Route.prepend place)
  | none => [⟨[], place⟩]

/-- The routes that the search for the ends of chains goes along. -/
def routes (rules : Ruleset α) (available : List String) (label : String) : List (Route rules) :=
  if _h : label ∈ available then
    (rules.placesAt label).flatMap fun place =>
      routesBy place fun child => routes rules (leave label available) child
  else []
termination_by available.length
decreasing_by exact length_leave_lt (by assumption)

theorem mem_routesBy {place : Fin rules.length} {routesFrom : String → List (Route rules)} :
    route ∈ routesBy place routesFrom ↔
      ((rules.get place).unaryChild? = none ∧ route = ⟨[], place⟩) ∨
        ∃ child, (rules.get place).unaryChild? = some child ∧
          ∃ rest ∈ routesFrom child, rest.prepend place = route := by
  unfold routesBy
  cases (rules.get place).unaryChild? <;> simp

theorem first_of_mem_routesBy {place : Fin rules.length}
    {routesFrom : String → List (Route rules)} (h : route ∈ routesBy place routesFrom) :
    route.first = place := by
  rcases mem_routesBy.mp h with ⟨-, rfl⟩ | ⟨child, -, rest, -, rfl⟩ <;> rfl

theorem mem_placesAt {place : Fin rules.length} :
    place ∈ rules.placesAt label ↔
      (rules.get place).unaryChild? ≠ some (rules.get place).head ∧
        (rules.get place).head = label := by
  simp [placesAt, isLoop]

/-- A search goes along the rules at a label, and on without coming back to it. -/
theorem mem_routes_iff :
    route ∈ rules.routes available label ↔
      label ∈ available ∧ ∃ place ∈ rules.placesAt label,
        route ∈ routesBy place (rules.routes (leave label available)) := by
  rw [routes]
  by_cases hlabel : label ∈ available
  · simp only [hlabel, dif_pos, List.mem_flatMap, true_and]
  · simp [hlabel]

/-- All routes over available labels that visit no label twice are searched, and no others. -/
theorem mem_routes :
    route ∈ rules.routes available label ↔
      route.LeadsFrom label ∧ route.labels.Nodup ∧ ∀ other ∈ route.labels, other ∈ available := by
  induction available, label using routes.induct generalizing route with
  | case1 available label hmem ih =>
    rw [mem_routes_iff]
    constructor
    · rintro ⟨-, place, hplace, hroute⟩
      obtain ⟨-, rfl⟩ := mem_placesAt.mp hplace
      rcases mem_routesBy.mp hroute with ⟨hnone, rfl⟩ | ⟨child, hchild, rest, hrest, rfl⟩
      · exact ⟨.last hnone, List.nodup_singleton _, by simpa [Route.labels] using hmem⟩
      · obtain ⟨hleads, hnodup, havailable⟩ := (ih child).mp hrest
        refine ⟨.prepend hchild hleads, ?_, ?_⟩
        · rw [Route.labels_prepend, List.nodup_cons]
          exact ⟨fun h => (mem_leave.mp (havailable _ h)).2 rfl, hnodup⟩
        · rw [Route.labels_prepend, List.forall_mem_cons]
          exact ⟨hmem, fun other h => (mem_leave.mp (havailable other h)).1⟩
    · rintro ⟨hleads, hnodup, havailable⟩
      refine ⟨hmem, ?_⟩
      cases hleads with
      | @last place hlast =>
        have hplace : place ∈ rules.placesAt (rules.get place).head :=
          mem_placesAt.mpr ⟨by rw [hlast]; simp, rfl⟩
        exact ⟨place, hplace, mem_routesBy.mpr (.inl ⟨hlast, rfl⟩)⟩
      | @prepend place child rest hchild hrest =>
        rw [Route.labels_prepend, List.nodup_cons] at hnodup
        rw [Route.labels_prepend, List.forall_mem_cons] at havailable
        have hother : ∀ other ∈ rest.labels, other ≠ (rules.get place).head :=
          fun other h heq => hnodup.1 (heq ▸ h)
        have hplace : place ∈ rules.placesAt (rules.get place).head := by
          refine mem_placesAt.mpr ⟨?_, rfl⟩
          rw [hchild, ne_eq, Option.some.injEq]
          exact hother child hrest.mem_labels
        have hsearched : rest ∈ rules.routes (leave (rules.get place).head available) child :=
          (ih child).mpr ⟨hrest, hnodup.2, fun other h =>
            mem_leave.mpr ⟨havailable.2 other h, hother other h⟩⟩
        exact ⟨place, hplace, mem_routesBy.mpr (.inr ⟨child, hchild, rest, hsearched, rfl⟩)⟩
  | case2 available label hmem =>
    rw [mem_routes_iff]
    exact ⟨fun h => absurd h.1 hmem, fun h => absurd (h.2.2 label h.1.mem_labels) hmem⟩

/-- No route is searched twice. -/
theorem nodup_routes : (rules.routes available label).Nodup := by
  fun_induction routes rules available label with
  | case1 available label hmem ih =>
    rw [List.nodup_flatMap]
    constructor
    · intro place _
      unfold routesBy
      split
      · exact (ih _).map (Route.prepend_injective place)
      · exact List.nodup_singleton _
    · -- Routes that begin with different rules are different.
      refine (List.Pairwise.filter _ (List.nodup_finRange _)).imp fun hne route ha hb => ?_
      exact hne ((first_of_mem_routesBy ha).symm.trans (first_of_mem_routesBy hb))
  | case2 => exact List.nodup_nil

/-- Chains can visit all labels of a route that visits none of them twice. -/
theorem mem_chainLabels_of_mem_labels (h : route.LeadsFrom label) (hnodup : route.labels.Nodup) :
    ∀ other ∈ route.labels, other ∈ rules.chainLabels := by
  have hkey : ∀ place : Fin rules.length,
      (rules.get place).unaryChild? ≠ some (rules.get place).head →
        (rules.get place).head ∈ rules.chainLabels := by
    intro place hloop
    refine mem_keys_byHead.mpr ⟨rules.get place, List.mem_filter.mpr ⟨rules.get_mem place, ?_⟩, rfl⟩
    rw [isLoop, decide_eq_false hloop]
    rfl
  induction h with
  | @last place hlast =>
    refine fun other hother => List.mem_singleton.mp hother ▸ hkey place ?_
    rw [hlast]
    exact (Option.some_ne_none _).symm
  | @prepend place child rest hchild hrest ih =>
    rw [Route.labels_prepend, List.nodup_cons] at hnodup
    rw [Route.labels_prepend, List.forall_mem_cons]
    refine ⟨hkey place ?_, ih hnodup.2⟩
    rw [hchild, ne_eq, Option.some.injEq]
    rintro rfl
    exact hnodup.1 hrest.mem_labels

end Search

end Ruleset

/-! ### The rules that routes make -/

/-- The product of the weights of all rules. -/
def Route.weight {rules : Ruleset ℚ} (route : Route rules) : ℚ :=
  (route.via.map fun place => (rules.get place).weight).prod * (rules.get route.last).weight

@[simp] theorem Route.weight_prepend {rules : Ruleset ℚ} (place : Fin rules.length)
    (route : Route rules) :
    (route.prepend place).weight = (rules.get place).weight * route.weight := by
  simp [weight, prepend, mul_assoc]

/-- The rule that takes the place of a route. -/
def Route.made {rules : Ruleset ℚ} (route : Route rules) : Rule ℚ :=
  (rules.get route.first).derive (rules.get route.first).head route.body route.weight

namespace Ruleset

variable {rules : Ruleset ℚ} {available : List String} {label : String}

/-- The search finds the ends of the routes that it goes along. -/
theorem expansions_eq_map_routes (available : List String) (label : String) (weight : ℚ) :
    expansions rules.goingOn available label weight =
      (rules.routes available label).map fun route => (route.body, weight * route.weight) := by
  fun_induction expansions rules.goingOn available label weight with
  | case1 available label weight hmem ih =>
    rw [routes, dif_pos hmem, ← map_placesAt, List.flatMap_map, List.map_flatMap]
    refine List.flatMap_congr fun place _ => ?_
    rw [routesBy]
    cases (rules.get place).unaryChild? with
    | some child =>
      simp only
      rw [ih, List.map_map]
      refine List.map_congr_left fun route _ => ?_
      simp only [Function.comp_apply, Route.body_prepend, Route.weight_prepend, mul_assoc]
    | none => simp [Route.body, Route.weight]
  | case2 available label weight hmem =>
    rw [routes, dif_neg hmem]
    rfl

/-- The rules that take the place of the rules of a label, before they are merged, are those of the
routes from the label. -/
theorem flatMap_withoutUnary (label : String) :
    (rules.goingOn label).flatMap (withoutUnary rules.goingOn rules.chainLabels) =
      (rules.routes rules.chainLabels label).map Route.made := by
  by_cases hlabel : label ∈ rules.chainLabels
  · rw [routes, dif_pos hlabel, ← map_placesAt, List.flatMap_map, List.map_flatMap]
    refine List.flatMap_congr fun place hplace => ?_
    obtain ⟨-, rfl⟩ := mem_placesAt.mp hplace
    rw [withoutUnary, routesBy]
    cases (rules.get place).unaryChild? with
    | some child =>
      simp only
      rw [expansions_eq_map_routes, List.map_map, List.map_map]
      refine List.map_congr_left fun route _ => ?_
      simp only [Function.comp_apply, Route.made, Route.first_prepend, Route.body_prepend,
        Route.weight_prepend]
    | none => simp [Route.made, Route.first, Route.body, Route.weight, Rule.derive]
  · have hnone : rules.goingOn label = [] := by
      refine List.filter_eq_nil_iff.mpr fun rule hr hhead => hlabel ?_
      exact mem_keys_byHead.mpr ⟨rule, hr, of_decide_eq_true hhead⟩
    rw [routes, dif_neg hlabel, hnone]
    rfl

/-- Whatever takes the place of a rule has its head. -/
theorem head_of_mem_withoutUnary {rule made : Rule ℚ} {rulesOf : String → Ruleset ℚ}
    {labels : List String} (h : made ∈ withoutUnary rulesOf labels rule) :
    made.head = rule.head := by
  unfold withoutUnary at h
  split at h
  · obtain ⟨e, -, rfl⟩ := List.mem_map.mp h
    rfl
  · rw [List.mem_singleton.mp h]

/-- The rules that take the place of all rules, before they are merged. -/
def unmerged (rules : Ruleset ℚ) : Ruleset ℚ :=
  rules.nonLoops.flatMap (withoutUnary rules.goingOn rules.chainLabels)

/-- With a given head, these are the rules that routes make. -/
theorem filter_head_unmerged (rules : Ruleset ℚ) (label : String) :
    rules.unmerged.filter (·.head = label) =
      (rules.routes rules.chainLabels label).map Route.made := by
  rw [← flatMap_withoutUnary, unmerged, goingOn, List.filter_flatMap]
  induction rules.nonLoops with
  | nil => rfl
  | cons rule others ih =>
    rw [List.flatMap_cons, ih, List.filter_cons]
    by_cases hhead : rule.head = label
    · rw [if_pos (decide_eq_true hhead), List.flatMap_cons, List.filter_eq_self.mpr]
      exact fun made hm => decide_eq_true ((head_of_mem_withoutUnary hm).trans hhead)
    · rw [if_neg (by simpa using hhead), List.filter_eq_nil_iff.mpr, List.nil_append]
      exact fun made hm h => hhead ((head_of_mem_withoutUnary hm).symm.trans (of_decide_eq_true h))

variable {frame : Frame}

theorem mem_map_frame_unmerged :
    frame ∈ rules.unmerged.map Rule.frame ↔
      ∃ route ∈ rules.routes rules.chainLabels frame.1, route.made.frame = frame := by
  have hfilter : frame ∈ rules.unmerged.map Rule.frame ↔
      frame ∈ (rules.unmerged.filter (·.head = frame.1)).map Rule.frame := by
    simp only [List.mem_map, List.mem_filter, decide_eq_true_eq]
    constructor
    · rintro ⟨made, hm, rfl⟩
      exact ⟨made, ⟨hm, rfl⟩, rfl⟩
    · rintro ⟨made, ⟨hm, -⟩, hframe⟩
      exact ⟨made, hm, hframe⟩
  rw [hfilter, filter_head_unmerged, List.map_map, List.mem_map]
  rfl

theorem weightAt_unmerged (rules : Ruleset ℚ) (frame : Frame) :
    rules.unmerged.weightAt frame =
      (((rules.routes rules.chainLabels frame.1).filter (·.made.frame = frame)).map
        Route.weight).sum := by
  have hfilter : rules.unmerged.weightAt frame =
      weightAt (rules.unmerged.filter (·.head = frame.1)) frame := by
    rw [weightAt, weightAt, List.filter_filter]
    refine congrArg (fun rules : Ruleset ℚ => (rules.map (·.weight)).sum)
      (List.filter_congr fun made _ => ?_)
    by_cases hframe : made.frame = frame
    · simp [← hframe, Rule.frame]
    · simp [hframe]
  rw [hfilter, filter_head_unmerged, weightAt, List.filter_map, List.map_map]
  rfl

/-! ### Sums over routes -/

/-- The routes that make rules with a frame. -/
def routesTo (rules : Ruleset ℚ) (frame : Frame) : Finset (Route rules) :=
  ((rules.routes rules.chainLabels frame.1).filter (·.made.frame = frame)).toFinset

theorem nonempty_routesTo_iff :
    (rules.routesTo frame).Nonempty ↔ frame ∈ rules.unmerged.map Rule.frame := by
  rw [mem_map_frame_unmerged]
  simp [routesTo, Finset.Nonempty]

theorem sum_routesTo (rules : Ruleset ℚ) (frame : Frame) :
    ∑ route ∈ rules.routesTo frame, route.weight = rules.unmerged.weightAt frame := by
  rw [weightAt_unmerged, routesTo, List.sum_toFinset _ (nodup_routes.filter _)]

theorem frame_made {route : Route rules} (h : route.LeadsFrom label) :
    route.made.frame = (label, route.body, (rules.get route.first).language) := by
  rw [← h.head_first]
  rfl

theorem mem_routesTo {route : Route rules} :
    route ∈ rules.routesTo frame ↔
      route.LeadsFrom frame.1 ∧ route.labels.Nodup ∧ route.body = frame.2.1 ∧
        (rules.get route.first).language = frame.2.2 := by
  obtain ⟨head, body, language⟩ := frame
  rw [routesTo, List.mem_toFinset, List.mem_filter, mem_routes, decide_eq_true_eq]
  constructor
  · rintro ⟨⟨hleads, hnodup, -⟩, hframe⟩
    rw [frame_made hleads] at hframe
    cases hframe
    exact ⟨hleads, hnodup, rfl, rfl⟩
  · rintro ⟨hleads, hnodup, rfl, rfl⟩
    exact ⟨⟨hleads, hnodup, mem_chainLabels_of_mem_labels hleads hnodup⟩, frame_made hleads⟩

theorem weightAt_eq_sum (rules : Ruleset ℚ) (frame : Frame) :
    rules.weightAt frame =
      ∑ place : Fin rules.length with (rules.get place).frame = frame,
        (rules.get place).weight := by
  rw [Finset.sum_filter]
  have hsum : rules.weightAt frame =
      (rules.map fun rule => if rule.frame = frame then rule.weight else 0).sum := by
    induction rules with
    | nil => rfl
    | cons rule rules ih => rw [weightAt_cons, ih, List.map_cons, List.sum_cons]
  rw [hsum, ← Fin.sum_univ_fun_getElem]
  rfl

/-- A route without unary rules is a rule that is not unary. -/
theorem leadsFrom_direct_iff {place : Fin rules.length} :
    Route.LeadsFrom label (⟨[], place⟩ : Route rules) ↔
      (rules.get place).unaryChild? = none ∧ (rules.get place).head = label := by
  constructor
  · intro h
    generalize hroute : (⟨[], place⟩ : Route rules) = route at h
    cases h with
    | last hlast =>
      cases hroute
      exact ⟨hlast, rfl⟩
    | prepend => cases hroute
  · rintro ⟨hnone, rfl⟩
    exact .last hnone

/-- Routes without unary rules are the rules that are there already. -/
theorem direct_mem_routesTo_iff (hbody : ∀ child, frame.2.1 ≠ [.nonterminal child])
    {place : Fin rules.length} :
    (⟨[], place⟩ : Route rules) ∈ rules.routesTo frame ↔ (rules.get place).frame = frame := by
  rw [mem_routesTo, leadsFrom_direct_iff]
  constructor
  · rintro ⟨⟨-, hhead⟩, -, hends, hlanguage⟩
    exact Prod.ext hhead (Prod.ext hends hlanguage)
  · rintro rfl
    exact ⟨⟨Rule.unaryChild?_eq_none_iff.mpr hbody, rfl⟩, List.nodup_singleton _, rfl, rfl⟩

theorem sum_direct (hbody : ∀ child, frame.2.1 ≠ [.nonterminal child]) :
    ∑ route ∈ rules.routesTo frame with route.via = [], route.weight = rules.weightAt frame := by
  rw [weightAt_eq_sum]
  refine Finset.sum_nbij' Route.last (Route.mk []) ?_ ?_ ?_ (fun _ _ => rfl) ?_
  · rintro ⟨via, last⟩ hroute
    obtain ⟨hmem, rfl⟩ := Finset.mem_filter.mp hroute
    exact Finset.mem_filter.mpr ⟨Finset.mem_univ _, (direct_mem_routesTo_iff hbody).mp hmem⟩
  · intro place hplace
    obtain ⟨-, hframe⟩ := Finset.mem_filter.mp hplace
    exact Finset.mem_filter.mpr ⟨(direct_mem_routesTo_iff hbody).mpr hframe, rfl⟩
  · rintro ⟨via, last⟩ hroute
    obtain ⟨-, rfl⟩ := Finset.mem_filter.mp hroute
    rfl
  · rintro ⟨via, last⟩ hroute
    obtain ⟨-, rfl⟩ := Finset.mem_filter.mp hroute
    simp [Route.weight]

/-- The routes with a unary rule that lead from a label to a body, begin with a rule of a language
and visit no label twice. -/
def simpleRoutes {α : Type} (rules : Ruleset α) (head : String) (body : List Symbol)
    (language : Option String) : Set (Route rules) :=
  {route | route.LeadsFrom head ∧ route.labels.Nodup ∧ route.via ≠ [] ∧ route.body = body ∧
    (rules.get route.first).language = language}

theorem coe_routesTo (rules : Ruleset ℚ) (head : String) (body : List Symbol)
    (language : Option String) :
    ({route ∈ rules.routesTo (head, body, language) | route.via ≠ []} : Finset (Route rules)) =
      rules.simpleRoutes head body language := by
  ext route
  rw [Finset.mem_coe, Finset.mem_filter, mem_routesTo]
  constructor
  · rintro ⟨⟨hleads, hnodup, hbody, hlanguage⟩, hvia⟩
    exact ⟨hleads, hnodup, hvia, hbody, hlanguage⟩
  · rintro ⟨hleads, hnodup, hvia, hbody, hlanguage⟩
    exact ⟨⟨hleads, hnodup, hbody, hlanguage⟩, hvia⟩

theorem finite_simpleRoutes (rules : Ruleset ℚ) (head : String) (body : List Symbol)
    (language : Option String) : (rules.simpleRoutes head body language).Finite := by
  rw [← coe_routesTo]
  exact Finset.finite_toSet _

section Elimination

variable {head : String} {body : List Symbol} {language : Option String}
  (hbody : ∀ child, body ≠ [.nonterminal child])
include hbody

/-- Routes that make rules with a frame are rules with it or go along a unary rule. -/
theorem nonempty_routesTo_iff_or :
    (rules.routesTo (head, body, language)).Nonempty ↔
      (∃ rule ∈ rules, rule.frame = (head, body, language)) ∨
        (rules.simpleRoutes head body language).Nonempty := by
  rw [← coe_routesTo, Finset.coe_nonempty]
  constructor
  · rintro ⟨⟨via, last⟩, hroute⟩
    by_cases hvia : via = []
    · subst hvia
      exact .inl ⟨_, rules.get_mem last, (direct_mem_routesTo_iff hbody).mp hroute⟩
    · exact .inr ⟨⟨via, last⟩, Finset.mem_filter.mpr ⟨hroute, hvia⟩⟩
  · rintro (⟨rule, hr, hframe⟩ | ⟨route, hroute⟩)
    · obtain ⟨place, rfl⟩ := List.get_of_mem hr
      exact ⟨_, (direct_mem_routesTo_iff hbody).mpr hframe⟩
    · exact ⟨route, (Finset.mem_filter.mp hroute).1⟩

theorem sum_routesTo_eq_add :
    ∑ route ∈ rules.routesTo (head, body, language), route.weight =
      rules.weightAt (head, body, language) +
        ∑ᶠ route ∈ rules.simpleRoutes head body language, route.weight := by
  rw [← sum_direct hbody, ← coe_routesTo, finsum_mem_coe_finset,
    Finset.sum_filter_add_sum_filter_not]

end Elimination

/-- Eliminating unary rules leaves no unary rule and no two rules with the same frame. There is a
rule with a frame that is not unary exactly if there was one before or a simple route makes one; its
weight is the sum of the weights of the rules that were there and of all these routes, of which
there are finitely many. -/
theorem eliminateUnary_eq_sum_simpleRoutes (rules : Ruleset ℚ) :
    (∀ rule ∈ rules.eliminateUnary, rule.unaryChild? = none) ∧
    (rules.eliminateUnary.map Rule.frame).Nodup ∧
    ∀ head body language, (∀ child, body ≠ [.nonterminal child]) →
      (rules.simpleRoutes head body language).Finite ∧
      ((∃ rule ∈ rules.eliminateUnary, rule.frame = (head, body, language)) ↔
        (∃ rule ∈ rules, rule.frame = (head, body, language)) ∨
          (rules.simpleRoutes head body language).Nonempty) ∧
      ∀ rule ∈ rules.eliminateUnary, rule.frame = (head, body, language) →
        rule.weight = rules.weightAt (head, body, language) +
          ∑ᶠ route ∈ rules.simpleRoutes head body language, route.weight := by
  have hmerged : rules.eliminateUnary = rules.unmerged.merge := eliminateUnary_eq rules
  have hframes : (rules.eliminateUnary.map Rule.frame).Nodup :=
    hmerged ▸ nodup_map_frame_merge rules.unmerged
  refine ⟨fun rule hr => ?_, hframes, fun head body language hbody =>
    ⟨finite_simpleRoutes rules head body language, ?_, fun rule hr hframe => ?_⟩⟩
  · obtain ⟨_, -, -, hends⟩ := has_eliminateUnary_iff.mp ⟨rule, hr, rfl, rfl⟩
    exact Rule.unaryChild?_eq_none_iff.mpr hends
  · rw [← nonempty_routesTo_iff_or hbody, nonempty_routesTo_iff, ← mem_map_frame_merge, ← hmerged,
      List.mem_map]
  · calc rule.weight = rules.eliminateUnary.weightAt (head, body, language) := by
          rw [← hframe, weightAt_eq_weight hframes hr]
      _ = ∑ route ∈ rules.routesTo (head, body, language), route.weight := by
          rw [hmerged, weightAt_merge, sum_routesTo]
      _ = _ := sum_routesTo_eq_add hbody

/-- A cycle of two labels, one of its rules being listed twice, with a word for each label. -/
def detourRules : Ruleset ℚ :=
  [.unary "A" "B" (1 / 2), .unary "A" "B" (1 / 4), .unary "B" "A" (1 / 2), .lexical "A" "x" (1 / 4),
    .lexical "B" "x" (1 / 2)]

/-- Three routes lead from the first label to the word, two of them by way of the other label. -/
theorem eliminateUnary_eq_sum_simpleRoutes_detour :
    ∃ rule ∈ detourRules.eliminateUnary, rule = .lexical "A" "x" (5 / 8) ∧
      rule.weight = detourRules.weightAt ("A", [.terminal "x"], none) +
        ∑ᶠ route ∈ detourRules.simpleRoutes "A" [.terminal "x"] none, route.weight := by
  have hmem : .lexical "A" "x" (5 / 8) ∈ detourRules.eliminateUnary := by decide +kernel
  obtain ⟨-, -, hsums⟩ := eliminateUnary_eq_sum_simpleRoutes detourRules
  obtain ⟨-, -, hweight⟩ := hsums "A" [.terminal "x"] none (by simp)
  exact ⟨_, hmem, rfl, hweight _ hmem rfl⟩

end Ruleset

end Constituency
