import Std.Data.TreeMap.Lemmas

/-!
# Results that may be errors, and sorted maps

General lemmas that the rest builds on. A sequence of steps succeeds if every step does, and naming
an error differently changes no success; the values of a sorted map stand in the order of its
entries.
-/

namespace Except

variable {ε δ β γ : Type}

theorem bind_eq_ok_iff {x : Except ε β} {f : β → Except ε γ} {c : γ} :
    (x >>= f) = .ok c ↔ ∃ b, x = .ok b ∧ f b = .ok c := by
  cases x <;> simp [bind, Except.bind]

theorem mapError_eq_ok_iff {x : Except ε β} {f : ε → δ} {b : β} :
    x.mapError f = .ok b ↔ x = .ok b := by
  cases x with
  | error e => exact ⟨nofun, nofun⟩
  | ok a => constructor <;> (intro h; cases h; rfl)

end Except

namespace Std.TreeMap

variable {κ β : Type} {cmp : κ → κ → Ordering}

theorem values_eq_map_snd (map : TreeMap κ β cmp) : map.values = map.toList.map (·.2) := by
  change map.inner.inner.values = (DTreeMap.Internal.Impl.Const.toList map.inner.inner).map (·.2)
  rw [DTreeMap.Internal.Impl.values_eq_map_snd,
    DTreeMap.Internal.Impl.Const.toList_eq_toListModel_map, List.map_map]
  rfl

end Std.TreeMap
