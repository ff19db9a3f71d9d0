import Mathlib.Data.List.Nodup

/-!
# Lists of items with keys

When no two items of a list have the same key, one of them is all that there is under its key
(`filter_eq_singleton_of_nodup`), and it is found among those that are left exactly when it is left itself
(`find?_filter_of_nodup`).
-/

namespace OrderKeeper

variable {α β : Type} [DecidableEq β] {key : α → β}

theorem filter_eq_singleton_of_nodup [DecidableEq α] {items : List α} (hkeys : (items.map key).Nodup) {a : α}
    (ha : a ∈ items) : items.filter (fun b => key b = key a) = [a] := by
  have honly : ∀ b ∈ items, decide (key b = key a) = decide (b = a) := by
    intro b hb
    rw [decide_eq_decide]
    exact ⟨fun h => List.inj_on_of_nodup_map hkeys hb ha h, fun h => by rw [h]⟩
  rw [List.filter_congr honly, List.filter_eq, List.count_eq_one_of_mem (hkeys.of_map _) ha]
  rfl

theorem find?_filter_of_nodup {items : List α} (hkeys : (items.map key).Nodup) (stays : α → Bool) (k : β) :
    (items.filter stays).find? (fun a => key a = k) = (items.find? fun a => key a = k).filter stays := by
  induction items with
  | nil => rfl
  | cons a rest ih =>
    obtain ⟨hnew, hrest⟩ := List.nodup_cons.1 hkeys
    by_cases hk : key a = k
    · have hnone : rest.find? (fun a => key a = k) = none := by
        rw [List.find?_eq_none]
        intro b hb hbk
        exact hnew (List.mem_map.2 ⟨b, hb, (of_decide_eq_true hbk).trans hk.symm⟩)
      by_cases hstays : stays a = true <;> simp [Option.filter, hk, hstays, ih hrest, hnone]
    · by_cases hstays : stays a = true <;> simp [hk, hstays, ih hrest]

end OrderKeeper
