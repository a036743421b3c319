import Mathlib.Tactic

/-!
# Greedy matchings

Askers each receive an item or nothing. If no item goes to two askers, and an asker goes
away with nothing only when every item has gone, then as many askers are served as there
are askers or items, whichever is less.
-/
namespace AgenticOctopus.Foundation

variable {κ ρ : Type*} [DecidableEq ρ]

theorem card_served {askers : Finset κ} {items : Finset ρ} {gets : κ → Option ρ}
    (offered : ∀ c ∈ askers, ∀ r, gets c = some r → r ∈ items)
    (once : ∀ c ∈ askers, ∀ d ∈ askers, ∀ r, gets c = some r → gets d = some r → c = d)
    (exhausted : ∀ c ∈ askers, gets c = none → ∀ r ∈ items, ∃ d ∈ askers, gets d = some r) :
    (askers.filter fun c => (gets c).isSome).card = min askers.card items.card := by
  let served := askers.filter fun c => (gets c).isSome
  have labels : (items.image some).card = items.card :=
    Finset.card_image_of_injective _ (Option.some_injective ρ)
  have at_most : served.card ≤ items.card := by
    rw [← labels]
    refine Finset.card_le_card_of_injOn gets (fun c hc => ?_) fun c hc d hd same => ?_
    · obtain ⟨asks, gotten⟩ := Finset.mem_filter.mp hc
      obtain ⟨r, hr⟩ := Option.isSome_iff_exists.mp gotten
      rw [hr]
      exact Finset.mem_image_of_mem some (offered c asks r hr)
    · obtain ⟨asks, gotten⟩ := Finset.mem_filter.mp hc
      obtain ⟨r, hr⟩ := Option.isSome_iff_exists.mp gotten
      exact once c asks d (Finset.mem_filter.mp hd).1 r hr (same ▸ hr)
  by_cases empty : ∃ c ∈ askers, gets c = none
  · obtain ⟨c, asks, nothing⟩ := empty
    have at_least : items.card ≤ served.card := by
      rw [← labels]
      refine (Finset.card_le_card fun x hx => ?_).trans (Finset.card_image_le (f := gets))
      obtain ⟨r, hr, rfl⟩ := Finset.mem_image.mp hx
      obtain ⟨d, asks', gotten⟩ := exhausted c asks nothing r hr
      refine Finset.mem_image.mpr ⟨d, Finset.mem_filter.mpr ⟨asks', ?_⟩, gotten⟩
      rw [gotten]
      rfl
    have few : served.card ≤ askers.card := Finset.card_filter_le _ _
    change served.card = _
    omega
  · push Not at empty
    have everyone : served = askers := by
      refine Finset.filter_true_of_mem fun c asks => ?_
      exact Option.isSome_iff_ne_none.mpr (empty c asks)
    change served.card = _
    rw [everyone] at at_most ⊢
    omega

end AgenticOctopus.Foundation
