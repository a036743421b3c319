import AgenticOctopus.Providers.OpenRouter

/-!
# What the cost guard leaves open

The guard looks at one name. What a posted payload names also depends on the fallback models
it came with and, for the virtual model, on the models that are preferred.
-/
namespace AgenticOctopus.Providers.OpenRouter
open Foundation

/-! ## What a payload names -/

def isFree : Json → Bool
  | .str model => model.endswith freeSuffix
  | _ => false

/-- The entries of the `models` array. -/
def fallbacks (json : Dict Text Json) : List Json :=
  match json.get? ↑"models" with
  | some (.arr models) => models
  | _ => []

/-- The models that OpenRouter may serve the request with. -/
def named (json : Dict Text Json) : List Json := (json.get? ↑"model").toList ++ fallbacks json

def NamesOnlyFree (json : Dict Text Json) : Prop :=
  named json ≠ [] ∧ ∀ model ∈ named json, isFree model = true

/-- Some part of the setting, between its commas, is a free model. -/
def HasFreePreference (settings : Settings) : Prop :=
  ∃ part ∈ settings.openrouterPreferredModels.split 44, part.strip.endswith freeSuffix = true

instance (settings : Settings) : Decidable (HasFreePreference settings) :=
  inferInstanceAs (Decidable (∃ part ∈ settings.openrouterPreferredModels.split 44,
    part.strip.endswith freeSuffix = true))

variable {settings : Settings}

theorem preferredFree_ne_nil : preferredFree settings ≠ [] ↔ HasFreePreference settings := by
  unfold preferredFree HasFreePreference
  simp [List.filter_eq_nil_iff]

theorem routerCandidates_free {model : Text} (h : model ∈ routerCandidates settings) :
    model.endswith freeSuffix = true := by
  have preferred : model ∈ preferredFree settings := List.mem_of_mem_take h
  exact (List.mem_filter.mp preferred).2

theorem enforceFree_ok {model : Text} (off : settings.openrouterAllowPaid = false)
    (h : enforceFree settings model = .ok ()) :
    model = autoModel ∨ model.endswith freeSuffix = true := by
  unfold enforceFree at h
  split_ifs at h with auto refused
  · exact .inl auto
  · right
    simpa [off] using refused

/-! ## What is posted -/

theorem get?_post {payload : Dict Text Json} (stream : Bool) {key : Text}
    (other : key ≠ ↑"stream") :
    (post settings stream payload).json.get? key =
      (routePayload settings payload).get? key := by
  cases stream with
  | false => rfl
  | true =>
    refine Dict.get?_update_of_none _ _ ?_
    simp [Dict.get?_cons, other.symm]

theorem named_post {payload : Dict Text Json} (stream : Bool) :
    named (post settings stream payload).json = named (routePayload settings payload) := by
  unfold named fallbacks
  rw [get?_post stream (by decide), get?_post stream (by decide)]

/-- The virtual model goes out as the free models that are preferred. -/
theorem named_routePayload_auto {payload : Dict Text Json}
    (h : payload.get? ↑"model" = some (.str autoModel)) :
    named (routePayload settings payload) = (routerCandidates settings).map .str := by
  have key : (Text.ofString "models") ≠ ↑"model" := by decide
  simp [routePayload, h, named, fallbacks, Dict.get?_set, Dict.get?_erase, key]

/-- Any other model goes out with the fallbacks that the payload came with. -/
theorem named_routePayload {payload : Dict Text Json} {model : Text}
    (h : payload.get? ↑"model" = some (.str model)) (plain : model ≠ autoModel) :
    named (routePayload settings payload) = .str model :: fallbacks payload := by
  simp [routePayload, h, named, plain]

theorem namesOnlyFree_auto {payload : Dict Text Json} (stream : Bool)
    (h : payload.get? ↑"model" = some (.str autoModel)) :
    NamesOnlyFree (post settings stream payload).json ↔
      HasFreePreference settings := by
  unfold NamesOnlyFree
  rw [named_post, named_routePayload_auto h, ← preferredFree_ne_nil]
  constructor
  · rintro ⟨some, -⟩ empty
    simp [routerCandidates, empty] at some
  · intro preferred
    constructor
    · simpa [routerCandidates, maxFallbackModels] using preferred
    · intro model mem
      obtain ⟨candidate, chosen, rfl⟩ := List.mem_map.mp mem
      exact routerCandidates_free chosen

theorem namesOnlyFree_plain {payload : Dict Text Json} {model : Text} (stream : Bool)
    (h : payload.get? ↑"model" = some (.str model)) (plain : model ≠ autoModel)
    (free : model.endswith freeSuffix = true) :
    NamesOnlyFree (post settings stream payload).json ↔
      ∀ fallback ∈ fallbacks payload, isFree fallback = true := by
  unfold NamesOnlyFree
  rw [named_post, named_routePayload h plain]
  simp [isFree, free]

end AgenticOctopus.Providers.OpenRouter
