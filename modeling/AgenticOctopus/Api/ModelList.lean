import AgenticOctopus.Api.OpenAICompat

/-!
# The models that are advertised

`GET /v1/models` lists the models of four families; `route_chat_model` tells the family of an
id from its first characters. An id of one family that looks like another's, or a default that
the cost guard refuses, is advertised and not accepted, and two tags that differ in `:` against
`-` have one id.
-/
namespace AgenticOctopus.Api.OpenAICompat
open Foundation Providers

/-! ## The catalogue of OpenRouter -/

/-- What a loop over the value goes through. -/
def elements : Json → Except Raised (List Json)
  | .arr items => return items
  | .obj fields => return fields.map fun p => .str p.1
  | .str s => return s.map fun c => .str [c]
  | _ => throw .typeError

/-- `m["id"]`, of which `endswith` is asked. -/
def modelId (m : Json) : Except Raised Text := do
  match ← item m ↑"id" with
  | .str id => return id
  | _ => throw .attributeError

def freeModels (body : Json) : Except Raised (List Text) := do
  let ids ← (← elements (← item body ↑"data")).mapM modelId
  return (ids.filter fun id => id.endswith OpenRouter.freeSuffix).insertionSort (· ≤ ·)

/-- The body of OpenRouter's list, or the exception on the way to it, that of a bad status
included. -/
abbrev Catalogue := Except Raised Json

/-- The free models of the catalogue, none if it cannot be had. -/
def Catalogue.free (catalogue : Catalogue) : List Text :=
  match catalogue >>= freeModels with
  | .ok models => models
  | .error _ => []

variable (settings : Settings) (upstream : Upstream) (catalogue : Catalogue)

def openRouterModels : List Text :=
  if catalogue.free = [] then [settings.openrouterDefaultModel] else catalogue.free

/-! ## The list -/

def installedTags : List Text := if Ollama.enabled settings then upstream.installedTags else []

def models : Except Raised (List Text) := do
  let _ ← getChatProvider settings.chatProvider
  let claude := if settings.anthropicKeySet then [Claude.claudeModel] else []
  return [OpenRouter.autoModel] ++ claude ++
    (installedTags settings upstream).map Ollama.virtualName ++ openRouterModels settings catalogue

def listModels : Except Raised Json := do
  let data := (← models settings upstream catalogue).map fun m =>
    .obj [(↑"id", .str m), (↑"object", .str ↑"model")]
  return .obj [(↑"object", .str ↑"list"), (↑"data", .arr data)]

/-! ## What is advertised is accepted -/

/-- The id leads to a provider. -/
def Accepted (id : Text) : Prop := ∃ routed, routeChatModel settings upstream id = .ok routed

structure RoutesToItself : Prop where
  accepted : ∀ ids, models settings upstream catalogue = .ok ids →
    ∀ id ∈ ids, Accepted settings upstream id
  resolved : ∀ tag ∈ installedTags settings upstream,
    Ollama.resolveLocal settings upstream (Ollama.virtualName tag) = .ok tag
  unshared : ∀ tag ∈ installedTags settings upstream, ∀ tag' ∈ installedTags settings upstream,
    Ollama.virtualName tag = Ollama.virtualName tag' → tag = tag'

/-- The id has the look of a model of Anthropic. -/
def ofClaude (id : Text) : Prop := id = Claude.claudeModel ∨ id.startswith ↑"claude-" = true

instance (id : Text) : Decidable (ofClaude id) := inferInstanceAs (Decidable (_ ∨ _))

section Accepted

variable {settings upstream} {id : Text}

theorem resolveLocal_ok {tag : Text} (ok : Ollama.resolveLocal settings upstream id = .ok tag) :
    tag ∈ installedTags settings upstream ∧ Ollama.virtualName tag = id := by
  unfold Ollama.resolveLocal at ok
  unfold installedTags
  split_ifs at ok with disabled none
  have enabled : Ollama.enabled settings = true := by simpa using disabled
  rw [if_pos enabled]
  split at ok
  case h_1 tag' found =>
    obtain rfl : tag' = tag := Except.ok.inj ok
    exact ⟨List.mem_of_find?_eq_some found, by simpa using List.find?_some found⟩
  case h_2 => cases ok

theorem resolveLocal_exists {tag : Text} (mem : tag ∈ installedTags settings upstream) :
    ∃ tag', Ollama.resolveLocal settings upstream (Ollama.virtualName tag) = .ok tag' := by
  unfold installedTags at mem
  split_ifs at mem with enabled
  · have some : upstream.installedTags.isEmpty = false :=
      List.isEmpty_eq_false_iff.mpr (List.ne_nil_of_mem mem)
    unfold Ollama.resolveLocal
    rw [if_neg (by simp [enabled]), if_neg (by simp [some])]
    split
    case h_1 tag' _ => exact ⟨tag', rfl⟩
    case h_2 absent => exact absurd (List.find?_eq_none.mp absent tag mem) (by simp)
  · cases mem

theorem accepted_local (marked : id.startswith Ollama.localPrefix = true) :
    Accepted settings upstream id ↔
      ∃ tag ∈ installedTags settings upstream, Ollama.virtualName tag = id := by
  have routed : Accepted settings upstream id ↔
      ∃ tag, Ollama.resolveLocal settings upstream id = .ok tag := by
    unfold Accepted routeChatModel
    rw [if_pos marked]
    cases Ollama.resolveLocal settings upstream id with
    | error e => simp [bind, Except.bind]
    | ok tag => simp [bind, Except.bind, pure, Except.pure]
  rw [routed]
  constructor
  · rintro ⟨tag, ok⟩
    exact ⟨tag, resolveLocal_ok ok⟩
  · rintro ⟨tag, mem, rfl⟩
    exact resolveLocal_exists mem

theorem accepted_claude (unmarked : id.startswith Ollama.localPrefix = false)
    (claude : ofClaude id) :
    Accepted settings upstream id ↔ settings.anthropicKeySet = true := by
  unfold ofClaude at claude
  unfold Accepted routeChatModel
  rw [if_neg (by simp [unmarked]), if_pos claude]
  cases settings.anthropicKeySet <;>
    simp [throw, throwThe, MonadExceptOf.throw, pure, Except.pure]

theorem accepted_guarded (unmarked : id.startswith Ollama.localPrefix = false)
    (other : ¬ ofClaude id) (openrouter : settings.chatProvider = ↑"openrouter") :
    Accepted settings upstream id ↔
      OpenRouter.resolveModel settings id = OpenRouter.autoModel ∨
        (OpenRouter.resolveModel settings id).endswith OpenRouter.freeSuffix = true ∨
        settings.openrouterAllowPaid = true := by
  unfold ofClaude at other
  unfold Accepted routeChatModel
  rw [if_neg (by simp [unmarked]), if_neg other]
  simp only [getChatProvider, openrouter, if_true, OpenRouter.enforceFree, pure, Except.pure, bind,
    Except.bind]
  split_ifs with auto paid
  · simp [auto]
  · simp only [Bool.and_eq_true, Bool.not_eq_true'] at paid
    simp [auto, paid]
  · simp only [Bool.and_eq_true, Bool.not_eq_true', not_and, Bool.not_eq_false] at paid
    cases free : (OpenRouter.resolveModel settings id).endswith OpenRouter.freeSuffix with
    | true => simp
    | false => simp [paid free]

end Accepted

theorem colon_not_mem_virtualName (tag : Text) : 58 ∉ Ollama.virtualName tag := by
  simp only [Ollama.virtualName, List.mem_append, List.mem_map, not_or]
  refine ⟨by decide, ?_⟩
  rintro ⟨c, _, dashed⟩
  split_ifs at dashed with colon
  · cases dashed
  · exact colon dashed

theorem colon_mem_of_free {id : Text} (free : id.endswith OpenRouter.freeSuffix = true) :
    58 ∈ id :=
  (List.isSuffixOf_iff_suffix.mp free).subset (by decide)

theorem mem_free {id : Text} (mem : id ∈ catalogue.free) :
    id.endswith OpenRouter.freeSuffix = true := by
  unfold Catalogue.free at mem
  split at mem
  case h_1 models ok =>
    obtain ⟨body, rfl⟩ : ∃ body, catalogue = .ok body := by
      cases catalogue with
      | ok body => exact ⟨body, rfl⟩
      | error e => cases ok
    change freeModels body = _ at ok
    unfold freeModels at ok
    simp only [bind, Except.bind] at ok
    repeat' split at ok
    all_goals cases ok
    exact (List.mem_filter.mp ((List.mem_insertionSort _).mp mem)).2
  case h_2 => cases mem

/-- A free model of the catalogue is named like no local model, and like one of Anthropic only
if the key is set. -/
def FreeModelsRoute : Prop :=
  ∀ id ∈ catalogue.free, id.startswith Ollama.localPrefix = false ∧
    (id.startswith ↑"claude-" = true → settings.anthropicKeySet = true)

/-- The default is the name of an installed tag, a model of Anthropic with the key set, or one that
the cost guard lets pass. -/
def DefaultRoutes : Prop :=
  let id := settings.openrouterDefaultModel
  if id.startswith Ollama.localPrefix = true then
    ∃ tag ∈ installedTags settings upstream, Ollama.virtualName tag = id
  else if ofClaude id then settings.anthropicKeySet = true
  else id = OpenRouter.autoModel ∨ id.endswith OpenRouter.freeSuffix = true ∨
    settings.openrouterAllowPaid = true

theorem accepted_free (openrouter : settings.chatProvider = ↑"openrouter") {id : Text}
    (free : id.endswith OpenRouter.freeSuffix = true) :
    Accepted settings upstream id ↔ id.startswith Ollama.localPrefix = false ∧
      (id.startswith ↑"claude-" = true → settings.anthropicKeySet = true) := by
  have colon := colon_mem_of_free free
  cases marked : id.startswith Ollama.localPrefix with
  | true =>
    rw [accepted_local marked]
    simp only [Bool.true_eq_false, false_and, iff_false]
    rintro ⟨tag, _, rfl⟩
    exact colon_not_mem_virtualName tag colon
  | false =>
    have unclaimed : id ≠ Claude.claudeModel := by
      rintro rfl
      exact absurd colon (by decide)
    by_cases claude : id.startswith ↑"claude-" = true
    · rw [accepted_claude marked (.inr claude)]
      simp [claude]
    · rw [accepted_guarded marked (by simp [ofClaude, unclaimed, claude]) openrouter]
      have given : OpenRouter.resolveModel settings id = id := by
        refine if_neg ?_
        rintro rfl
        exact absurd colon (by decide)
      simp [given, free, claude]

theorem accepted_default (openrouter : settings.chatProvider = ↑"openrouter") :
    Accepted settings upstream settings.openrouterDefaultModel ↔
      DefaultRoutes settings upstream := by
  unfold DefaultRoutes
  dsimp only
  split_ifs with marked claude
  · exact accepted_local marked
  · exact accepted_claude (by simpa using marked) claude
  · rw [accepted_guarded (by simpa using marked) claude openrouter]
    have given : OpenRouter.resolveModel settings settings.openrouterDefaultModel =
        settings.openrouterDefaultModel := ite_self _
    rw [given]

/-- The tags that are installed stay apart when `:` becomes `-`. -/
def TagsApart : Prop :=
  Set.InjOn Ollama.virtualName { tag | tag ∈ installedTags settings upstream }

theorem models_openrouter {ids : List Text} (ok : models settings upstream catalogue = .ok ids) :
    settings.chatProvider = ↑"openrouter" ∧
      ∀ id, id ∈ ids ↔ id = OpenRouter.autoModel ∨
        (settings.anthropicKeySet = true ∧ id = Claude.claudeModel) ∨
        (∃ tag ∈ installedTags settings upstream, Ollama.virtualName tag = id) ∨
        id ∈ openRouterModels settings catalogue := by
  unfold models getChatProvider at ok
  by_cases openrouter : settings.chatProvider = ↑"openrouter"
  · refine ⟨openrouter, fun id => ?_⟩
    rw [if_pos openrouter] at ok
    rw [← Except.ok.inj ok]
    cases settings.anthropicKeySet <;> simp
  · rw [if_neg openrouter] at ok
    cases ok

theorem models_ok (openrouter : settings.chatProvider = ↑"openrouter") :
    ∃ ids, models settings upstream catalogue = .ok ids := by
  unfold models getChatProvider
  rw [if_pos openrouter]
  exact ⟨_, rfl⟩

theorem resolved_iff_tagsApart :
    (∀ tag ∈ installedTags settings upstream,
        Ollama.resolveLocal settings upstream (Ollama.virtualName tag) = .ok tag) ↔
      TagsApart settings upstream := by
  constructor
  · intro resolved tag mem tag' mem' same
    have both := resolved tag mem
    rw [same, resolved tag' mem'] at both
    exact (Except.ok.inj both).symm
  · intro apart tag mem
    obtain ⟨tag', ok⟩ := resolveLocal_exists mem
    obtain ⟨mem', same⟩ := resolveLocal_ok ok
    rw [ok, apart mem' mem same]

/-- Exactly with these settings, tags and catalogues every advertised id is accepted, and every tag
has an id of its own that leads back to it. -/
theorem routesToItself_iff :
    RoutesToItself settings upstream catalogue ↔
      TagsApart settings upstream ∧ (settings.chatProvider = ↑"openrouter" →
        FreeModelsRoute settings catalogue ∧
          (catalogue.free = [] → DefaultRoutes settings upstream)) := by
  constructor
  · intro routes
    refine ⟨(resolved_iff_tagsApart settings upstream).mp routes.resolved, fun openrouter => ?_⟩
    obtain ⟨ids, listed⟩ := models_ok settings upstream catalogue openrouter
    have mem := (models_openrouter settings upstream catalogue listed).2
    constructor
    · intro id free
      have some : catalogue.free ≠ [] := List.ne_nil_of_mem free
      refine (accepted_free settings upstream openrouter (mem_free catalogue free)).mp ?_
      refine routes.accepted ids listed id ((mem id).mpr (.inr (.inr (.inr ?_))))
      rwa [openRouterModels, if_neg some]
    · intro none
      refine (accepted_default settings upstream openrouter).mp ?_
      refine routes.accepted ids listed _ ((mem _).mpr (.inr (.inr (.inr ?_))))
      rw [openRouterModels, if_pos none]
      exact List.mem_singleton_self _
  · rintro ⟨apart, offered⟩
    refine ⟨?_, (resolved_iff_tagsApart settings upstream).mpr apart,
      fun tag mem tag' mem' same => apart mem mem' same⟩
    intro ids listed id advertised
    obtain ⟨openrouter, mem⟩ := models_openrouter settings upstream catalogue listed
    obtain ⟨free, default⟩ := offered openrouter
    obtain rfl | ⟨key, rfl⟩ | ⟨tag, installed, rfl⟩ | other := (mem id).mp advertised
    · have given : OpenRouter.resolveModel settings OpenRouter.autoModel = OpenRouter.autoModel :=
        if_neg (by decide)
      exact (accepted_guarded (by decide) (by decide) openrouter).mpr (.inl given)
    · exact (accepted_claude (by decide) (.inl rfl)).mpr key
    · refine (accepted_local ?_).mpr ⟨tag, installed, rfl⟩
      exact Text.startswith_iff.mpr (List.prefix_append _ _)
    · unfold openRouterModels at other
      split_ifs at other with none
      · obtain rfl := List.mem_singleton.mp other
        exact (accepted_default settings upstream openrouter).mpr (default none)
      · exact (accepted_free settings upstream openrouter (mem_free catalogue other)).mpr
          (free id other)

/-- A host with two tags whose colon and dash have changed places. -/
def twins : Upstream where
  py := ⟨fun _ _ _ => [], fun _ => [], 0⟩
  installedTags := [↑"qwen3-4b:x", ↑"qwen3:4b-x"]
  respond _ := .error .httpError
  openStream _ := .error .httpError

theorem twins_share :
    ¬ RoutesToItself { ollamaBaseUrl := ↑"http://ollama:11434" } twins (.error .httpError) := by
  intro routes
  have resolved := routes.resolved ↑"qwen3:4b-x" (by decide)
  exact absurd resolved (by decide)

end AgenticOctopus.Api.OpenAICompat
