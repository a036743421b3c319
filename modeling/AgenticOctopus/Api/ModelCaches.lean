import AgenticOctopus.Api.ModelList
import AgenticOctopus.Chat.Sse
import AgenticOctopus.Foundation.TtlCache

/-!
# The lists of models that a process keeps

OpenRouter's catalogue is fetched again after an hour, Ollama's tags after a minute. Requests
that find the list too old ask at the same time, each for itself; a failure of OpenRouter is
kept as the default model, a failure of Ollama is not kept.
-/
namespace AgenticOctopus.Api.OpenAICompat
open Foundation Providers TtlCache

/-- `time.monotonic()`, in seconds. -/
abbrev Monotonic := Rat

/-! ## OpenRouter -/

def modelsCacheTtl : Monotonic := 3600

/-- `_models_cache`, as `OpenRouterProvider.list_models` reads and writes it. -/
def modelsCache (settings : Settings) : TtlCache Monotonic Catalogue (List Text) where
  lifetime := modelsCacheTtl
  usable models := !models.isEmpty
  keep catalogue := some (openRouterModels settings catalogue)
  give := openRouterModels settings

/-! ## Ollama -/

def tagsCacheTtl : Monotonic := 60

/-- `sorted`, which puts texts in order; of other values it may raise. -/
structure Sorting where
  sorted : List Json → Except Raised (List Json)
  texts : ∀ names : List Text,
    sorted (names.map .str) = .ok ((names.insertionSort (· ≤ ·)).map .str)

/-- The names in the body of `/api/tags`. -/
def tagNames (body : Json) : Except Raised (List Json) := do
  (← elements (← Chat.getOr body ↑"models" (.arr []))).mapM fun m => item m ↑"name"

/-- The tags of an answer, none if Ollama cannot be reached or its answer cannot be read. -/
def installed (sorting : Sorting) (answer : Except Raised Json) : Option (List Json) :=
  (answer >>= tagNames >>= sorting.sorted).toOption

/-- `_tags_cache`, as `installed_tags` reads and writes it. -/
def tagsCache (sorting : Sorting) : TtlCache Monotonic (Except Raised Json) (List Json) where
  lifetime := tagsCacheTtl
  usable tags := !tags.isEmpty
  keep := installed sorting
  give answer := (installed sorting answer).getD []

section Resolve

variable (settings : Settings) (upstream : Upstream)

/-- The loop of `resolve_local`; only a text has `replace`. -/
def matching (requested : Text) : List Json → Except Raised (Option Text)
  | [] => return none
  | .str tag :: tags =>
    if Ollama.virtualName tag = requested then return some tag else matching requested tags
  | _ :: _ => throw .attributeError

def text? : Json → Option Text
  | .str t => some t
  | _ => none

/-- `resolve_local` with the tags that `installed_tags` gives it. -/
def resolveTags (tags : List Json) (requested : Text) : Except Raised Text := do
  if Ollama.enabled settings then
    if let some tag ← matching requested tags then return tag
  Ollama.resolveLocal settings { upstream with installedTags := tags.filterMap text? } requested

variable {settings upstream}

theorem matching_texts (requested : Text) (tags : List Text) :
    matching requested (tags.map .str) =
      .ok (tags.find? fun tag => Ollama.virtualName tag = requested) := by
  induction tags with
  | nil => rfl
  | cons tag tags ih =>
    rw [List.map_cons, matching, List.find?_cons]
    by_cases named : Ollama.virtualName tag = requested
    · simp [named, pure, Except.pure]
    · simp [named, ih]

theorem matching_some {requested tag : Text} {tags : List Json}
    (h : matching requested tags = .ok (some tag)) :
    Ollama.virtualName tag = requested ∧ .str tag ∈ tags := by
  induction tags with
  | nil => cases h
  | cons v tags ih =>
    cases v with
    | str t =>
      rw [matching] at h
      split_ifs at h with named
      · cases h
        exact ⟨named, List.mem_cons_self⟩
      · obtain ⟨same, mem⟩ := ih h
        exact ⟨same, List.mem_cons_of_mem _ mem⟩
    | _ => cases h

/-- Among texts it is the resolution of a request. -/
theorem resolveTags_texts (tags : List Text) (requested : Text) :
    resolveTags settings upstream (tags.map .str) requested =
      Ollama.resolveLocal settings { upstream with installedTags := tags } requested := by
  have texts : (tags.map Json.str).filterMap text? = tags := by
    simp [List.filterMap_map, Function.comp_def, text?]
  unfold resolveTags
  rw [matching_texts, texts]
  cases enabled : Ollama.enabled settings with
  | false => rfl
  | true =>
    cases found : tags.find? fun tag => Ollama.virtualName tag = requested with
    | none => rfl
    | some tag =>
      have some_tag : tags.isEmpty = false :=
        List.isEmpty_eq_false_iff.mpr (List.ne_nil_of_mem (List.mem_of_find?_eq_some found))
      simp [Ollama.resolveLocal, enabled, found, some_tag, bind, Except.bind, pure, Except.pure]

theorem resolveTags_ok {tags : List Json} {requested tag : Text}
    (ok : resolveTags settings upstream tags requested = .ok tag) :
    Ollama.virtualName tag = requested ∧ .str tag ∈ tags := by
  have listed (ok : Ollama.resolveLocal settings
      { upstream with installedTags := tags.filterMap text? } requested = .ok tag) :
      Ollama.virtualName tag = requested ∧ .str tag ∈ tags := by
    obtain ⟨mem, named⟩ := resolveLocal_ok ok
    unfold installedTags at mem
    split_ifs at mem with enabled
    · obtain ⟨v, mem, is⟩ := List.mem_filterMap.mp mem
      cases v <;> cases is
      exact ⟨named, mem⟩
    · cases mem
  unfold resolveTags at ok
  cases enabled : Ollama.enabled settings with
  | false => exact listed (by simpa [enabled] using ok)
  | true =>
    cases found : matching requested tags with
    | error e => simp [enabled, found, bind, Except.bind] at ok
    | ok first =>
      cases first with
      | none => exact listed (by simpa [enabled, found, bind, Except.bind] using ok)
      | some other =>
        obtain rfl : other = tag := by
          simpa [enabled, found, bind, Except.bind, pure, Except.pure] using ok
        exact matching_some found

end Resolve

variable {Caller : Type} [DecidableEq Caller]

abbrev CatalogueRun (settings : Settings) (Caller : Type) [DecidableEq Caller] :=
  ((modelsCache settings).machine : Machine (State Monotonic (List Text) Caller) _).Execution

abbrev TagsRun (sorting : Sorting) (Caller : Type) [DecidableEq Caller] :=
  ((tagsCache sorting).machine : Machine (State Monotonic (List Json) Caller) _).Execution

theorem openRouterModels_ne_nil (settings : Settings) (catalogue : Catalogue) :
    openRouterModels settings catalogue ≠ [] := by
  unfold openRouterModels
  split_ifs with none
  · exact List.cons_ne_nil _ _
  · exact none

section Catalogue

variable {settings : Settings} (e : CatalogueRun settings Caller)

/-- The step takes in an answer of OpenRouter. -/
def Answered (i : Nat) : Prop := ∃ caller catalogue, e.label i = .answer caller catalogue

/-- The models are those of the last catalogue taken in, less than an hour ago. -/
def FromLastCatalogue (k : Nat) (models : List Text) : Prop :=
  ∃ i, i ≤ k ∧ (∀ j, i < j → j < k → ¬ Answered e j) ∧
    (e.state k).now < (e.state i).now + modelsCacheTtl ∧
    ∃ caller catalogue, e.label i = .answer caller catalogue ∧
      models = openRouterModels settings catalogue

variable {e}

omit [DecidableEq Caller] in
theorem keeps_catalogue {action : Action Monotonic Catalogue Caller} {models : List Text} :
    Keeps (modelsCache settings) action models ↔ ∃ caller catalogue,
      action = .answer caller catalogue ∧ models = openRouterModels settings catalogue := by
  simp [Keeps, modelsCache, eq_comm]

theorem answered_keeps {i : Nat} (answered : Answered e i) :
    ∃ models, Keeps (modelsCache settings) (e.label i) models ∧
      (modelsCache settings).usable models = true := by
  obtain ⟨caller, catalogue, is⟩ := answered
  refine ⟨_, keeps_catalogue.mpr ⟨caller, catalogue, is, rfl⟩, ?_⟩
  simp [modelsCache, openRouterModels_ne_nil]

theorem given_fromLastCatalogue {k : Nat} (hk : k < e.length) {models : List Text}
    (given : (modelsCache settings).given (e.state k) (e.label k) = some models) :
    FromLastCatalogue e k models := by
  cases is : e.label k with
  | call caller =>
    rw [is] at given
    obtain ⟨i, last, -, young⟩ := (given_call_iff e hk.le).mp given
    refine ⟨i, last.before.le, ?_, young, keeps_catalogue.mp last.keeps⟩
    intro j hij hjk answered
    obtain ⟨other, keeps, -⟩ := answered_keeps answered
    exact last.since j hij hjk other keeps
  | answer caller catalogue =>
    rw [is] at given
    cases given
    exact ⟨k, le_rfl, by omega, by simp [modelsCacheTtl], caller, catalogue, is, rfl⟩
  | pass elapsed => simp [is, TtlCache.given] at given
  | leave caller => simp [is, TtlCache.given] at given

/-- A list that is served is not empty and is that of the last catalogue, taken in less than an
hour ago; a catalogue is asked for only an hour after every one that was taken in. -/
theorem catalogue_kept_an_hour (e : CatalogueRun settings Caller) {k : Nat} (hk : k < e.length) :
    (∀ models, (modelsCache settings).given (e.state k) (e.label k) = some models →
      models ≠ [] ∧ FromLastCatalogue e k models) ∧
    (Asks (modelsCache settings) (e.state k) (e.label k) → ∀ i, i < k → Answered e i →
      (e.state i).now + modelsCacheTtl ≤ (e.state k).now) := by
  constructor
  · intro models given
    have recent := given_fromLastCatalogue hk given
    obtain ⟨i, -, -, -, caller, catalogue, -, rfl⟩ := id recent
    exact ⟨openRouterModels_ne_nil settings catalogue, recent⟩
  · intro asks i hi answered
    obtain ⟨models, keeps, -⟩ := answered_keeps answered
    refine asks_after_lifetime e ?_ hi hk.le asks keeps
    intro catalogue value kept
    cases kept
    simp [modelsCache, openRouterModels_ne_nil]

end Catalogue

/-- Two clients ask at once; one finds OpenRouter down and the other does not, and a third is served
from what is kept. -/
def twoClients : List (Action Monotonic Catalogue Nat) :=
  [.call 1, .pass 1, .call 2, .answer 1 (.error .httpError), .pass 5,
    .answer 2 (.ok (.obj [(↑"data", .arr [.obj [(↑"id", .str ↑"qwen/qwen3-coder:free")]])])),
    .pass 60, .call 3]

def notKept (Value : Type) : State Monotonic (List Value) Nat := ⟨1000, (0, []), []⟩

theorem twoClients_runs :
    (Machine.run (modelsCache {}).step (notKept Text) twoClients).isSome = true := by decide +kernel

def twoClientsRun : CatalogueRun {} Nat :=
  Machine.replay (modelsCache {}).step (notKept Text) ⟨rfl, rfl⟩ twoClients (.pass 0) twoClients_runs

theorem twoClients_kept :
    FromLastCatalogue twoClientsRun 7 [↑"qwen/qwen3-coder:free"] := by
  have given : (modelsCache {}).given (twoClientsRun.state 7) (twoClientsRun.label 7) =
      some [↑"qwen/qwen3-coder:free"] := by decide +kernel
  exact ((catalogue_kept_an_hour twoClientsRun (by decide : 7 < twoClientsRun.length)).1 _ given).2

/-! ## Local models -/

section Tags

variable (settings : Settings) (upstream : Upstream) {sorting : Sorting}
  (e : TagsRun sorting Caller)

/-- The tag is in a list of Ollama's that was taken in less than a minute ago, and none since. -/
def FromLastTags (k : Nat) (tag : Text) : Prop :=
  ∃ i, i ≤ k ∧ (∀ j, i < j → j < k → ∀ tags, ¬ Keeps (tagsCache sorting) (e.label j) tags) ∧
    (e.state k).now < (e.state i).now + tagsCacheTtl ∧
    ∃ tags, Keeps (tagsCache sorting) (e.label i) tags ∧ .str tag ∈ tags

variable {e}

theorem given_fromLastTags {k : Nat} (hk : k < e.length) {tags : List Json}
    (given : (tagsCache sorting).given (e.state k) (e.label k) = some tags) {tag : Text}
    (mem : .str tag ∈ tags) : FromLastTags e k tag := by
  cases is : e.label k with
  | call caller =>
    rw [is] at given
    obtain ⟨i, last, -, young⟩ := (given_call_iff e hk.le).mp given
    exact ⟨i, last.before.le, last.since, young, tags, last.keeps, mem⟩
  | answer caller answer =>
    rw [is] at given
    cases given
    have read : installed sorting answer = some ((installed sorting answer).getD []) := by
      cases names : installed sorting answer with
      | some names => rfl
      | none => simp [tagsCache, names] at mem
    exact ⟨k, le_rfl, by omega, by simp [tagsCacheTtl], _,
      ⟨caller, answer, is, read⟩, mem⟩
  | pass elapsed => simp [is, TtlCache.given] at given
  | leave caller => simp [is, TtlCache.given] at given

/-- A request for a local model goes to a tag of that name that Ollama listed less than a minute
ago; it waits for Ollama exactly when the last list is empty or a minute old, whatever failed
since. -/
theorem local_routed_within_minute (e : TagsRun sorting Caller) {k : Nat} (hk : k < e.length) :
    (∀ tags, (tagsCache sorting).given (e.state k) (e.label k) = some tags → ∀ requested tag,
      resolveTags settings upstream tags requested = .ok tag →
        Ollama.virtualName tag = requested ∧ FromLastTags e k tag) ∧
    (∀ caller, e.label k = .call caller →
      (Asks (tagsCache sorting) (e.state k) (e.label k) ↔ ∀ i tags, LastKept e k i tags →
        tags ≠ [] → (e.state i).now + tagsCacheTtl ≤ (e.state k).now)) := by
  constructor
  · intro tags given requested tag ok
    obtain ⟨named, mem⟩ := resolveTags_ok ok
    exact ⟨named, given_fromLastTags hk given mem⟩
  · intro caller is
    rw [is, asks_iff e hk.le]
    simp [tagsCache]

/-- Ollama is asked once, and half a minute later its list serves again. -/
def askedOnce : List (Action Monotonic (Except Raised Json) Nat) :=
  [.call 1, .answer 1 (.ok (.obj [(↑"models", .arr [.obj [(↑"name", .str ↑"qwen3:4b")]])])),
    .pass 30, .call 2]

/-- A `sorted` that raises over anything but texts. -/
def sortTexts (names : List Json) : Except Raised (List Json) :=
  if (names.all fun name => (text? name).isSome) = true then
    return ((names.filterMap text?).insertionSort (· ≤ ·)).map .str
  else throw .typeError

theorem sortTexts_texts (names : List Text) :
    sortTexts (names.map .str) = .ok ((names.insertionSort (· ≤ ·)).map .str) := by
  have all : ((names.map Json.str).all fun name => (text? name).isSome) = true := by
    simp [text?]
  rw [sortTexts, if_pos all]
  simp [List.filterMap_map, Function.comp_def, text?, pure, Except.pure]

def textSorting : Sorting := ⟨sortTexts, sortTexts_texts⟩

theorem askedOnce_runs :
    (Machine.run (tagsCache textSorting).step (notKept Json) askedOnce).isSome = true := by
  decide +kernel

def askedOnceRun : TagsRun textSorting Nat :=
  Machine.replay (tagsCache textSorting).step (notKept Json) ⟨rfl, rfl⟩ askedOnce (.pass 0)
    askedOnce_runs

theorem askedOnce_routed : FromLastTags askedOnceRun 3 ↑"qwen3:4b" := by
  have resolves : ((tagsCache textSorting).given (askedOnceRun.state 3) (askedOnceRun.label 3)).map
      (fun tags => (resolveTags { ollamaBaseUrl := ↑"http://ollama:11434" } twins tags
        ↑"octo/local-qwen3-4b").toOption) = some (some ↑"qwen3:4b") := by decide +kernel
  obtain ⟨tags, given, resolved⟩ := Option.map_eq_some_iff.mp resolves
  have recent := local_routed_within_minute { ollamaBaseUrl := ↑"http://ollama:11434" } twins
    askedOnceRun (by decide : 3 < askedOnceRun.length)
  refine (recent.1 tags given ↑"octo/local-qwen3-4b" _ ?_).2
  cases ok : resolveTags { ollamaBaseUrl := ↑"http://ollama:11434" } twins tags
    ↑"octo/local-qwen3-4b" with
  | ok tag =>
    rw [ok] at resolved
    cases resolved
    rfl
  | error e =>
    rw [ok] at resolved
    cases resolved

end Tags

end AgenticOctopus.Api.OpenAICompat
