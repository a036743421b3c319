import AgenticOctopus.Providers.CostGuard
import AgenticOctopus.Api.OpenAICompat
import AgenticOctopus.Chat.Streaming
import AgenticOctopus.Worker.OpenRouterExecutor

/-!
# Surfaces

Three surfaces lead to OpenRouter: a body posted to `/v1/chat/completions`, a chat turn and
an agent run. Each passes the guard on one model name and then hands over a payload; only
the first hands over fallback models too.
-/
namespace AgenticOctopus.Api.Surfaces
open Foundation Providers
open Foundation.Program (Keeps state keeps_pure keeps_throw keeps_get keeps_raises keeps_modify
  keeps_bind keeps_attempt keeps_zoom keeps_tryFinally)
open Providers.OpenRouter (autoModel resolveModel enforceFree isFree fallbacks NamesOnlyFree
  HasFreePreference)

variable {settings : Settings}

/-! ## Sources -/

/-- Where a request comes from: the client's body, the model of a conversation or the model
of a manifest. -/
inductive Source where
  | shim (body : Dict Text Json)
  | conversation (model : Option Text)
  | manifest (model : Text)

namespace Source

/-- The model that the surface asks for. -/
def requested : Source → Except Raised Text
  | shim body => OpenAICompat.requestedModel body
  | conversation model => .ok (Chat.orDefault model ↑"default")
  | manifest model => .ok model

/-- The fallback models that the client brings. -/
def brought : Source → List Json
  | shim body => fallbacks body
  | conversation _ | manifest _ => []

/-- The surface asks for the virtual model, by its name or as the default. -/
def Automatic (settings : Settings) (source : Source) : Prop :=
  source.requested = .ok autoModel ∨
    source.requested = .ok ↑"default" ∧ settings.openrouterDefaultModel = autoModel

/-- The virtual model has a free model to expand to; any other model comes with free
fallbacks only. -/
def Covered (settings : Settings) (source : Source) : Prop :=
  (source.Automatic settings → HasFreePreference settings) ∧
    (¬source.Automatic settings → ∀ fallback ∈ source.brought, isFree fallback = true)

end Source

/-- What a surface hands to the provider: the model that passed the guard, and the fallbacks
that it came with. -/
structure Guarded (settings : Settings) (source : Source) (payload : Dict Text Json) : Prop where
  model : ∃ requested, source.requested = .ok requested ∧
    enforceFree settings (resolveModel settings requested) = .ok () ∧
    payload.get? ↑"model" = some (.str (resolveModel settings requested))
  fallbacks : fallbacks payload = source.brought

theorem automatic_iff (settings : Settings) {source : Source} {requested : Text}
    (h : source.requested = .ok requested) :
    source.Automatic settings ↔ resolveModel settings requested = autoModel := by
  have names : (Text.ofString "default") ≠ autoModel := by decide
  unfold Source.Automatic resolveModel
  rw [h]
  grind

theorem Guarded.namesOnlyFree_iff {source : Source} {payload : Dict Text Json}
    (h : Guarded settings source payload) (off : settings.openrouterAllowPaid = false)
    (stream : Bool) :
    NamesOnlyFree (OpenRouter.post settings stream payload).json ↔ source.Covered settings := by
  obtain ⟨requested, asked, passed, model⟩ := h.model
  have automatic := automatic_iff settings asked
  unfold Source.Covered
  rw [automatic, ← h.fallbacks]
  by_cases auto : resolveModel settings requested = autoModel
  · rw [auto] at model
    simpa [auto] using OpenRouter.namesOnlyFree_auto stream model
  · have free := (OpenRouter.enforceFree_ok off passed).resolve_left auto
    simpa [auto] using OpenRouter.namesOnlyFree_plain stream model auto free

/-! ## Requests -/

/-- Every request that goes to OpenRouter is guarded. -/
def Watched (settings : Settings) (source : Source) (requests : List Request) : Prop :=
  ∀ request ∈ requests, request.provider = .openrouter →
    Guarded settings source request.payload

variable {source : Source}

theorem watched_append {requests : List Request} {request : Request}
    (h : Watched settings source requests)
    (guarded : request.provider = .openrouter → Guarded settings source request.payload) :
    Watched settings source (requests ++ [request]) := by
  intro made mem
  rcases List.mem_append.mp mem with old | new
  · exact h made old
  · rw [List.mem_singleton.mp new]
    exact guarded

theorem complete_watched (upstream : Upstream) {request : Request}
    (guarded : request.provider = .openrouter → Guarded settings source request.payload) :
    Keeps (Watched settings source) (complete upstream request) := by
  intro requests h
  rw [state_complete]
  exact watched_append h guarded

theorem openStream_watched (upstream : Upstream) {request : Request}
    (guarded : request.provider = .openrouter → Guarded settings source request.payload) :
    Keeps (Watched settings source) (openStream upstream request) := by
  intro requests h
  rw [state_openStream]
  exact watched_append h guarded

theorem routeChatModel_openrouter {upstream : Upstream} {requested model name : Text}
    (h : routeChatModel settings upstream requested = .ok (.openrouter, model, name)) :
    model = resolveModel settings requested ∧ enforceFree settings model = .ok () := by
  unfold routeChatModel at h
  split_ifs at h with isLocal isClaude keyless
  · cases tag : Ollama.resolveLocal settings upstream requested <;> rw [tag] at h <;> cases h
  · cases h
  · cases found : getChatProvider settings.chatProvider with
    | error e =>
      rw [found] at h
      cases h
    | ok provider =>
      cases passed : enforceFree settings (resolveModel settings requested) with
      | error e =>
        simp only [found, passed] at h
        cases h
      | ok done =>
        simp only [found, passed] at h
        cases h
        exact ⟨rfl, passed⟩

/-! ## The chat -/

section Chat
open Chat

variable (host : Host)

/-- The prepared turn asks for what passed the guard. -/
theorem prepare_guarded {conversationId : ConversationId} {userText : Text}
    {ledger ledger' : Ledger} {p : Prepared} {convo : Conversation}
    (prepared : (prepare host conversationId userText).run ledger = .ok p ledger')
    (found : getConversation ledger conversationId = some convo)
    (upstream : p.provider = .openrouter) (context : List ChatMessage) :
    Guarded host.settings (.conversation convo.model) (payload p.model context) := by
  obtain ⟨convo', found', route, -⟩ := prepare_ok host prepared
  rw [found] at found'
  cases found'
  rw [upstream] at route
  obtain ⟨model, passed⟩ := routeChatModel_openrouter route
  rw [model] at passed ⊢
  exact ⟨⟨_, rfl, passed, rfl⟩, rfl⟩

variable {p : Prepared}

theorem send_watched {conversationId : ConversationId} {ledger : Ledger} {convo : Conversation}
    (found : getConversation ledger conversationId = some convo) (userText : Text)
    (tags : Option (Dict Text Json)) :
    Watched host.settings (.conversation convo.model)
      (state ((send host conversationId userText tags).run ⟨ledger, []⟩)).requests := by
  have none : Watched host.settings (.conversation convo.model) [] := by simp [Watched]
  unfold send
  cases prepared : (prepare host conversationId userText).run ledger with
  | error e ledger =>
    rw [Program.run_bind_error (Program.run_zoom_error prepared)]
    exact none
  | ok p ledger =>
    have guarded := fun context upstream =>
      prepare_guarded host prepared found upstream context
    rw [Program.run_bind_ok (Program.run_zoom_ok prepared)]
    exact keeps_bind (keepsRequests_sendRounds host conversationId
      (fun context => complete_watched host.upstream (guarded context)) _ _ _ _)
      (fun answer => keepsRequests_reply host conversationId tags answer) ⟨ledger, []⟩ none

/-! ## The streamed chat -/

variable (consumer : Consumer)

theorem sendStream_watched {conversationId : ConversationId} {ledger : Ledger}
    {convo : Conversation} (found : getConversation ledger conversationId = some convo)
    (userText : Text) (tags : Option (Dict Text Json)) :
    Watched host.settings (.conversation convo.model)
      (state (sendStream host consumer conversationId userText tags ⟨ledger, []⟩)).session.requests
    := by
  have none : Watched host.settings (.conversation convo.model) [] := by simp [Watched]
  unfold sendStream
  cases prepared : (prepare host conversationId userText).run ledger with
  | error e ledger =>
    rw [Program.run_zoom_error prepared]
    exact none
  | ok p ledger =>
    have guarded := fun context upstream =>
      prepare_guarded host prepared found upstream context
    rw [Program.run_zoom_ok prepared]
    exact keepsSession_stream tags
      (fun context => keepsRequests_onRequests (openStream_watched host.upstream (guarded context)))
      (fun _ _ _ _ => keepsRequests_onLedger _) (fun _ _ => keepsRequests_onLedger _) _ none

end Chat

/-! ## The executor and the shim -/

theorem execute_watched (desk : Worker.OpenRouterExecutor.Desk) (run : Spine.Run)
    (agent : Spine.LoadedAgent) :
    Watched desk.settings (.manifest agent.manifest.model)
      (state ((Worker.OpenRouterExecutor.execute desk run agent).run {})).requests := by
  refine Worker.OpenRouterExecutor.keeps_execute desk
    (P := Watched desk.settings (.manifest agent.manifest.model)) run agent
    (fun model resolved passed => complete_watched desk.upstream fun _ => ?_) {} (by simp [Watched])
  subst resolved
  exact ⟨⟨_, rfl, passed, rfl⟩, rfl⟩

/-- The rewritten body has the resolved model and keeps the client's fallbacks. -/
theorem get?_strip (body : Dict Text Json) {key : Text} (h : key ∉ OpenAICompat.strippedFields) :
    (OpenAICompat.strip body).get? key = body.get? key :=
  Dict.get?_foldl_erase body h

theorem chatCompletions_guarded {upstream : Upstream} {body : Dict Text Json} {request : Request}
    (forwarded : OpenAICompat.chatCompletions settings upstream (.obj body) =
      .ok (.forward request)) (openrouter : request.provider = .openrouter) :
    Guarded settings (.shim body) request.payload := by
  unfold OpenAICompat.chatCompletions at forwarded
  cases asked : OpenAICompat.requestedModel body with
  | error e =>
    simp only [asked] at forwarded
    cases forwarded
  | ok requested =>
    cases route : routeChatModel settings upstream requested with
    | error e =>
      simp only [asked, route, bind, Except.bind] at forwarded
      cases e <;> cases forwarded
    | ok routed =>
      obtain ⟨provider, model, name⟩ := routed
      simp only [asked, route, bind, Except.bind] at forwarded
      cases forwarded
      dsimp only at openrouter
      rw [openrouter] at route
      obtain ⟨resolved, passed⟩ := routeChatModel_openrouter route
      rw [resolved] at passed ⊢
      have other : (Text.ofString "model") ≠ ↑"models" := by decide
      refine ⟨⟨requested, asked, passed, ?_⟩, ?_⟩
      · rw [get?_strip _ (by decide), Dict.get?_set_self]
      · unfold fallbacks Source.brought
        rw [get?_strip _ (by decide), Dict.get?_set_of_ne _ _ other]
        rfl

/-! ## The guard on every surface -/

/-- The payload is posted to OpenRouter for a request that this source makes. -/
inductive Posts : Settings → Source → Dict Text Json → Prop where
  | shim {settings : Settings} (upstream : Upstream) {body : Dict Text Json} {request : Request}
      (forwarded : OpenAICompat.chatCompletions settings upstream (.obj body) =
        .ok (.forward request)) (openrouter : request.provider = .openrouter) :
      Posts settings (.shim body) (OpenRouter.post settings request.stream request.payload).json
  | send {host : Chat.Host} {ledger : Chat.Ledger} {convo : Chat.Conversation}
      (conversationId : Chat.ConversationId) (userText : Text) (tags : Option (Dict Text Json))
      (request : Request) (found : Chat.getConversation ledger conversationId = some convo)
      (made : request ∈
        (state ((Chat.send host conversationId userText tags).run ⟨ledger, []⟩)).requests)
      (openrouter : request.provider = .openrouter) :
      Posts host.settings (.conversation convo.model)
        (OpenRouter.post host.settings request.stream request.payload).json
  | sendStream {host : Chat.Host} {ledger : Chat.Ledger} {convo : Chat.Conversation}
      (consumer : Chat.Consumer) (conversationId : Chat.ConversationId) (userText : Text)
      (tags : Option (Dict Text Json)) (request : Request)
      (found : Chat.getConversation ledger conversationId = some convo)
      (made : request ∈ (state (Chat.sendStream host consumer conversationId userText tags
        ⟨ledger, []⟩)).session.requests) (openrouter : request.provider = .openrouter) :
      Posts host.settings (.conversation convo.model)
        (OpenRouter.post host.settings request.stream request.payload).json
  | execute {desk : Worker.OpenRouterExecutor.Desk} (run : Spine.Run) (agent : Spine.LoadedAgent)
      (request : Request)
      (made : request ∈
        (state ((Worker.OpenRouterExecutor.execute desk run agent).run {})).requests)
      (openrouter : request.provider = .openrouter) :
      Posts desk.settings (.manifest agent.manifest.model)
        (OpenRouter.post desk.settings request.stream request.payload).json

theorem Posts.guarded {payload : Dict Text Json} (h : Posts settings source payload) :
    ∃ stream body, payload = (OpenRouter.post settings stream body).json ∧
      Guarded settings source body := by
  cases h with
  | shim upstream forwarded openrouter =>
    exact ⟨_, _, rfl, chatCompletions_guarded forwarded openrouter⟩
  | send conversationId userText tags request found made openrouter =>
    exact ⟨_, _, rfl, send_watched _ found userText tags request made openrouter⟩
  | sendStream consumer conversationId userText tags request found made openrouter =>
    exact ⟨_, _, rfl, sendStream_watched _ consumer found userText tags request made openrouter⟩
  | execute run agent request made openrouter =>
    exact ⟨_, _, rfl, execute_watched _ run agent request made openrouter⟩

/-- With paid models off, exactly the covered sources post nothing but free models. -/
theorem names_only_free_iff (source : Source) (payload : Dict Text Json)
    (off : settings.openrouterAllowPaid = false) (posted : Posts settings source payload) :
    NamesOnlyFree payload ↔ source.Covered settings := by
  obtain ⟨stream, body, rfl, guarded⟩ := posted.guarded
  exact guarded.namesOnlyFree_iff off stream

/-- Nothing answers. -/
def offline : Upstream where
  py := ⟨fun _ _ _ => ↑"0.5", fun _ => ↑"[]", 900⟩
  installedTags := []
  respond _ := .error .httpError
  openStream _ := .error .httpError

def greeting : Json :=
  .arr [.obj [(↑"role", .str ↑"user"), (↑"content", .str ↑"hi")]]

def unnamedModel : Dict Text Json :=
  [(↑"messages", greeting), (↑"models", .arr [.str ↑"openai/gpt-5"]), (↑"stream", .bool true)]

/-- The default goes out as the preferred models, and the client's fallback is dropped. -/
theorem unnamedModel_expands :
    NamesOnlyFree
      (OpenRouter.post {} true (Dict.set unnamedModel ↑"model" (.str autoModel))).json := by
  have preferred : HasFreePreference {} := by decide +kernel
  have forwarded : OpenAICompat.chatCompletions {} offline (.obj unnamedModel) =
      .ok (.forward ⟨.openrouter, true, Dict.set unnamedModel ↑"model" (.str autoModel)⟩) := rfl
  have automatic : (Source.shim unnamedModel).Automatic {} := .inr ⟨rfl, rfl⟩
  exact (names_only_free_iff (.shim unnamedModel) _ rfl (.shim offline forwarded rfl)).mpr
    ⟨fun _ => preferred, fun other => absurd automatic other⟩

def paidFallback : Dict Text Json :=
  [(↑"model", .str ↑"tencent/hy3:free"), (↑"models", .arr [.str ↑"openai/gpt-5"]),
    (↑"messages", greeting)]

/-- A client's paid fallback goes out behind the free model that passed the guard. -/
theorem paidFallback_posted :
    ({} : Settings).openrouterAllowPaid = false ∧
      Posts {} (.shim paidFallback) (OpenRouter.post {} false paidFallback).json ∧
      Json.str ↑"openai/gpt-5" ∈ OpenRouter.named (OpenRouter.post {} false paidFallback).json ∧
      ¬ NamesOnlyFree (OpenRouter.post {} false paidFallback).json := by
  have forwarded : OpenAICompat.chatCompletions {} offline (.obj paidFallback) =
      .ok (.forward ⟨.openrouter, false, paidFallback⟩) := rfl
  have named : OpenRouter.named (OpenRouter.post {} false paidFallback).json =
      [.str ↑"tencent/hy3:free", .str ↑"openai/gpt-5"] := rfl
  have posted : Json.str ↑"openai/gpt-5" ∈
      OpenRouter.named (OpenRouter.post {} false paidFallback).json := by
    rw [named]
    simp
  refine ⟨rfl, .shim offline forwarded rfl, posted, fun ⟨_, free⟩ => ?_⟩
  exact absurd (free _ posted) (by decide)

end AgenticOctopus.Api.Surfaces
