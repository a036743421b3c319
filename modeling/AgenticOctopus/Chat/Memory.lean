import AgenticOctopus.Chat.Service
import AgenticOctopus.Foundation.Machine

/-!
# What a conversation remembers

The window is charged for a row what the row's column `prompt_tokens` says, and a turn stores
there what the provider counted for the whole prompt. So a row of the assistant is charged
for all that came before it, and the window keeps every message exactly when the budget
bears these charges.
-/
namespace AgenticOctopus.Chat
open Foundation Providers Program

/-! ## The window -/

/-- The messages that a request may carry. -/
def spoken (history : List Message) : List Message := history.filter fun m => m.role ≠ .tool

def Message.chat (m : Message) : ChatMessage := ⟨m.role.value, m.content⟩

theorem window_spoken (remaining : Int) (kept : List ChatMessage) (history : List Message) :
    window remaining kept (spoken history) = window remaining kept history := by
  induction history generalizing remaining kept with
  | nil => rfl
  | cons m ms ih =>
    by_cases tool : m.role = .tool
    · rw [spoken, List.filter_cons_of_neg (by simp [tool]), window, if_pos tool]
      exact ih remaining kept
    · rw [spoken, List.filter_cons_of_pos (by simpa using tool), window, window, if_neg tool,
        if_neg tool]
      split_ifs
      · rfl
      · exact ih _ _

/-- Newest first, nothing is dropped exactly when every run of newest messages fits; the newest
message needs no room if nothing was kept before it. -/
theorem window_eq_iff {history : List Message} (audible : ∀ m ∈ history, m.role ≠ .tool)
    (remaining : Int) (kept : List ChatMessage) :
    window remaining kept history = kept ++ history.map Message.chat ↔
      ∀ newer, newer <+: history → newer ≠ [] → (kept = [] → 2 ≤ newer.length) →
        (newer.map cost).sum ≤ remaining := by
  induction history generalizing remaining kept with
  | nil =>
    simp only [window, List.map_nil, List.append_nil, true_iff]
    intro newer of_nil ink
    exact (ink (List.prefix_nil.mp of_nil)).elim
  | cons m ms ih =>
    have rest := ih (fun a mem => audible a (List.mem_cons_of_mem m mem)) (remaining - cost m)
      (kept ++ [m.chat])
    rw [window, if_neg (audible m List.mem_cons_self)]
    by_cases full : remaining - cost m < 0 ∧ kept ≠ []
    · rw [if_pos full]
      constructor
      · intro same
        have lengths := congrArg List.length same
        simp at lengths
      · intro fits
        have first := fits [m] (by simp) (by simp) fun none => (full.2 none).elim
        simp only [List.map_cons, List.map_nil, List.sum_cons, List.sum_nil] at first
        omega
    · rw [if_neg full]
      have whole : kept ++ List.map Message.chat (m :: ms) =
          (kept ++ [m.chat]) ++ ms.map Message.chat := by simp
      rw [whole]
      change window (remaining - cost m) (kept ++ [m.chat]) ms = _ ↔ _
      rw [rest]
      constructor
      · intro fits newer begins ink long
        obtain ⟨a, newer, rfl⟩ := List.exists_cons_of_ne_nil ink
        obtain ⟨rfl, tail⟩ := List.cons_prefix_cons.mp begins
        simp only [List.map_cons, List.sum_cons]
        by_cases last : newer = []
        · subst last
          have held : kept ≠ [] := fun none => absurd (long none) (by simp)
          have room : ¬ remaining - cost a < 0 := fun short => full ⟨short, held⟩
          simp only [List.map_nil, List.sum_nil]
          omega
        · have fit := fits newer tail last (by simp)
          omega
      · intro fits newer begins ink _
        have fit := fits (m :: newer) (List.cons_prefix_cons.mpr ⟨rfl, begins⟩) (by simp)
          fun _ => by
            have := List.length_pos_iff.mpr ink
            simp only [List.length_cons]
            omega
        simp only [List.map_cons, List.sum_cons] at fit
        omega

/-- The charges of the newest messages, of two of them at least, stay within the room. -/
def ChargesFit (room : Int) (history : List Message) : Prop :=
  ∀ newer, newer <:+ spoken history → 2 ≤ newer.length → (newer.map cost).sum ≤ room

instance (room : Int) (history : List Message) : Decidable (ChargesFit room history) :=
  decidable_of_iff (∀ newer ∈ (spoken history).tails, 2 ≤ newer.length →
    (newer.map cost).sum ≤ room) (by simp only [ChargesFit, List.mem_tails])

theorem buildContext_eq_iff (settings : Settings) (systemPrompt : Text) (history : List Message) :
    buildContext settings systemPrompt history none =
        ⟨↑"system", systemPrompt⟩ :: (spoken history).map Message.chat ↔
      ChargesFit (settings.chatContextBudget - estimateTokens systemPrompt) history := by
  have audible : ∀ m ∈ spoken history.reverse, m.role ≠ .tool := by
    intro m mem
    simpa using (List.mem_filter.mp mem).2
  have turned : spoken history.reverse = (spoken history).reverse := List.filter_reverse
  rw [buildContext, List.cons_inj_right, ← window_spoken, List.reverse_eq_iff, ← List.map_reverse,
    ← turned]
  have kept := window_eq_iff audible (settings.chatContextBudget - estimateTokens systemPrompt) []
  rw [List.nil_append] at kept
  rw [kept, turned]
  constructor
  · intro fits newer ends long
    have fit := fits newer.reverse (List.reverse_prefix.mpr ends) (by
      rintro empty
      rw [List.reverse_eq_nil_iff.mp empty] at long
      simp at long) fun _ => by simpa using long
    rwa [List.map_reverse, List.sum_reverse] at fit
  · intro fits newer begins _ long
    have ends := List.reverse_suffix.mpr begins
    rw [List.reverse_reverse] at ends
    have fit := fits newer.reverse ends (by simpa using long rfl)
    rwa [List.map_reverse, List.sum_reverse] at fit

/-! ## The longest window -/

/-- What may be kept after `kept`, newest first: a first message whatever it costs, and more only
where all of it fits. -/
def Affordable (remaining : Int) (kept : List ChatMessage) (newer : List Message) : Prop :=
  newer ≠ [] → (kept = [] → 2 ≤ newer.length) → (newer.map cost).sum ≤ remaining

theorem Affordable.rest {remaining : Int} {kept : List ChatMessage} {m : Message}
    {newer : List Message} (afford : Affordable remaining kept (m :: newer)) :
    Affordable (remaining - cost m) (kept ++ [m.chat]) newer := by
  intro ink _
  have more : 2 ≤ (m :: newer).length := by
    have := List.length_pos_iff.mpr ink
    rw [List.length_cons]
    omega
  have fit := afford (List.cons_ne_nil m newer) fun _ => more
  rw [List.map_cons, List.sum_cons] at fit
  omega

/-- A row is charged at least nothing when the counts that are stored are not negative. -/
def Counted (history : List Message) : Prop :=
  ∀ m ∈ history, ∀ n, m.promptTokens = some n → 0 ≤ n

theorem cost_nonneg {history : List Message} (counted : Counted history) {m : Message}
    (mem : m ∈ history) : 0 ≤ cost m := by
  have estimated : 0 ≤ estimateTokens m.content := by
    have : (1 : Int) ≤ estimateTokens m.content := le_max_left 1 _
    omega
  unfold cost
  split
  case h_1 n stored =>
    split_ifs
    · exact counted m mem n stored
    · exact estimated
  case h_2 => exact estimated

theorem window_longest {history : List Message} (audible : ∀ m ∈ history, m.role ≠ .tool)
    (charged : ∀ m ∈ history, 0 ≤ cost m) (remaining : Int) (kept : List ChatMessage) :
    ∃ newer, newer <+: history ∧
      window remaining kept history = kept ++ newer.map Message.chat ∧
      (kept = [] → history ≠ [] → newer ≠ []) ∧ Affordable remaining kept newer ∧
      ∀ other, other <+: history → Affordable remaining kept other →
        other.length ≤ newer.length := by
  induction history generalizing remaining kept with
  | nil =>
    refine ⟨[], List.prefix_rfl, by simp [window], fun _ some => absurd rfl some,
      fun ink => absurd rfl ink, ?_⟩
    intro other begins _
    exact begins.length_le
  | cons m ms ih =>
    have free : 0 ≤ cost m := charged m List.mem_cons_self
    have chargedRest : ∀ a ∈ ms, 0 ≤ cost a := fun a mem => charged a (List.mem_cons_of_mem m mem)
    rw [window, if_neg (audible m List.mem_cons_self)]
    by_cases full : remaining - cost m < 0 ∧ kept ≠ []
    · rw [if_pos full]
      refine ⟨[], List.nil_prefix, by simp, fun none => absurd none full.2,
        fun ink => absurd rfl ink, ?_⟩
      intro other begins afford
      cases other with
      | nil => exact le_rfl
      | cons a others =>
        -- The message that was refused alone is not bearable together with older ones.
        obtain ⟨rfl, tail⟩ := List.cons_prefix_cons.mp begins
        have fit := afford (List.cons_ne_nil a others) fun none => absurd none full.2
        have older : 0 ≤ (others.map cost).sum := List.sum_nonneg fun c mem => by
          obtain ⟨b, among, rfl⟩ := List.mem_map.mp mem
          exact chargedRest b (tail.subset among)
        rw [List.map_cons, List.sum_cons] at fit
        omega
    · rw [if_neg full]
      obtain ⟨newer, begins, same, _, afford, longest⟩ :=
        ih (fun a mem => audible a (List.mem_cons_of_mem m mem)) chargedRest
          (remaining - cost m) (kept ++ [m.chat])
      refine ⟨m :: newer, List.cons_prefix_cons.mpr ⟨rfl, begins⟩, ?_,
        fun _ _ => List.cons_ne_nil m newer, ?_, ?_⟩
      · change window (remaining - cost m) (kept ++ [m.chat]) ms = _
        rw [same, List.map_cons, List.append_assoc, List.singleton_append]
      · intro _ long
        rw [List.map_cons, List.sum_cons]
        by_cases last : newer = []
        · subst last
          have held : kept ≠ [] := fun none => absurd (long none) (by simp)
          have room : ¬ remaining - cost m < 0 := fun short => full ⟨short, held⟩
          rw [List.map_nil, List.sum_nil]
          omega
        · have fit := afford last fun none => absurd none (by simp)
          omega
      · intro other start bearable
        cases other with
        | nil => exact Nat.zero_le _
        | cons a others =>
          obtain ⟨rfl, tail⟩ := List.cons_prefix_cons.mp start
          exact Nat.succ_le_succ (longest others tail bearable.rest)

def effectiveBudget (settings : Settings) (budget : Option Int) : Int :=
  (budget.filter (· ≠ 0)).getD settings.chatContextBudget

theorem buildContext_eq (settings : Settings) (systemPrompt : Text) (history : List Message)
    (budget : Option Int) :
    buildContext settings systemPrompt history budget = ⟨↑"system", systemPrompt⟩ ::
      (window (effectiveBudget settings budget - estimateTokens systemPrompt) []
        (spoken history).reverse).reverse := by
  have turned : spoken history.reverse = (spoken history).reverse := List.filter_reverse
  rw [← turned, window_spoken]
  cases budget with
  | none => rfl
  | some b => by_cases zero : b = 0 <;> simp [buildContext, effectiveBudget, Option.filter, zero]

/-- What a window may be: the newest of the messages that are spoken, one at least, and within
the budget from the second on. -/
structure IsWindow (systemPrompt : Text) (history : List Message) (budget : Int)
    (kept : List Message) : Prop where
  newest : kept <:+ spoken history
  some : spoken history ≠ [] → kept ≠ []
  fits : 2 ≤ kept.length → estimateTokens systemPrompt + (kept.map cost).sum ≤ budget

/-- The context is the system prompt and the longest window that the budget allows. -/
theorem buildContext_longest (settings : Settings) (systemPrompt : Text)
    (history : List Message) (budget : Option Int) (counted : Counted history) :
    ∃ kept, buildContext settings systemPrompt history budget =
        ⟨↑"system", systemPrompt⟩ :: kept.map Message.chat ∧
      IsWindow systemPrompt history (effectiveBudget settings budget) kept ∧
      ∀ other, IsWindow systemPrompt history (effectiveBudget settings budget) other →
        other <:+ kept := by
  have audible : ∀ m ∈ (spoken history).reverse, m.role ≠ .tool := by
    intro m mem
    simpa using (List.mem_filter.mp (List.mem_reverse.mp mem)).2
  have charged : ∀ m ∈ (spoken history).reverse, 0 ≤ cost m := fun m mem =>
    cost_nonneg counted (List.mem_filter.mp (List.mem_reverse.mp mem)).1
  obtain ⟨newer, begins, same, first, afford, longest⟩ := window_longest audible charged
    (effectiveBudget settings budget - estimateTokens systemPrompt) []
  refine ⟨newer.reverse, ?_, ⟨?_, ?_, ?_⟩, ?_⟩
  · rw [buildContext_eq, same, List.nil_append, List.map_reverse]
  · exact List.reverse_prefix.mp (by rwa [List.reverse_reverse])
  · intro spoke
    simpa using first rfl (by simpa using spoke)
  · intro long
    rw [List.length_reverse] at long
    have fit := afford (by rintro rfl; simp at long) fun _ => long
    rw [List.map_reverse, List.sum_reverse]
    omega
  · intro other window
    have short := longest other.reverse (List.reverse_prefix.mpr window.newest) (by
      intro _ more
      have fit := window.fits (by simpa using more rfl)
      rw [List.map_reverse, List.sum_reverse]
      omega)
    refine List.suffix_of_suffix_length_le window.newest ?_ ?_
    · exact List.reverse_prefix.mp (by rwa [List.reverse_reverse])
    · simpa using short

/-- A first message, an answer that was counted, the row of a tool, and a last message. -/
def fourRows : List Message :=
  [{ id := 1, conversationId := ↑"c", role := .user, content := List.replicate 8 97 },
    { id := 2, conversationId := ↑"c", role := .assistant, content := ↑"ok",
      promptTokens := some 5 },
    { id := 3, conversationId := ↑"c", role := .tool, content := ↑"called" },
    { id := 4, conversationId := ↑"c", role := .user, content := ↑"more" }]

/-- The prompt takes 2 of the 8 tokens, and the last two messages that are spoken the other 6. -/
theorem fourRows_longest : fourRows.map cost = [2, 5, 1, 1] ∧
    ∃ kept, buildContext {} ↑"Be brief." fourRows (some 8) =
        ⟨↑"system", ↑"Be brief."⟩ :: kept.map Message.chat ∧
      IsWindow ↑"Be brief." fourRows (effectiveBudget {} (some 8)) kept ∧
      ∀ other, IsWindow ↑"Be brief." fourRows (effectiveBudget {} (some 8)) other →
        other <:+ kept :=
  ⟨by decide, buildContext_longest {} ↑"Be brief." fourRows (some 8) (by
    simp [Counted, fourRows])⟩

/-! ## Turns -/

structure Turn where
  host : Host
  conversationId : ConversationId
  userText : Text
  tags : Option (Dict Text Json)

namespace Turn

variable (t : Turn) (ledger : Ledger)

def sent : EStateM.Result Raised Session Message :=
  (send t.host t.conversationId t.userText t.tags).run ⟨ledger, []⟩

/-- The ledger after the turn, whether it returned or raised. -/
def after : Ledger := (state (t.sent ledger)).ledger

/-- The first request of the turn. -/
def request? : Option Request := (state (t.sent ledger)).requests.head?

def systemPrompt : Text :=
  systemPromptFor t.host.settings ((getConversation ledger t.conversationId).bind
    Conversation.persona) t.host.registry

/-- The conversation with the message of the turn. -/
def history : List Message :=
  getMessages ledger t.conversationId ++
    [newMessage t.conversationId .user t.userText {} ledger.messages.next]

def room : Int := t.host.settings.chatContextBudget - estimateTokens (t.systemPrompt ledger)

/-- By the estimates of their contents, all messages fit. -/
def Fits : Prop :=
  estimateTokens (t.systemPrompt ledger) +
      ((spoken (t.history ledger)).map fun m => estimateTokens m.content).sum ≤
    t.host.settings.chatContextBudget

/-- The request carries the system prompt and all messages so far, in their order. -/
def Remembers (request : Request) : Prop :=
  ∃ provider model, request = ⟨provider, false, payload model
    (⟨↑"system", t.systemPrompt ledger⟩ :: (spoken (t.history ledger)).map Message.chat)⟩

end Turn

/-- Turns of any conversations, one after the other, from a ledger without messages. -/
def conversations : Machine Ledger Turn :=
  .ofStep (fun ledger => ledger.messages = .empty) fun ledger t => some (t.after ledger)

theorem getMessages_eq (ledger : Ledger) (conversationId : ConversationId) :
    getMessages ledger conversationId =
      ledger.messages.rows.filter fun m => decide (m.conversationId = conversationId) :=
  SerialTable.select_eq _ _

theorem getMessages_appended (ledger : Ledger) (conversationId : ConversationId) (role : Role)
    (content : Text) (fields : Fields) :
    getMessages (ledger.appended conversationId role content fields) conversationId =
      getMessages ledger conversationId ++
        [newMessage conversationId role content fields ledger.messages.next] := by
  refine (ledger.messages.select_append _ (fun _ => rfl) _).trans ?_
  simp [getMessages, newMessage]

/-- The context of a prepared turn is the window of the conversation. -/
theorem prepare_context {t : Turn} {ledger ledger' : Ledger} {p : Prepared}
    (h : (prepare t.host t.conversationId t.userText).run ledger = .ok p ledger') :
    p.context = buildContext t.host.settings (t.systemPrompt ledger) (t.history ledger) none := by
  unfold prepare at h
  obtain ⟨_, _, read, h⟩ := bind_eq_ok.mp h
  cases read
  cases found : getConversation ledger t.conversationId with
  | none =>
    rw [found] at h
    cases h
  | some convo =>
    rw [found] at h
    obtain ⟨⟨provider, model, name⟩, _, route, h⟩ := bind_eq_ok.mp h
    obtain ⟨-, rfl⟩ := raises_eq_ok.mp route
    obtain ⟨_, stored, appended, h⟩ := bind_eq_ok.mp h
    rw [run_append] at appended
    split at appended <;> cases appended
    obtain ⟨_, _, read, h⟩ := bind_eq_ok.mp h
    cases read
    cases h
    dsimp only
    rw [getMessages_appended, Turn.systemPrompt, found]
    rfl

/-! ## The first request of a turn -/

def FirstIs (request : Request) (requests : List Request) : Prop := requests.head? = some request

theorem keeps_first (upstream : Upstream) (request made : Request) :
    Keeps (FirstIs request) (complete upstream made) := by
  intro requests first
  rw [state_complete, FirstIs, List.head?_append, first]
  rfl

theorem first_of_complete (upstream : Upstream) (request : Request) :
    FirstIs request (state ((complete upstream request).run [])) := by
  rw [state_complete]
  rfl

/-- A prepared turn first asks with the context that was prepared. -/
theorem request_of_prepare {t : Turn} {ledger ledger' : Ledger} {p : Prepared}
    (prepared : (prepare t.host t.conversationId t.userText).run ledger = .ok p ledger')
    (rounds : maxRounds t.host ≠ 0) :
    t.request? ledger = some ⟨p.provider, false, payload p.model p.context⟩ := by
  let request : Request := ⟨p.provider, false, payload p.model p.context⟩
  have kept := fun context => keeps_first t.host.upstream request
    ⟨p.provider, false, payload p.model context⟩
  obtain ⟨left, more⟩ := Nat.exists_eq_succ_of_ne_zero rounds
  have asked : FirstIs request (state ((zoom onRequests (complete t.host.upstream request)).run
      (onLedger.set ⟨ledger, []⟩ ledger'))).requests := by
    rw [state_zoom]
    exact first_of_complete t.host.upstream request
  rw [Turn.request?, Turn.sent, send, run_bind_ok (run_zoom_ok prepared), more]
  have answered : FirstIs request (state ((sendRounds t.host t.conversationId p (left + 1) 0
      p.context ⟨.str [], .obj [], .str p.model⟩).run
        (onLedger.set ⟨ledger, []⟩ ledger'))).requests := by
    unfold sendRounds sendRound
    refine state_bind (I := fun s : Session => FirstIs request s.requests)
      (state_bind (I := fun s : Session => FirstIs request s.requests) asked fun _ => ?_)
      fun round => ?_
    · exact keeps_bind (keeps_raises _) fun _ => keeps_bind
        (keepsRequests_followUp t.host t.conversationId 0 p.context _) fun _ => keeps_pure _
    · obtain ⟨answer, next⟩ := round
      cases next with
      | none => exact keeps_pure _
      | some context =>
        exact keepsRequests_sendRounds t.host t.conversationId kept left 1 context answer
  exact state_bind (I := fun s : Session => FirstIs request s.requests) answered fun answer =>
    keepsRequests_reply t.host t.conversationId t.tags answer

/-- A turn that asks was prepared. -/
theorem prepared_of_request {t : Turn} {ledger : Ledger} {request : Request}
    (asks : t.request? ledger = some request) :
    ∃ p ledger', (prepare t.host t.conversationId t.userText).run ledger = .ok p ledger' ∧
      request = ⟨p.provider, false, payload p.model p.context⟩ := by
  cases prepared : (prepare t.host t.conversationId t.userText).run ledger with
  | error e ledger' =>
    rw [Turn.request?, Turn.sent, send, run_bind_error (run_zoom_error prepared)] at asks
    cases asks
  | ok p ledger' =>
    refine ⟨p, ledger', rfl, ?_⟩
    by_cases rounds : maxRounds t.host = 0
    · have silent : (state ((reply t.host t.conversationId p t.tags
          ⟨.str [], .obj [], .str p.model⟩).run (onLedger.set ⟨ledger, []⟩ ledger'))).requests =
            [] :=
        keepsRequests_reply (J := fun requests => requests = [])
          t.host t.conversationId t.tags _ _ rfl
      rw [Turn.request?, Turn.sent, send, run_bind_ok (run_zoom_ok prepared), rounds] at asks
      simp only [sendRounds, pure_bind, silent] at asks
      cases asks
    · rw [request_of_prepare prepared rounds] at asks
      exact (Option.some.inj asks).symm

theorem payload_context {model model' : Text} {context context' : List ChatMessage}
    (same : payload model context = payload model' context') : context = context' := by
  have injective : Function.Injective ChatMessage.json := by
    rintro ⟨role, content⟩ ⟨role', content'⟩ h
    simpa [ChatMessage.json] using h
  refine injective.list_map ?_
  simpa [payload] using (by simpa [payload] using same : model = model' ∧ _).2

theorem remembers_iff_chargesFit {t : Turn} {ledger : Ledger} {request : Request}
    (asks : t.request? ledger = some request) :
    t.Remembers ledger request ↔ ChargesFit (t.room ledger) (t.history ledger) := by
  obtain ⟨p, ledger', prepared, rfl⟩ := prepared_of_request asks
  rw [Turn.room, ← buildContext_eq_iff, ← prepare_context prepared]
  constructor
  · rintro ⟨provider, model, same⟩
    exact payload_context (congrArg Request.payload same)
  · intro same
    exact ⟨p.provider, p.model, by rw [same]⟩

/-! ## Where the charges come from -/

/-- The turn stored in this row what the provider counted last. -/
def Turn.Reports (t : Turn) (ledger : Ledger) (m : Message) : Prop :=
  ∃ p ledger' answer s figures,
    (prepare t.host t.conversationId t.userText).run ledger = .ok p ledger' ∧
    (sendRounds t.host t.conversationId p (maxRounds t.host) 0 p.context
      ⟨.str [], .obj [], .str p.model⟩).run ⟨ledger', []⟩ = .ok answer s ∧
    usageFigures answer.usage = .ok figures ∧ t.host.columns.int figures.1 = .ok m.promptTokens

/-- The rows that a turn adds before its answer. -/
def Uncounted (base rows : List Message) : Prop :=
  ∀ m ∈ rows, m ∈ base ∨ m.role ≠ .assistant ∧ m.promptTokens = none

theorem aside_uncounted (base : List Message) : Aside (Uncounted base) := by
  intro rows m other uncounted old a mem
  rcases List.mem_append.mp mem with mem | new
  · exact old a mem
  · rw [List.mem_singleton.mp new]
    exact .inr ⟨other, uncounted⟩

theorem promptTokens_answerFields {host : Host} {figures : Json × Json} {actualModel : Json}
    {fields : Fields} (h : answerFields host figures actualModel = .ok fields) :
    host.columns.int figures.1 = .ok fields.promptTokens := by
  unfold answerFields at h
  cases model : host.columns.text actualModel <;> rw [model] at h <;> try cases h
  cases prompt : host.columns.int figures.1 <;> rw [prompt] at h <;> try cases h
  cases completion : host.columns.int figures.2 <;> rw [completion] at h <;> cases h
  rfl

theorem reply_rows {host : Host} {conversationId : ConversationId} {p : Prepared}
    {tags : Option (Dict Text Json)} {answer : Answer} {s : Session} {m : Message}
    (mem : m ∈ (state ((reply host conversationId p tags answer).run s)).ledger.messages.rows) :
    m ∈ s.ledger.messages.rows ∨ m.role = .assistant ∧ ∃ figures,
      usageFigures answer.usage = .ok figures ∧
        host.columns.int figures.1 = .ok m.promptTokens := by
  unfold reply at mem
  cases figures_read : usageFigures answer.usage with
  | error =>
    rw [figures_read] at mem
    exact .inl mem
  | ok figures =>
    cases content_read : asText answer.content .typeError with
    | error =>
      rw [figures_read, raises_ok_bind, content_read] at mem
      exact .inl mem
    | ok content =>
      cases fields_read : answerFields host figures answer.actualModel with
      | error =>
        rw [figures_read, raises_ok_bind, content_read, raises_ok_bind, fields_read] at mem
        exact .inl mem
      | ok fields =>
        rw [figures_read, raises_ok_bind, content_read, raises_ok_bind, fields_read, raises_ok_bind,
          state_zoom, run_append] at mem
        split at mem
        · rcases List.mem_append.mp mem with old | new
          · exact .inl old
          · rw [List.mem_singleton.mp new]
            exact .inr ⟨rfl, figures, rfl, promptTokens_answerFields fields_read⟩
        · exact .inl mem

/-- Only its answer adds a row that carries a count. -/
theorem rows_after {t : Turn} {ledger : Ledger} {m : Message}
    (mem : m ∈ (t.after ledger).messages.rows) :
    m ∈ ledger.messages.rows ∨ (m.role ≠ .assistant ∧ m.promptTokens = none) ∨
      m.role = .assistant ∧ t.Reports ledger m := by
  have aside := aside_uncounted ledger.messages.rows
  have prepared_rows := keepsRows_prepare t.host aside t.conversationId t.userText ledger
    fun _ old => .inl old
  rw [Turn.after, Turn.sent, send] at mem
  cases prepared : (prepare t.host t.conversationId t.userText).run ledger with
  | error e ledger' =>
    rw [prepared] at prepared_rows
    rw [run_bind_error (run_zoom_error prepared)] at mem
    exact (prepared_rows m mem).imp_right .inl
  | ok p ledger' =>
    rw [prepared] at prepared_rows
    rw [run_bind_ok (run_zoom_ok prepared)] at mem
    have rounds_rows := keepsRows_sendRounds (p := p) t.host aside t.conversationId
      (maxRounds t.host) 0 p.context ⟨.str [], .obj [], .str p.model⟩
      (onLedger.set ⟨ledger, []⟩ ledger') prepared_rows
    cases answered : (sendRounds t.host t.conversationId p (maxRounds t.host) 0 p.context
        ⟨.str [], .obj [], .str p.model⟩).run (onLedger.set ⟨ledger, []⟩ ledger') with
    | error e s =>
      rw [answered] at rounds_rows
      rw [run_bind_error answered] at mem
      exact (rounds_rows m mem).imp_right .inl
    | ok answer s =>
      rw [answered] at rounds_rows
      rw [run_bind_ok answered] at mem
      rcases reply_rows mem with old | ⟨assistant, figures, read, stored⟩
      · exact (rounds_rows m old).imp_right .inl
      · exact .inr (.inr ⟨assistant, p, ledger', answer, s,
          figures, prepared, answered, read, stored⟩)

/-- Every row is charged for its content, or carries what an earlier turn stored. -/
theorem charges (e : conversations.Execution) {i : Nat} (hi : i ≤ e.length) :
    ∀ m ∈ (e.state i).messages.rows, (m.role ≠ .assistant ∧ m.promptTokens = none) ∨
      m.role = .assistant ∧ ∃ k, k < i ∧ (e.label k).Reports (e.state k) m := by
  induction i with
  | zero =>
    intro m mem
    have blank : (e.state 0).messages = .empty := e.start
    rw [blank] at mem
    cases mem
  | succ i ih =>
    intro m mem
    have next : e.state (i + 1) = (e.label i).after (e.state i) :=
      (Option.some.inj (e.next i hi)).symm
    rw [next] at mem
    rcases rows_after mem with old | plain | ⟨assistant, reports⟩
    · refine (ih (by omega) m old).imp_right ?_
      rintro ⟨assistant, k, hk, reports⟩
      exact ⟨assistant, k, by omega, reports⟩
    · exact .inl plain
    · exact .inr ⟨assistant, i, by omega, reports⟩

theorem cost_of_uncounted {m : Message} (uncounted : m.promptTokens = none) :
    cost m = estimateTokens m.content := by rw [cost, uncounted]

/-- In every run of turns, the next request carries the whole conversation if and only if the
charges fit: the estimate of its content for a message of the user, and for one of the
assistant what the provider counted for the whole prompt of an earlier turn. -/
theorem remembers_iff (e : conversations.Execution) {i : Nat} (hi : i ≤ e.length) {t : Turn}
    {request : Request} (asks : t.request? (e.state i) = some request) :
    (t.Remembers (e.state i) request ↔
        ChargesFit (t.room (e.state i)) (t.history (e.state i))) ∧
      ∀ m ∈ t.history (e.state i), (m.role ≠ .assistant ∧ cost m = estimateTokens m.content) ∨
        m.role = .assistant ∧ ∃ k, k < i ∧ (e.label k).Reports (e.state k) m := by
  refine ⟨remembers_iff_chargesFit asks, fun m mem => ?_⟩
  rcases List.mem_append.mp mem with old | new
  · rw [getMessages, SerialTable.select_eq] at old
    refine (charges e hi m (List.mem_filter.mp old).1).imp_left ?_
    rintro ⟨other, uncounted⟩
    exact ⟨other, cost_of_uncounted uncounted⟩
  · rw [List.mem_singleton.mp new]
    exact .inl ⟨by simp [newMessage], cost_of_uncounted rfl⟩

/-! ## Three turns with a provider that counts its prompts -/

section ThreeTurns

def tokensOf : Json → Int
  | .obj fields =>
    match Dict.get? fields ↑"content" with
    | some (.str content) => estimateTokens content
    | _ => 0
  | _ => 0

/-- The estimates of all messages of a request. -/
def promptTokens (request : Request) : Int :=
  match request.payload.get? ↑"messages" with
  | some (.arr messages) => (messages.map tokensOf).sum
  | _ => 0

def countedAnswer (n : Int) : Json :=
  .obj [(↑"model", .str ↑"m:free"),
    (↑"choices", .arr [.obj [(↑"message", .obj [(↑"content", .str ↑"ok")])]]),
    (↑"usage", .obj [(↑"prompt_tokens", .int n)])]

def counter : Host where
  settings := { chatContextBudget := 100 }
  registry := [(↑"chat-assistant",
    { manifest := { name := ↑"chat-assistant" }, prompt := ↑"Be brief." })]
  upstream := {
    py := plainPython
    installedTags := []
    respond := fun requests =>
      .ok ⟨200, [], .ok (countedAnswer ((requests.getLast?.map promptTokens).getD 0))⟩
    openStream := fun _ => .error .httpError }
  columns := plainColumns
  runTool _ := .error .toolError
  durationMs := 7

def topic (c : Nat) : Turn := ⟨counter, ↑"c", List.replicate 80 c, none⟩

def threeTurns : conversations.Execution :=
  Machine.replay _ (.started { id := ↑"c" }) rfl
    [topic 97, topic 98, topic 99] (topic 97) (by decide +kernel)

theorem secondTopic_remembers : ∃ request,
    (topic 98).request? (threeTurns.state 1) = some request ∧
      (topic 98).Remembers (threeTurns.state 1) request := by
  have asked : ((topic 98).request? (threeTurns.state 1)).isSome = true := by
    simp only [threeTurns, Machine.replay, Turn.request?, Turn.after, Turn.sent, send, prepare,
      getMessages_eq]
    decide +kernel
  obtain ⟨request, asks⟩ := Option.isSome_iff_exists.mp asked
  refine ⟨request, asks, (remembers_iff threeTurns (i := 1) (by decide) asks).1.mpr ?_⟩
  simp only [threeTurns, Machine.replay, Turn.history, Turn.after, Turn.sent, send, prepare,
    getMessages_eq]
  decide +kernel

/-- By the estimates the conversation takes 68 of the 100 tokens, and its first message is gone. -/
theorem thirdTopic_forgets : ∃ provider model context,
    threeTurns.label 2 = topic 99 ∧
      (topic 99).request? (threeTurns.state 2) =
        some ⟨provider, false, payload model context⟩ ∧
      (topic 99).Fits (threeTurns.state 2) ∧
      ∃ m ∈ spoken ((topic 99).history (threeTurns.state 2)), m.chat ∉ context := by
  have asked : ((topic 99).request? (threeTurns.state 2)).isSome = true := by
    simp only [threeTurns, Machine.replay, Turn.request?, Turn.after, Turn.sent, send, prepare,
      getMessages_eq]
    decide +kernel
  obtain ⟨request, asks⟩ := Option.isSome_iff_exists.mp asked
  obtain ⟨p, ledger', prepared, rfl⟩ := prepared_of_request asks
  refine ⟨p.provider, p.model, p.context, rfl, asks, ?_, ?_⟩
  · simp only [Turn.Fits, threeTurns, Machine.replay, Turn.history, Turn.after, Turn.sent, send,
      prepare, getMessages_eq]
    decide +kernel
  · rw [prepare_context (t := topic 99) prepared]
    simp only [threeTurns, Machine.replay, Turn.history, Turn.after, Turn.sent, send, prepare,
      getMessages_eq]
    decide +kernel

end ThreeTurns

end AgenticOctopus.Chat
