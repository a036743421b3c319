import Mathlib.Data.List.TakeWhile
import AgenticOctopus.Chat.Streaming

/-!
# How a streamed round is told apart

What `send_stream` knows of a round when part of its text has arrived: nothing yet, that it
is a tool round, or that it is not and was passed on. The first characters decide, so a
round that starts with the marker is never mistaken, however it is cut, as long as no line
break stands before the marker.
-/
namespace AgenticOctopus.Chat
open Foundation Providers
open Spine (LoadedAgent Registry)

/-! ## Leading white space -/

theorem lstrip_append_of_space {ws t : Text} (space : ∀ c ∈ ws, Text.isSpace c = true) :
    Text.lstrip (ws ++ t) = Text.lstrip t := by
  unfold Text.lstrip
  rw [List.dropWhile_append]
  have gone : ws.dropWhile Text.isSpace = [] := List.dropWhile_eq_nil_iff.mpr space
  simp [gone]

theorem lstrip_append_of_ne_nil {t : Text} (u : Text) (ink : Text.lstrip t ≠ []) :
    Text.lstrip (t ++ u) = Text.lstrip t ++ u := by
  unfold Text.lstrip at ink ⊢
  rw [List.dropWhile_append]
  simp [ink]

theorem startswith_append {t p : Text} (u : Text) (h : Text.startswith t p = true) :
    Text.startswith (t ++ u) p = true := by
  rw [Text.startswith_iff] at h ⊢
  exact h.trans (List.prefix_append t u)

theorem marker_of_lstrip {t : Text} (u : Text)
    (h : Text.startswith (Text.lstrip t) toolMarker = true) :
    Text.startswith (Text.lstrip (t ++ u)) toolMarker = true := by
  have ink : Text.lstrip t ≠ [] := by
    intro blank
    rw [blank] at h
    cases h
  rw [lstrip_append_of_ne_nil u ink]
  exact startswith_append u h

theorem length_of_marker {t : Text} (h : Text.startswith t toolMarker = true) :
    toolMarker.length ≤ t.length := (Text.startswith_iff.mp h).length_le

/-! ## Announced calls -/

/-- The text starts with the marker, but for white space without a line feed. -/
def Announced (text : Text) : Prop :=
  ∃ ws rest, text = ws ++ (toolMarker ++ rest) ∧ ∀ c ∈ ws, Text.isSpace c = true ∧ c ≠ 10

theorem lstrip_of_prefix_marker {h rest : Text} (pre : h <+: toolMarker ++ rest) :
    Text.lstrip h = h := by
  obtain ⟨tail, whole⟩ := pre
  cases h with
  | nil => rfl
  | cons c h =>
    have first : c = 84 := by
      have heads := congrArg List.head? whole
      simpa [toolMarker, Text.ofString] using heads
    subst first
    rfl

/-- By the time the held text decides, an announced call shows its marker. -/
theorem marker_of_announced {held rest : Text} (announced : Announced (held ++ rest))
    (decides : toolMarker.length ≤ (Text.lstrip held).length ∨ 10 ∈ held) :
    Text.startswith (Text.lstrip held) toolMarker = true := by
  obtain ⟨ws, tail, whole, space⟩ := announced
  have pre : held <+: ws ++ (toolMarker ++ tail) := ⟨rest, whole⟩
  have blank : ∀ c ∈ ws, Text.isSpace c = true := fun c hc => (space c hc).1
  rcases List.prefix_or_prefix_of_prefix pre (List.prefix_append ws _) with short | long
  · -- only white space so far: nothing decides
    have nothing : Text.lstrip held = [] :=
      List.dropWhile_eq_nil_iff.mpr fun c hc => blank c (short.subset hc)
    rcases decides with many | newline
    · rw [nothing] at many
      exact absurd many (by decide)
    · exact ((space 10 (short.subset newline)).2 rfl).elim
  · obtain ⟨seen, rfl⟩ := long
    have seen_pre : seen <+: toolMarker ++ tail := (List.prefix_append_right_inj ws).mp pre
    rw [lstrip_append_of_space blank, lstrip_of_prefix_marker seen_pre] at decides ⊢
    rcases Nat.lt_or_ge seen.length toolMarker.length with few | many
    · have inside : seen <+: toolMarker :=
        List.prefix_of_prefix_length_le seen_pre (List.prefix_append _ _) few.le
      rcases decides with many | newline
      · omega
      · rcases List.mem_append.mp newline with early | late
        · exact ((space 10 early).2 rfl).elim
        · exact absurd (inside.subset late) (by decide)
    · exact Text.startswith_iff.mpr
        (List.prefix_of_prefix_length_le (List.prefix_append _ _) seen_pre many)

theorem marker_of_announced_whole {text : Text} (announced : Announced text) :
    Text.startswith (Text.lstrip text) toolMarker = true := by
  obtain ⟨ws, rest, rfl, space⟩ := announced
  rw [lstrip_append_of_space fun c hc => (space c hc).1,
    lstrip_of_prefix_marker (List.prefix_rfl)]
  exact Text.startswith_iff.mpr (List.prefix_append _ _)

/-! ## A consumer that reads to the end -/

/-- The consumer never closes the generator. -/
def toTheEnd : Consumer := fun _ => false

section ToTheEnd

variable (host : Host) (p : Prepared)

theorem run_emit (event : StreamEvent) (s : Streaming) :
    (emit toTheEnd event).run s = .ok () { s with yielded := s.yielded ++ [event] } := rfl

theorem run_passOn (content : Json) (s : Streaming) :
    (passOn toTheEnd content).run s =
      .ok () { s with parts := s.parts ++ [content], yielded := s.yielded ++ [.chunk content] } :=
  rfl

/-- The lead-in as parts: none if there is nothing to say. -/
def leadParts (lead : Text) : List Json := if lead = [] then [] else [.str lead]

theorem joined_leadParts (lead text : Text) :
    joined (leadParts lead ++ [.str text]) = .ok (lead ++ text) := by
  refine joined_concat ?_ text
  unfold leadParts
  split_ifs with blank
  · rw [blank]
    rfl
  · exact joined_text lead

theorem run_prefixChunk {s : Streaming} (first : s.prefixDone = false) {lead : Text}
    (is : routedModelPrefix host.settings host.upstream.py p.model s.actualModel = lead) :
    (prefixChunk host p).run s =
      .ok lead { s with prefixDone := true, parts := s.parts ++ leadParts lead } := by
  subst is
  unfold prefixChunk leadParts
  rw [EStateM.run_bind, EStateM.run_get]
  simp only [first, Bool.false_eq_true, if_false]
  split_ifs
  · rw [List.append_nil]
    rfl
  · rfl

theorem run_flush {text : Text} {s : Streaming} (first : s.prefixDone = false) {lead : Text}
    (is : routedModelPrefix host.settings host.upstream.py p.model s.actualModel = lead) :
    (flush host toTheEnd p text).run s =
      .ok ()
        { s with
          prefixDone := true
          parts := s.parts ++ leadParts lead ++ [.str text]
          yielded := s.yielded ++ (leadParts lead).map .chunk ++ [.chunk (.str text)] } := by
  unfold flush
  rw [Program.run_bind_ok (run_prefixChunk host p first is)]
  by_cases blank : lead = []
  · simp [blank, leadParts, run_passOn]
  · rw [if_pos blank, Program.run_bind_ok (run_emit _ _), run_passOn]
    simp only [leadParts, blank, if_false, List.map_cons, List.map_nil]

/-! ## Reading a round -/

/-- What the generator knows and has done when `seen` of a round's text has arrived; `lead` is
the lead-in that it will use. -/
inductive Knows (lead : Text) (parts : List Json) (prefixDone : Bool) (r : RoundState)
    (seen : Text) : Prop where
  | nothing (undecided : r.decided = false) (held : r.held = seen) (silent : parts = [])
      (first : prefixDone = false) (few : (Text.lstrip seen).length < toolMarker.length)
      (line : 10 ∉ seen)
  | toolRound (decided : r.decided = true) (tool : r.toolRound = true) (silent : parts = [])
      (first : prefixDone = false) (marker : startsToolRound p (Text.lstrip seen) = true)
  | plain (decided : r.decided = true) (plain : r.toolRound = false)
      (shown : joined parts = .ok (lead ++ seen))
      (never : ∀ rest, p.allowedTools ≠ [] → ¬ Announced (seen ++ rest))

theorem startsToolRound_iff {text : Text} :
    startsToolRound p text = true ↔
      p.allowedTools ≠ [] ∧ Text.startswith text toolMarker = true := by
  simp [startsToolRound]

theorem not_announced {held : Text} (no : startsToolRound p (Text.lstrip held) = false)
    (decides : toolMarker.length ≤ (Text.lstrip held).length ∨ 10 ∈ held) (rest : Text)
    (tools : p.allowedTools ≠ []) : ¬ Announced (held ++ rest) := by
  intro announced
  have yes := (startsToolRound_iff p).mpr ⟨tools, marker_of_announced announced decides⟩
  rw [no] at yes
  cases yes

theorem onDelta_knows {lead seen text : Text} {s : Streaming} {r : RoundState}
    (knows : Knows p lead s.parts s.prefixDone r seen) (ink : text ≠ [])
    (is : routedModelPrefix host.settings host.upstream.py p.model s.actualModel = lead) :
    ∃ r' parts yielded prefixDone,
      (onDelta host toTheEnd p r (.str text)).run s =
          .ok r' { s with parts, yielded, prefixDone } ∧
        Knows p lead parts prefixDone r' (seen ++ text) ∧
        r'.roundText = r.roundText ++ [.str text] := by
  unfold onDelta
  cases knows with
  | toolRound decided tool silent first marker =>
    obtain ⟨tools, starts⟩ := (startsToolRound_iff p).mp marker
    refine ⟨{ r with roundText := r.roundText ++ [.str text] }, s.parts, s.yielded, s.prefixDone,
      by simp [decided, tool], ?_, rfl⟩
    exact .toolRound decided tool silent first
      ((startsToolRound_iff p).mpr ⟨tools, marker_of_lstrip text starts⟩)
  | plain decided plain shown never =>
    refine ⟨{ r with roundText := r.roundText ++ [.str text] }, s.parts ++ [.str text],
      s.yielded ++ [.chunk (.str text)], s.prefixDone, ?_, .plain decided plain ?_ ?_, rfl⟩
    · simp only [decided, plain, Bool.not_false, if_true]
      rw [Program.run_bind_ok (run_passOn (.str text) s)]
      rfl
    · rw [← List.append_assoc]
      exact joined_concat shown text
    · intro rest tools
      rw [List.append_assoc]
      exact never (text ++ rest) tools
  | nothing undecided held silent first few line =>
    subst held
    have ne : r.held ++ text ≠ [] := by simp [ink]
    simp only [undecided, Bool.false_eq_true, if_false, asText_str, Program.raises_ok_bind]
    by_cases decides :
        toolMarker.length ≤ (Text.lstrip (r.held ++ text)).length ∨ 10 ∈ r.held ++ text
    · rw [if_pos decides]
      cases tool : startsToolRound p (Text.lstrip (r.held ++ text)) with
      | true =>
        refine ⟨_, s.parts, s.yielded, s.prefixDone, rfl, ?_, rfl⟩
        exact .toolRound rfl rfl silent first tool
      | false =>
        refine ⟨⟨r.held ++ text, true, false, r.roundText ++ [.str text]⟩,
          s.parts ++ leadParts lead ++ [.str (r.held ++ text)],
          s.yielded ++ (leadParts lead).map .chunk ++ [.chunk (.str (r.held ++ text))], true, ?_,
          .plain rfl rfl ?_ (not_announced p tool decides), rfl⟩
        · simp only [Bool.not_false, Bool.true_and, decide_eq_true_eq]
          rw [if_pos ne, Program.run_bind_ok (run_flush host p first is)]
          rfl
        · rw [silent, List.nil_append]
          exact joined_leadParts lead _
    · rw [if_neg decides]
      push Not at decides
      refine ⟨_, s.parts, s.yielded, s.prefixDone, rfl, ?_, rfl⟩
      exact .nothing rfl rfl silent first decides.1 decides.2

/-- The text that these events carry. -/
def textOf : List SseEvent → Text
  | [] => []
  | .delta (.str text) :: events => text ++ textOf events
  | _ :: events => textOf events

/-- The first event that is not a usage figure names this model. -/
def NamesFirst (actualModel : Json) : List SseEvent → Prop
  | .model m :: _ => m = actualModel
  | .usage _ :: events => NamesFirst actualModel events
  | _ => False

/-- The events cut a text as they like, name this model before it if it is not known yet, and
this usage at any time. -/
structure Feeds (actualModel usage : Json) (s : Streaming) (events : List SseEvent) : Prop where
  cut : ∀ content, .delta content ∈ events → ∃ text, text ≠ [] ∧ content = .str text
  models : ∀ m, .model m ∈ events → m = actualModel
  named : s.actualModel = actualModel ∨ NamesFirst actualModel events
  usages : ∀ u, .usage u ∈ events → u = usage
  used : s.usage = usage ∨ .usage usage ∈ events

theorem consume_knows {lead : Text} {actualModel usage : Json} {events : List SseEvent}
    (is : routedModelPrefix host.settings host.upstream.py p.model actualModel = lead) :
    ∀ {s : Streaming} {r : RoundState} {seen : Text}, Knows p lead s.parts s.prefixDone r seen →
      joined r.roundText = .ok seen → Feeds actualModel usage s events →
      ∃ r' parts yielded prefixDone,
        (consume host toTheEnd p r events).run s =
            .ok r' { s with parts, yielded, prefixDone, actualModel, usage } ∧
          Knows p lead parts prefixDone r' (seen ++ textOf events) ∧
          joined r'.roundText = .ok (seen ++ textOf events) := by
  induction events with
  | nil =>
    intro s r seen knows whole feeds
    obtain rfl : s.actualModel = actualModel := feeds.named.resolve_right id
    obtain rfl : s.usage = usage := feeds.used.resolve_right List.not_mem_nil
    refine ⟨r, s.parts, s.yielded, s.prefixDone, rfl, ?_, ?_⟩
    · rwa [textOf, List.append_nil]
    · rwa [textOf, List.append_nil]
  | cons event events ih =>
    intro s r seen knows whole feeds
    have cut : ∀ content, .delta content ∈ events → ∃ text, text ≠ [] ∧ content = .str text :=
      fun content h => feeds.cut content (List.mem_cons_of_mem _ h)
    have models : ∀ m, .model m ∈ events → m = actualModel :=
      fun m h => feeds.models m (List.mem_cons_of_mem _ h)
    have usages : ∀ u, .usage u ∈ events → u = usage :=
      fun u h => feeds.usages u (List.mem_cons_of_mem _ h)
    cases event with
    | usage u =>
      obtain rfl := feeds.usages u List.mem_cons_self
      exact ih (s := { s with usage := u }) knows whole
        ⟨cut, models, feeds.named, usages, .inl rfl⟩
    | model m =>
      obtain rfl := feeds.models m List.mem_cons_self
      refine ih (s := { s with actualModel := m }) knows whole
        ⟨cut, models, .inl rfl, usages, ?_⟩
      exact feeds.used.imp_right fun h => (List.mem_cons.mp h).resolve_left (by simp)
    | delta content =>
      obtain ⟨text, ink, rfl⟩ := feeds.cut content List.mem_cons_self
      have known : s.actualModel = actualModel := feeds.named.resolve_right id
      obtain ⟨r₁, parts, yielded, prefixDone, ran, knows₁, one_more⟩ :=
        onDelta_knows host p knows ink (known ▸ is)
      have later : Feeds actualModel usage { s with parts, yielded, prefixDone } events :=
        ⟨cut, models, .inl known, usages,
          feeds.used.imp_right fun h => (List.mem_cons.mp h).resolve_left (by simp)⟩
      have text_so_far : joined r₁.roundText = .ok (seen ++ text) := by
        rw [one_more]
        exact joined_concat whole text
      obtain ⟨r₂, parts₂, yielded₂, prefixDone₂, ran₂, knows₂, whole₂⟩ :=
        ih knows₁ text_so_far later
      rw [textOf, ← List.append_assoc]
      refine ⟨r₂, parts₂, yielded₂, prefixDone₂, ?_, knows₂, whole₂⟩
      rw [consume, Program.run_bind_ok ran, ran₂]

/-- A whole round: either it is a tool round, of which nothing was shown, or it was shown. -/
theorem decide_round {lead text : Text} {s : Streaming} {r : RoundState}
    (knows : Knows p lead s.parts s.prefixDone r text) (ink : text ≠ [])
    (is : routedModelPrefix host.settings host.upstream.py p.model s.actualModel = lead) :
    ((decideLate host toTheEnd p r text).run s = .ok true s ∧ s.parts = [] ∧ s.prefixDone = false ∧
        startsToolRound p (Text.lstrip text) = true) ∨
      ∃ parts yielded prefixDone,
        (decideLate host toTheEnd p r text).run s =
            .ok false { s with parts, yielded, prefixDone } ∧
          joined parts = .ok (lead ++ text) ∧ (p.allowedTools ≠ [] → ¬ Announced text) := by
  unfold decideLate
  cases knows with
  | toolRound decided tool silent first marker =>
    exact .inl ⟨by simp [decided, tool], silent, first, marker⟩
  | plain decided plain shown never =>
    refine .inr ⟨s.parts, s.yielded, s.prefixDone, by simp [decided, plain], shown, ?_⟩
    intro tools
    simpa using never [] tools
  | nothing undecided held silent first few line =>
    have no : startsToolRound p (Text.lstrip text) = false := by
      refine Bool.eq_false_iff.mpr fun yes => ?_
      have long := length_of_marker ((startsToolRound_iff p).mp yes).2
      omega
    refine .inr ⟨s.parts ++ leadParts lead ++ [.str text],
      s.yielded ++ (leadParts lead).map .chunk ++ [.chunk (.str text)], true, ?_, ?_, ?_⟩
    · simp only [undecided, Bool.false_eq_true, if_false, no, Bool.not_false, Bool.true_and,
        decide_eq_true_eq]
      rw [if_pos ink, Program.run_bind_ok (run_flush host p first is)]
      rfl
    · rw [silent, List.nil_append]
      exact joined_leadParts lead text
    · intro tools announced
      have yes := (startsToolRound_iff p).mpr ⟨tools, marker_of_announced_whole announced⟩
      rw [no] at yes
      cases yes

end ToTheEnd

end AgenticOctopus.Chat
