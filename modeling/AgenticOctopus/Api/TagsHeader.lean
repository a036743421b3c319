import AgenticOctopus.Chat.Tags
import AgenticOctopus.Foundation.Lines
import AgenticOctopus.Providers.Routing

/-!
# The header of tags

A client of the shim sends its tags as `k=v,k2=v2` in a header. Bad pairs are skipped and a key
that comes twice keeps its last value; what is left can be spelled as a header again, which is
read as the same tags, and goes before the tags that the shim sets itself.
-/
namespace AgenticOctopus.Api.OpenAICompat
open Foundation Providers

/-! ## Reading the header -/

def comma : Nat := 44

def equals : Nat := 61

/-- `pair.partition("=")` of one pair, which is skipped without an `=` or without a key. -/
def readPair (tags : Dict Text Text) (pair : Text) : Dict Text Text :=
  match pair.dropWhile (· ≠ equals) with
  | [] => tags
  | _ :: v =>
    let k := Text.strip (pair.takeWhile (· ≠ equals))
    if k = [] then tags else tags.set k (Text.strip v)

/-- A header that is missing or empty has no tags. -/
def parseTagsHeader (raw : Option Text) : Dict Text Text :=
  match raw with
  | none => []
  | some raw => if raw = [] then [] else (raw.split comma).foldl readPair []

/-! ## Spelling it -/

/-- A key and a value that a header can spell. -/
structure Spellable (k v : Text) : Prop where
  some : k ≠ []
  key_trimmed : Text.strip k = k
  key_comma : comma ∉ k
  key_equals : equals ∉ k
  value_trimmed : Text.strip v = v
  value_comma : comma ∉ v

structure HeaderTags (tags : Dict Text Text) : Prop where
  distinct : (Dict.keys tags).Nodup
  spellable : ∀ k v, (k, v) ∈ tags → Spellable k v

def spellPair (p : Text × Text) : Text := p.1 ++ equals :: p.2

def spellHeader (tags : Dict Text Text) : Text := [comma].intercalate (tags.map spellPair)

/-! ## What is read can be spelled -/

/-- A pair is skipped, or its key and value can be spelled. -/
theorem readPair_cases (tags : Dict Text Text) {pair : Text} (whole : comma ∉ pair) :
    readPair tags pair = tags ∨ ∃ k v, Spellable k v ∧ readPair tags pair = tags.set k v := by
  unfold readPair
  split
  case h_1 => exact .inl rfl
  case h_2 c v rest =>
    dsimp only
    split_ifs with none
    · exact .inl rfl
    · have suffix : c :: v <:+ pair := rest ▸ List.dropWhile_suffix _
      refine .inr ⟨_, _, ⟨none, Text.strip_strip _, fun mem => whole ?_, fun mem => ?_,
        Text.strip_strip v, fun mem => whole ?_⟩, rfl⟩
      · exact (List.takeWhile_prefix _).subset (Text.strip_subset _ mem)
      · exact absurd (List.mem_takeWhile_imp (Text.strip_subset _ mem)) (by simp)
      · exact suffix.subset (List.mem_cons_of_mem c (Text.strip_subset v mem))

theorem headerTags_set {tags : Dict Text Text} (h : HeaderTags tags) {k v : Text}
    (spellable : Spellable k v) : HeaderTags (tags.set k v) := by
  have distinct := Dict.nodup_set h.distinct k v
  refine ⟨distinct, fun k' v' mem => ?_⟩
  rw [Dict.mem_iff_get? distinct, Dict.get?_set] at mem
  split_ifs at mem with same
  · cases mem
    exact same ▸ spellable
  · exact h.spellable k' v' ((Dict.mem_iff_get? h.distinct).mpr mem)

theorem headerTags_foldl {pairs : List Text} (whole : ∀ pair ∈ pairs, comma ∉ pair)
    {tags : Dict Text Text} (h : HeaderTags tags) : HeaderTags (pairs.foldl readPair tags) := by
  induction pairs generalizing tags with
  | nil => exact h
  | cons pair pairs ih =>
    refine ih (fun pair mem => whole pair (List.mem_cons_of_mem _ mem)) ?_
    obtain skipped | ⟨k, v, spellable, read⟩ := readPair_cases tags (whole pair List.mem_cons_self)
    · rwa [skipped]
    · rw [read]
      exact headerTags_set h spellable

theorem not_mem_split (sep : Nat) (t : Text) : ∀ part ∈ t.split sep, sep ∉ part := by
  unfold Text.split
  induction t with
  | nil => simp
  | cons c t ih =>
    obtain ⟨first, rest, parts⟩ := List.exists_cons_of_ne_nil (List.splitOn_ne_nil sep t)
    rw [List.splitOn_cons_eq_if_modifyHead, parts, List.modifyHead_cons]
    rw [parts] at ih
    grind

theorem headerTags_parse (raw : Option Text) : HeaderTags (parseTagsHeader raw) := by
  have none : HeaderTags [] := ⟨List.nodup_nil, by simp⟩
  unfold parseTagsHeader
  split
  · exact none
  case h_2 raw =>
    split_ifs
    · exact none
    · exact headerTags_foldl (not_mem_split comma raw) none

/-! ## What is spelled is read -/

theorem readPair_spellPair (tags : Dict Text Text) {k v : Text} (h : Spellable k v) :
    readPair tags (spellPair (k, v)) = tags.set k v := by
  have key : ∀ c ∈ k, decide (c ≠ equals) = true := by
    intro c mem
    have other : c ≠ equals := fun same => h.key_equals (same ▸ mem)
    simpa using other
  have before : (spellPair (k, v)).takeWhile (· ≠ equals) = k := by
    rw [spellPair, List.takeWhile_append_of_pos key]
    simp
  have after : (spellPair (k, v)).dropWhile (· ≠ equals) = equals :: v := by
    rw [spellPair, List.dropWhile_append_of_pos key]
    simp
  unfold readPair
  rw [after, before]
  simp [h.some, h.key_trimmed, h.value_trimmed]

theorem foldl_spelled {tags : Dict Text Text} (spellable : ∀ k v, (k, v) ∈ tags → Spellable k v)
    (before : Dict Text Text) : (tags.map spellPair).foldl readPair before = before.update tags := by
  induction tags generalizing before with
  | nil => rfl
  | cons p tags ih =>
    rw [List.map_cons, List.foldl_cons,
      readPair_spellPair before (spellable p.1 p.2 List.mem_cons_self),
      ih fun k v mem => spellable k v (List.mem_cons_of_mem p mem)]
    rfl

theorem parse_spellHeader {tags : Dict Text Text} (h : HeaderTags tags) :
    parseTagsHeader (some (spellHeader tags)) = tags := by
  by_cases none : tags = []
  · subst none
    rfl
  have whole : ∀ pair ∈ tags.map spellPair, comma ∉ pair := by
    intro pair mem
    obtain ⟨⟨k, v⟩, there, rfl⟩ := List.mem_map.mp mem
    have one := h.spellable k v there
    have apart : comma ≠ equals := by decide
    simp [spellPair, one.key_comma, one.value_comma, apart]
  have parts : (spellHeader tags).split comma = tags.map spellPair :=
    List.splitOn_intercalate comma whole (by simpa using none)
  have fresh : List.Disjoint (Dict.keys ([] : Dict Text Text)) (Dict.keys tags) :=
    List.disjoint_nil_left _
  have read : (tags.map spellPair).foldl readPair [] = tags := by
    rw [foldl_spelled h.spellable, Dict.update_of_disjoint h.distinct fresh]
    rfl
  have ink : spellHeader tags ≠ [] := by
    intro empty
    have pair : [] ∈ tags.map spellPair := by
      rw [← parts, empty]
      exact List.mem_singleton_self []
    obtain ⟨p, -, blank⟩ := List.mem_map.mp pair
    simp [spellPair] at blank
  unfold parseTagsHeader
  dsimp only
  rw [if_neg ink, parts, read]

/-! ## The tags of a completion -/

variable (py : Interpreter)

/-- What the shim says of a request of its own. -/
def shimTags (providerName model : Text) : Dict Text Json :=
  [(↑"surface", .str ↑"openai-compat"), (↑"provider", .str providerName),
    (↑"routed", .bool (model = OpenRouter.autoModel))]

def headerJson (header : Option Text) : Dict Text Json :=
  (parseTagsHeader header).map fun p => (p.1, .str p.2)

/-- The tags in the log of a request to the shim. -/
def completionTags (providerName model : Text) (header : Option Text) : Dict Text Json :=
  Chat.mergeTags py (shimTags providerName model) (some (headerJson header))

theorem get?_headerJson (header : Option Text) (k : Text) :
    Dict.get? (headerJson header) k = ((parseTagsHeader header).get? k).map Json.str := by
  unfold headerJson
  induction parseTagsHeader header with
  | nil => rfl
  | cons p tags ih =>
    rw [List.map_cons, Dict.get?_cons, ih, Dict.get?_cons]
    split_ifs <;> rfl

theorem nodup_headerJson (header : Option Text) : (Dict.keys (headerJson header)).Nodup := by
  have same : Dict.keys (headerJson header) = Dict.keys (parseTagsHeader header) := by
    simp [Dict.keys, headerJson]
  exact same ▸ (headerTags_parse header).distinct

/-- A short key of the merged tags. -/
theorem get?_mergeTags {k : Text} (short : k.length < 64) {auto : Dict Text Json}
    (distinct : (Dict.keys auto).Nodup) (manual : Dict Text Json) :
    Dict.get? (Chat.mergeTags py auto (some manual)) k =
      (((auto.update manual).get? k).filter (!Chat.isNull ·)).map fun v =>
        .str ((v.toStr py).take 200) := by
  have updated := Dict.nodup_update distinct manual
  rw [Chat.mergeTags_eq, Option.getD_some,
    Chat.get?_foldl_cutTag short py (Dict.nodup_filter updated _),
    Dict.get?_filter updated (!Chat.isNull ·)]
  cases ((auto.update manual).get? k).filter (!Chat.isNull ·) <;> rfl

/-- A short key has what the header gives it, and else what the shim says. -/
theorem get?_completionTags (providerName model : Text) (header : Option Text) {k : Text}
    (short : k.length < 64) :
    Dict.get? (completionTags py providerName model header) k =
      match (parseTagsHeader header).get? k with
      | some v => some (.str (v.take 200))
      | none => Dict.get? (completionTags py providerName model none) k := by
  have distinct : (Dict.keys (shimTags providerName model)).Nodup := by
    have three : ([↑"surface", ↑"provider", ↑"routed"] : List Text).Nodup := by decide
    exact three
  have manual := get?_headerJson header k
  unfold completionTags
  rw [get?_mergeTags py short distinct, get?_mergeTags py short distinct]
  cases given : (parseTagsHeader header).get? k with
  | none =>
    rw [given, Option.map_none] at manual
    rw [Dict.get?_update_of_none _ _ manual]
    rfl
  | some v =>
    rw [given, Option.map_some] at manual
    have fresh : List.Disjoint (Dict.keys ([] : Dict Text Json)) (Dict.keys (headerJson header)) :=
      List.disjoint_nil_left _
    rw [Dict.get?_update_of_some (by simp [manual]) _ [],
      Dict.update_of_disjoint (nodup_headerJson header) fresh, List.nil_append, manual]
    rfl

/-- What is read of a header are tags that a header can spell, every such tags are read as they
are spelled, and they go before the tags of the shim. -/
theorem header_tags_round_trip :
    (∀ header, HeaderTags (parseTagsHeader header)) ∧
    (∀ tags, HeaderTags tags → parseTagsHeader (some (spellHeader tags)) = tags) ∧
    ∀ providerName model header k, k.length < 64 →
      Dict.get? (completionTags py providerName model header) k =
        match (parseTagsHeader header).get? k with
        | some v => some (.str (v.take 200))
        | none => Dict.get? (completionTags py providerName model none) k :=
  ⟨headerTags_parse, fun _ => parse_spellHeader,
    fun providerName model header _ => get?_completionTags py providerName model header⟩

def teamHeader : Option Text := some ↑" team = a=b ,skipped,team=c"

theorem teamHeader_read :
    parseTagsHeader (some (spellHeader [(↑"team", ↑"c")])) = [(↑"team", ↑"c")] ∧
      Dict.get? (completionTags plainPython ↑"openrouter" ↑"octo/auto" teamHeader) ↑"team" =
        some (.str ↑"c") ∧
      Dict.get? (completionTags plainPython ↑"openrouter" ↑"octo/auto" teamHeader) ↑"surface" =
        Dict.get? (completionTags plainPython ↑"openrouter" ↑"octo/auto" none) ↑"surface" := by
  obtain ⟨spellable, read, logged⟩ := header_tags_round_trip plainPython
  have team : parseTagsHeader teamHeader = [(↑"team", ↑"c")] := by decide
  have tags := spellable teamHeader
  rw [team] at tags
  exact ⟨read _ tags, logged _ _ teamHeader ↑"team" (by decide),
    logged _ _ teamHeader ↑"surface" (by decide)⟩

end AgenticOctopus.Api.OpenAICompat
