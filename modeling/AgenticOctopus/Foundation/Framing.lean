import AgenticOctopus.Foundation.Program

/-!
# Reading a stream that arrives in chunks

What arrives is appended to a buffer, and whenever the buffer holds a separator, the block
before it is handled and taken off. How the stream was cut into chunks makes no difference.
-/
namespace AgenticOctopus.Foundation.Framing

variable {α ε σ : Type} [DecidableEq α]

/-- `t.split(sep, 1)` where `t` holds the separator. -/
def splitOnce (sep : List α) : List α → Option (List α × List α)
  | [] => none
  | c :: t =>
    if sep.isPrefixOf (c :: t) then some ([], (c :: t).drop sep.length)
    else (splitOnce sep t).map fun p => (c :: p.1, p.2)

theorem eq_of_splitOnce {sep t block rest : List α} (h : splitOnce sep t = some (block, rest)) :
    t = block ++ (sep ++ rest) := by
  induction t generalizing block with
  | nil => cases h
  | cons c t ih =>
    unfold splitOnce at h
    split at h
    next starts =>
      obtain ⟨tail, whole⟩ := List.isPrefixOf_iff_prefix.mp starts
      rw [← whole, List.drop_left] at h
      cases h
      exact whole.symm
    next =>
      obtain ⟨⟨block', rest'⟩, later, same⟩ := Option.map_eq_some_iff.mp h
      cases same
      rw [ih later]
      rfl

theorem length_of_splitOnce {sep t block rest : List α} (h : splitOnce sep t = some (block, rest)) :
    t.length = block.length + sep.length + rest.length := by
  rw [eq_of_splitOnce h, List.length_append, List.length_append]
  omega

/-- What comes later does not move the first separator. -/
theorem splitOnce_append {sep t block rest : List α} (h : splitOnce sep t = some (block, rest))
    (u : List α) : splitOnce sep (t ++ u) = some (block, rest ++ u) := by
  induction t generalizing block with
  | nil => cases h
  | cons c t ih =>
    have room := length_of_splitOnce h
    have starts_iff : sep.isPrefixOf (c :: (t ++ u)) = sep.isPrefixOf (c :: t) := by
      rw [Bool.eq_iff_iff, List.isPrefixOf_iff_prefix, List.isPrefixOf_iff_prefix]
      refine ⟨fun starts => ?_, fun starts => starts.trans (List.prefix_append (c :: t) u)⟩
      exact List.prefix_of_prefix_length_le starts (List.prefix_append (c :: t) u) (by omega)
    unfold splitOnce at h
    rw [List.cons_append, splitOnce, starts_iff]
    split at h
    next starts =>
      cases h
      rw [if_pos starts, ← List.cons_append, List.drop_append_of_le_length (by omega)]
    next later_only =>
      obtain ⟨⟨block', rest'⟩, later, same⟩ := Option.map_eq_some_iff.mp h
      cases same
      rw [if_neg later_only, ih later]
      rfl

/-- A block in which the separator's first element does not occur ends at the separator. -/
theorem splitOnce_block {c : α} {block : List α} (s t : List α) (inside : c ∉ block) :
    splitOnce (c :: s) (block ++ (c :: s ++ t)) = some (block, t) := by
  induction block with
  | nil =>
    have starts : (c :: s).isPrefixOf (c :: s ++ t) = true :=
      List.isPrefixOf_iff_prefix.mpr (List.prefix_append _ t)
    rw [List.nil_append, List.cons_append, splitOnce, ← List.cons_append, if_pos starts,
      List.drop_left]
  | cons d block ih =>
    rw [List.mem_cons, not_or] at inside
    have other : (c :: s).isPrefixOf (d :: (block ++ (c :: s ++ t))) = false := by
      simp [List.isPrefixOf, inside.1]
    rw [List.cons_append, splitOnce, other, ih inside.2]
    rfl

/-- Blocks are taken off one after the other. -/
theorem blocks_induction {c : α} {s : List α} {motive : List α → Prop}
    (rest : ∀ t, splitOnce (c :: s) t = none → motive t)
    (block : ∀ t b u, splitOnce (c :: s) t = some (b, u) → motive u → motive t) (t : List α) :
    motive t := by
  induction size : t.length using Nat.strong_induction_on generalizing t with
  | _ n ih =>
    subst size
    cases found : splitOnce (c :: s) t with
    | none => exact rest t found
    | some p =>
      obtain ⟨b, u⟩ := p
      have lengths := length_of_splitOnce found
      rw [List.length_cons] at lengths
      exact block t b u found (ih u.length (by omega) u rfl)

/-! ## The reader

The separator is `c :: s`, so that it is not empty. -/

variable (handle : List α → Program ε σ Unit) (c : α) (s : List α)

/-- Handle the complete blocks of a buffer; what is left is the beginning of the next one. -/
def drain (buffer : List α) : Program ε σ (List α) :=
  match _found : splitOnce (c :: s) buffer with
  | none => return buffer
  | some (block, rest) => do
    handle block
    drain rest
termination_by buffer.length
decreasing_by
  have lengths := length_of_splitOnce _found
  rw [List.length_cons] at lengths
  omega

def readChunks (buffer : List α) : List (List α) → Program ε σ (List α)
  | [] => return buffer
  | raw :: chunks => do
    let buffer ← drain handle c s (buffer ++ raw)
    readChunks buffer chunks

theorem drain_of_none {t : List α} (h : splitOnce (c :: s) t = none) :
    drain handle c s t = pure t := by
  unfold drain
  split
  next => rfl
  next found =>
    rw [h] at found
    cases found

theorem drain_of_some {t block rest : List α} (h : splitOnce (c :: s) t = some (block, rest)) :
    drain handle c s t = (do handle block; drain handle c s rest) := by
  conv_lhs => unfold drain
  split
  next found =>
    rw [h] at found
    cases found
  next found =>
    rw [h] at found
    cases found
    rfl

/-- Draining more is draining what was there, and then its rest with what came. -/
theorem drain_append (t u : List α) :
    drain handle c s (t ++ u) = (do
      let rest ← drain handle c s t
      drain handle c s (rest ++ u)) := by
  induction t using blocks_induction (c := c) (s := s) with
  | rest t none => rw [drain_of_none handle c s none, pure_bind]
  | block t b rest found ih =>
    rw [drain_of_some handle c s found, drain_of_some handle c s (splitOnce_append found u), ih,
      bind_assoc]

theorem drain_bind_readChunks (chunks : List (List α)) (buffer : List α) :
    (do
      let rest ← drain handle c s buffer
      readChunks handle c s rest chunks) = drain handle c s (buffer ++ chunks.flatten) := by
  induction chunks generalizing buffer with
  | nil => simp [readChunks]
  | cons raw chunks ih =>
    rw [List.flatten_cons, drain_append]
    congr 1
    funext rest
    rw [readChunks, ih, List.append_assoc]

/-- However the stream is cut, it is read as a whole. -/
theorem readChunks_eq (chunks : List (List α)) :
    readChunks handle c s [] chunks = drain handle c s chunks.flatten := by
  have whole := drain_bind_readChunks handle c s chunks []
  rwa [drain_of_none handle c s rfl, pure_bind, List.nil_append] at whole

/-! ## The blocks of a stream -/

section Blocks

variable (c : α) (s : List α)

/-- The complete blocks, and what comes after the last of them. -/
def blocks (t : List α) : List (List α) × List α :=
  match _found : splitOnce (c :: s) t with
  | none => ([], t)
  | some (block, rest) => (block :: (blocks rest).1, (blocks rest).2)
termination_by t.length
decreasing_by
  all_goals
    have lengths := length_of_splitOnce _found
    rw [List.length_cons] at lengths
    omega

variable {c s}

theorem blocks_of_none {t : List α} (h : splitOnce (c :: s) t = none) : blocks c s t = ([], t) := by
  unfold blocks
  split
  next => rfl
  next found =>
    rw [h] at found
    cases found

theorem blocks_of_some {t block rest : List α} (h : splitOnce (c :: s) t = some (block, rest)) :
    blocks c s t = (block :: (blocks c s rest).1, (blocks c s rest).2) := by
  conv_lhs => unfold blocks
  split
  next found =>
    rw [h] at found
    cases found
  next found =>
    rw [h] at found
    cases found
    rfl

/-- The reader handles the blocks and keeps the rest. -/
theorem drain_eq (handle : List α → Program ε σ Unit) (t : List α) :
    drain handle c s t = (do
      forM (blocks c s t).1 handle
      return (blocks c s t).2) := by
  induction t using blocks_induction (c := c) (s := s) with
  | rest t none => rw [drain_of_none handle c s none, blocks_of_none none]; rfl
  | block t b u found ih =>
    rw [drain_of_some handle c s found, blocks_of_some found, ih, List.forM_cons, bind_assoc]

theorem join_blocks (t : List α) :
    ((blocks c s t).1.flatMap fun block => block ++ c :: s) ++ (blocks c s t).2 = t := by
  induction t using blocks_induction (c := c) (s := s) with
  | rest t none => rw [blocks_of_none none]; rfl
  | block t b u found ih =>
    rw [blocks_of_some found, List.flatMap_cons, List.append_assoc, ih, List.append_assoc]
    exact (eq_of_splitOnce found).symm

/-- The separator ends the block, and does not start before. -/
def Standalone (c : α) (s : List α) (block : List α) : Prop :=
  splitOnce (c :: s) (block ++ c :: s) = some (block, [])

theorem standalone_of_not_mem {block : List α} (inside : c ∉ block) : Standalone c s block := by
  have found := splitOnce_block s [] inside
  rwa [List.append_nil] at found

/-- What follows the first separator does not matter for it. -/
theorem standalone_of_splitOnce {t block rest : List α}
    (h : splitOnce (c :: s) t = some (block, rest)) : Standalone c s block := by
  unfold Standalone
  induction t generalizing block with
  | nil => cases h
  | cons d t ih =>
    unfold splitOnce at h
    split at h
    next starts =>
      cases h
      have whole : (c :: s).isPrefixOf (c :: s) = true :=
        List.isPrefixOf_iff_prefix.mpr List.prefix_rfl
      rw [List.nil_append, splitOnce, if_pos whole, List.drop_length]
    next later_only =>
      obtain ⟨⟨block', rest'⟩, later, same⟩ := Option.map_eq_some_iff.mp h
      cases same
      have shorter : (c :: s).isPrefixOf (d :: (block' ++ c :: s)) = false := by
        rw [Bool.eq_false_iff]
        intro starts
        refine later_only (List.isPrefixOf_iff_prefix.mpr ?_)
        have begins := List.isPrefixOf_iff_prefix.mp starts
        rw [eq_of_splitOnce later]
        exact begins.trans ⟨rest', by simp⟩
      rw [List.cons_append, splitOnce, shorter, ih later]
      rfl

theorem standalone_of_mem {t block : List α} (mem : block ∈ (blocks c s t).1) :
    Standalone c s block := by
  induction t using blocks_induction (c := c) (s := s) with
  | rest t none =>
    rw [blocks_of_none none] at mem
    cases mem
  | block t b u found ih =>
    rw [blocks_of_some found] at mem
    rcases List.mem_cons.mp mem with rfl | mem
    · exact standalone_of_splitOnce found
    · exact ih mem

/-- Blocks that were written one after the other are found again. -/
theorem blocks_flatMap {bs : List (List α)} (alone : ∀ block ∈ bs, Standalone c s block) :
    blocks c s (bs.flatMap fun block => block ++ c :: s) = (bs, []) := by
  induction bs with
  | nil => exact blocks_of_none rfl
  | cons b bs ih =>
    have first := splitOnce_append (alone b List.mem_cons_self)
      (bs.flatMap fun block => block ++ c :: s)
    rw [List.flatMap_cons, blocks_of_some first, List.nil_append,
      ih fun block mem => alone block (List.mem_cons_of_mem b mem)]

end Blocks

end AgenticOctopus.Foundation.Framing
