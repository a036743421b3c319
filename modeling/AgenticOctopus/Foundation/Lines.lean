import AgenticOctopus.Foundation.Text
import Mathlib.Data.List.DropRight

/-!
# Lines

Splitting a text at more characters cuts its lines further, and `splitlines` finds the same
lines as splitting at every line break, but for empty ones. What is stripped once stays.
-/
namespace AgenticOctopus.Foundation.Text

variable {α : Type}

/-- Splitting at more elements splits the pieces. -/
theorem splitOnP_finer {p q : α → Bool} (finer : ∀ c, p c = true → q c = true) (t : List α) :
    t.splitOnP q = (t.splitOnP p).flatMap (List.splitOnP q) := by
  induction t with
  | nil => simp [List.splitOnP_nil]
  | cons c t ih =>
    obtain ⟨line, lines, pieces⟩ := List.exists_cons_of_ne_nil (List.splitOnP_ne_nil p t)
    obtain ⟨first, rest, split_line⟩ := List.exists_cons_of_ne_nil (List.splitOnP_ne_nil q line)
    rw [pieces, List.flatMap_cons, split_line] at ih
    rw [List.splitOnP_cons_eq_if_modifyHead, List.splitOnP_cons_eq_if_modifyHead c t, pieces]
    by_cases breaks : p c = true
    · simp [breaks, finer c breaks, ih, split_line, List.splitOnP_nil]
    · by_cases breaks_finer : q c = true
      · simp [breaks, breaks_finer, ih, split_line, List.splitOnP_cons_eq_if_modifyHead]
      · simp [breaks, breaks_finer, ih, split_line, List.splitOnP_cons_eq_if_modifyHead]

theorem splitOnP_append_of_inside {p : α → Bool} {u : List α} (inside : ∀ c ∈ u, p c = false)
    (t : List α) : (u ++ t).splitOnP p = (t.splitOnP p).modifyHead (u ++ ·) := by
  obtain ⟨line, lines, pieces⟩ := List.exists_cons_of_ne_nil (List.splitOnP_ne_nil p t)
  induction u with
  | nil => simp [pieces]
  | cons c u ih =>
    have rest := ih fun d h => inside d (List.mem_cons_of_mem c h)
    rw [List.cons_append, List.splitOnP_cons_eq_if_modifyHead, rest, pieces]
    simp [inside c List.mem_cons_self]

theorem splitlinesFrom_filter (t line : Text) :
    (splitlinesFrom t line).filter (· ≠ []) =
      (List.splitOnPPrepend isLineBreak t line).filter (· ≠ []) := by
  fun_induction splitlinesFrom t line with
  | case1 => rfl
  | case2 line some_char => simp
  | case3 t line ih =>
    have feed : isLineBreak 13 = true ∧ isLineBreak 10 = true := by decide
    simp only [List.splitOnPPrepend_nil_right, ne_eq, decide_not] at ih
    simp [List.splitOnPPrepend_cons_pos, List.splitOnP_cons_eq_if_modifyHead, feed,
      List.filter_cons, ih]
  | case4 c t line notPair breaks ih =>
    simp only [List.splitOnPPrepend_nil_right, ne_eq, decide_not] at ih
    simp [List.splitOnPPrepend_cons_pos breaks, List.filter_cons, ih]
  | case5 c t line notPair inside ih =>
    rw [List.splitOnPPrepend_cons_neg (by simpa using inside), ih]

theorem splitlines_filter (t : Text) :
    (splitlines t).filter (· ≠ []) = (t.splitOnP isLineBreak).filter (· ≠ []) :=
  splitlinesFrom_filter t []

/-- A line that is not empty is one that `splitlines` finds. -/
theorem mem_splitlines_iff {t line : Text} (ink : line ≠ []) :
    line ∈ splitlines t ↔ line ∈ t.splitOnP isLineBreak := by
  have same := congrArg (line ∈ ·) (splitlines_filter t)
  simpa [ink] using same

/-! ## One line at a time -/

theorem splitlinesFrom_line {u : Text} (inside : ∀ c ∈ u, isLineBreak c = false) (t line : Text) :
    splitlinesFrom (u ++ 10 :: t) line = (line.reverse ++ u) :: splitlinesFrom t [] := by
  induction u generalizing line with
  | nil => simp [splitlinesFrom, isLineBreak]
  | cons c u ih =>
    have here := inside c List.mem_cons_self
    have rest := ih (fun d mem => inside d (List.mem_cons_of_mem c mem)) (c :: line)
    have plain : c ≠ 13 := by
      rintro rfl
      cases here
    simp [splitlinesFrom, plain, here, rest]

/-- A line that holds no line break ends at the next line feed. -/
theorem splitlines_line {u : Text} (inside : ∀ c ∈ u, isLineBreak c = false) (t : Text) :
    splitlines (u ++ 10 :: t) = u :: splitlines t := splitlinesFrom_line inside t []

/-- Nothing is stripped off a list whose ends stay. -/
theorem trim_eq_self {p : α → Bool} {a b : α} (t : List α) (first : p a = false)
    (last : p b = false) :
    (((a :: t ++ [b]).dropWhile p).reverse.dropWhile p).reverse = a :: t ++ [b] := by
  simp [first, last]

/-! ## White space at the ends -/

theorem rstrip_prefixOf (t : Text) : rstrip t <+: t := List.rdropWhile_prefix isSpace t

theorem lstrip_rstrip {t : Text} (trimmed : lstrip t = t) : lstrip (rstrip t) = rstrip t := by
  unfold lstrip at trimmed ⊢
  rw [List.dropWhile_eq_self_iff] at trimmed ⊢
  intro some
  rw [(rstrip_prefixOf t).getElem some]
  exact trimmed (some.trans_le (rstrip_prefixOf t).length_le)

@[simp] theorem strip_strip (t : Text) : strip (strip t) = strip t := by
  have once : lstrip (strip t) = strip t :=
    lstrip_rstrip (List.dropWhile_idempotent isSpace t)
  change rstrip (lstrip (strip t)) = strip t
  rw [once]
  exact List.rdropWhile_idempotent isSpace (lstrip t)

theorem strip_subset (t : Text) : strip t ⊆ t := by
  have suffix : lstrip t <:+ t := List.dropWhile_suffix isSpace
  exact fun c mem => suffix.subset ((rstrip_prefixOf (lstrip t)).subset mem)

end AgenticOctopus.Foundation.Text
