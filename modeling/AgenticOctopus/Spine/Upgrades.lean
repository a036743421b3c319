import AgenticOctopus.Spine.Migrations

/-!
# Each migration once, in order

Where no file ends the transaction that it runs in, the SQL of a file and the row of its version
are in one transaction, so they are committed together or not at all; and the row is unique, so
of two upgraders that saw neither only one commits. The invariant says this for the transaction
of every call that is under way, and the loop adds that what it has passed is recorded.
-/
namespace AgenticOctopus.Spine.Migrations
open Foundation

/-- The SQL ends no transaction. -/
def MigrationFile.Contained (path : MigrationFile) : Prop :=
  .commit ∉ path.sql ∧ .rollback ∉ path.sql

def Label.Contained : Label → Prop
  | .select _ directory => ∀ path ∈ sortedGlob directory, path.Contained
  | _ => True

instance (path : MigrationFile) : Decidable path.Contained :=
  inferInstanceAs (Decidable (_ ∧ _))

instance : DecidablePred Label.Contained
  | .select _ directory =>
    inferInstanceAs (Decidable (∀ path ∈ sortedGlob directory, path.Contained))
  | .connect _ | .create _ | .skip _ | .execute _ | .statement _ | .endSql _ | .record _
  | .commit _ | .finish _ | .stop _ => .isTrue trivial

/-! ## A file and its row -/

/-- The transaction of a call that is under way. -/
def Phase.txn : Phase → Transaction
  | .selecting txn => txn
  | .next vars _ | .executing vars _ _ _ | .recording vars _ _ | .committing vars _ _ => vars.txn
  | _ => {}

def Phase.Paired : Phase → Prop
  | .selecting txn => txn.ran = [] ∧ txn.row = none
  | .next vars rest =>
    vars.txn.ran = [] ∧ vars.txn.row = none ∧ ∀ path ∈ rest, path.Contained
  | .executing vars path sql rest =>
    path.version ∉ vars.already ∧ vars.txn.block = true ∧ vars.txn.ran = [path.version] ∧
      vars.txn.row = none ∧ (.commit ∉ sql ∧ .rollback ∉ sql) ∧ ∀ path ∈ rest, path.Contained
  | .recording vars path rest =>
    path.version ∉ vars.already ∧ vars.txn.ran = [path.version] ∧ vars.txn.row = none ∧
      ∀ path ∈ rest, path.Contained
  | .committing vars path rest =>
    path.version ∉ vars.already ∧ vars.txn.ran = [path.version] ∧
      vars.txn.row = some path.version ∧ ∀ path ∈ rest, path.Contained
  | _ => True

/-- What nobody else has done while this transaction is open. -/
structure Secure (s : State) (u : Upgrader) (txn : Transaction) : Prop where
  made : txn.made = true → s.making = some u ∧ s.tracking = none
  inserting : ∀ v, txn.row = some v → s.inserting v = some u
  fresh : ∀ v, txn.row = some v → v ∉ s.recorded
  there : txn.row.isSome = true → txn.made = false → s.tracking.isSome = true

variable {s t : State} {u w : Upgrader} {l : Label} {txn txn' : Transaction}

theorem recorded_of_absent (absent : s.tracking = none) : s.recorded = [] := by
  simp [State.recorded, absent]

theorem secure_empty : Secure s u {} where
  made made := by cases made
  inserting v row := by cases row
  fresh v row := by cases row
  there row := by cases row

/-- A row is added where the table is. -/
theorem recorded_commit (mine : Secure s u txn) :
    (s.commit u txn).recorded = s.recorded ++ txn.row.toList := by
  by_cases made : txn.made = true
  · have absent := (mine.made made).2
    simp [State.recorded, State.commit, made, absent]
  · have unmade : txn.made = false := by simpa using made
    cases tracking : s.tracking with
    | some versions => simp [State.recorded, State.commit, unmade, tracking]
    | none =>
      cases row : txn.row with
      | none => simp [State.recorded, State.commit, unmade, tracking]
      | some v =>
        have there := mine.there (by simp [row]) unmade
        simp [tracking] at there

theorem isSome_commit (there : s.tracking.isSome = true) :
    (s.commit u txn).tracking.isSome = true := by
  simp only [State.commit]
  split_ifs
  · rfl
  · simpa using there

theorem visible_eq (mine : Secure s u txn) (empty : txn.row = none) :
    s.visible txn = s.recorded := by
  unfold State.visible
  split_ifs with made
  · simp [empty, recorded_of_absent (mine.made made).2]
  · rfl

namespace Secure

theorem release (other : w ≠ u) (theirs : Secure s w txn) : Secure (s.release u) w txn where
  made made := by
    obtain ⟨making, absent⟩ := theirs.made made
    refine ⟨?_, absent⟩
    simp [State.release, making, other]
  inserting v row := by
    have inserting := theirs.inserting v row
    simp [State.release, inserting, other]
  fresh := theirs.fresh
  there := theirs.there

/-- Two transactions insert neither the table nor a version twice. -/
theorem commit (other : w ≠ u) (mine : Secure s u txn) (theirs : Secure s w txn') :
    Secure (s.commit u txn) w txn' where
  made made := by
    obtain ⟨making, absent⟩ := theirs.made made
    refine ⟨((theirs.release other).made made).1, ?_⟩
    have unmade : txn.made = false := by
      by_contra mine_too
      have both := (mine.made (by simpa using mine_too)).1
      rw [making] at both
      exact other (Option.some.inj both)
    simp [State.commit, unmade, absent]
  inserting := (theirs.release other).inserting
  fresh v row := by
    rw [recorded_commit mine, List.mem_append, not_or]
    refine ⟨theirs.fresh v row, ?_⟩
    intro mem
    have both := mine.inserting v (by simpa using mem)
    rw [theirs.inserting v row] at both
    exact other (Option.some.inj both)
  there row unmade := isSome_commit (theirs.there row unmade)

theorem make (free : s.making = none) (theirs : Secure s w txn) :
    Secure { s with making := some u } w txn where
  made made := by
    have making := (theirs.made made).1
    rw [free] at making
    cases making
  inserting := theirs.inserting
  fresh := theirs.fresh
  there := theirs.there

theorem insert {v : Version} (free : s.inserting v = none) (theirs : Secure s w txn) :
    Secure { s with inserting := Function.update s.inserting v (some u) } w txn where
  made := theirs.made
  inserting x row := by
    have inserting := theirs.inserting x row
    have apart : x ≠ v := by
      rintro rfl
      rw [free] at inserting
      cases inserting
    simpa [Function.update_of_ne apart] using inserting
  fresh := theirs.fresh
  there := theirs.there

/-- It makes no difference what it has run, or in which block. -/
theorem alike (mine : Secure s w txn) (made : txn'.made = txn.made) (row : txn'.row = txn.row) :
    Secure s w txn' where
  made := made ▸ mine.made
  inserting := row ▸ mine.inserting
  fresh := row ▸ mine.fresh
  there := row ▸ made ▸ mine.there

theorem goto {phase : Phase} (theirs : Secure s w txn) : Secure (s.goto u phase) w txn :=
  ⟨theirs.made, theirs.inserting, theirs.fresh, theirs.there⟩

end Secure

/-! ## The invariant -/

/-- What is recorded is what was committed, once, and every open transaction can commit. -/
structure Orderly (s : State) : Prop where
  logged : ∀ v, v ∈ s.recorded ↔ v ∈ s.committed
  once : s.committed.Nodup
  key : s.recorded.Nodup
  paired : ∀ u, (s.call u).Paired
  secure : ∀ u, Secure s u (s.call u).txn

theorem orderly_started (h : Started s) : Orderly s where
  logged := h.logged
  once := h.once
  key := h.key
  paired u := by
    rw [h.call u]
    trivial
  secure u := by
    rw [h.call u]
    exact secure_empty

theorem nodup_append_row {versions : List Version} {row : Option Version} (nodup : versions.Nodup)
    (fresh : ∀ v, row = some v → v ∉ versions) : (versions ++ row.toList).Nodup := by
  cases row with
  | none => simpa using nodup
  | some v =>
    refine nodup.append (List.nodup_singleton v) ?_
    intro x mem same
    rw [List.mem_singleton.mp same] at mem
    exact fresh v rfl mem

theorem runStatement_call (vars : Vars) (path : MigrationFile) (statement : Statement) :
    (runStatement s u vars path statement).1.call = s.call := by
  cases statement <;> rfl

theorem runStatement_contained {vars : Vars} {path : MigrationFile} {statement : Statement}
    (opened : vars.txn.block = true) (ran : vars.txn.ran = [path.version])
    (commits : statement ≠ .commit) (rolls : statement ≠ .rollback) :
    runStatement s u vars path statement = (s, vars) := by
  cases statement with
  | work => simp [runStatement, Transaction.run, ran]
  | begin => simp [runStatement, Transaction.begin, ← opened]
  | commit => exact (commits rfl).elim
  | rollback => exact (rolls rfl).elim

/-- Nobody but its connection moves a call. -/
theorem Step.others (h : Step s l t) (other : w ≠ l.upgrader) : t.call w = s.call w := by
  cases h
  case statement =>
    exact (State.goto_call_of_ne other).trans (congrFun (runStatement_call _ _ _) w)
  all_goals exact State.goto_call_of_ne other

namespace Orderly

variable {phase : Phase}

/-- A step that commits nothing. -/
theorem quiet (inv : Orderly s) (same : t.recorded = s.recorded)
    (kept : t.committed = s.committed) (others : ∀ w, w ≠ u → t.call w = s.call w)
    (frame : ∀ w, w ≠ u → ∀ txn, Secure s w txn → Secure t w txn)
    (paired : (t.call u).Paired) (secure : Secure t u (t.call u).txn) : Orderly t where
  logged v := by
    rw [same, kept]
    exact inv.logged v
  once := by
    rw [kept]
    exact inv.once
  key := by
    rw [same]
    exact inv.key
  paired w := by
    by_cases mine : w = u
    · rwa [mine]
    · rw [others w mine]
      exact inv.paired w
  secure w := by
    by_cases mine : w = u
    · rwa [mine]
    · rw [others w mine]
      exact frame w mine _ (inv.secure w)

/-- A step that takes no lock. -/
theorem goto (inv : Orderly s) (paired : phase.Paired) (secure : Secure s u phase.txn) :
    Orderly (s.goto u phase) := by
  refine inv.quiet (u := u) rfl rfl (fun w other => State.goto_call_of_ne other)
    (fun w _ txn theirs => theirs.goto) ?_ ?_
  · simpa using paired
  · simpa using secure.goto

/-- A step that gives a transaction up. -/
theorem abandon (inv : Orderly s) (paired : phase.Paired) (empty : phase.txn = {}) :
    Orderly ((s.release u).goto u phase) := by
  refine inv.quiet (u := u) rfl rfl (fun w other => State.goto_call_of_ne other)
    (fun w other txn theirs => (theirs.release other).goto) ?_ ?_
  · simpa using paired
  · simpa [empty] using secure_empty

/-- A step that commits a transaction with as many rows as files. -/
theorem commit (inv : Orderly s) (mine : Secure s u txn) (even : txn.ran = txn.row.toList)
    (paired : phase.Paired) (empty : phase.txn = {}) :
    Orderly ((s.commit u txn).goto u phase) where
  logged v := by
    simp only [State.goto_recorded, State.goto_committed, State.commit_committed,
      recorded_commit mine, even, List.mem_append, inv.logged v]
  once := by
    rw [State.goto_committed, State.commit_committed, even]
    refine nodup_append_row inv.once ?_
    intro v row
    rw [← inv.logged v]
    exact mine.fresh v row
  key := by
    rw [State.goto_recorded, recorded_commit mine]
    exact nodup_append_row inv.key mine.fresh
  paired w := by
    by_cases mine : w = u
    · simpa [mine] using paired
    · simpa [State.goto_call_of_ne mine] using inv.paired w
  secure w := by
    by_cases here : w = u
    · rw [here, State.goto_call, empty]
      exact secure_empty
    · rw [State.goto_call_of_ne here]
      exact (mine.commit here (inv.secure w)).goto

theorem under (inv : Orderly s) (call : s.call u = phase) :
    phase.Paired ∧ Secure s u phase.txn := by
  rw [← call]
  exact ⟨inv.paired u, inv.secure u⟩

/-- The SQL runs inside its transaction. -/
theorem statement {vars : Vars} {path : MigrationFile} {statement : Statement}
    {sql : List Statement} {rest : List MigrationFile} (inv : Orderly s)
    (executing : s.call u = .executing vars path (statement :: sql) rest) :
    runStatement s u vars path statement = (s, vars) := by
  obtain ⟨⟨-, opened, ran, -, ⟨commits, rolls⟩, -⟩, -⟩ := inv.under executing
  rw [List.mem_cons, not_or] at commits rolls
  exact runStatement_contained opened ran (Ne.symm commits.1) (Ne.symm rolls.1)

theorem opened {vars : Vars} {path : MigrationFile} {sql : List Statement}
    {rest : List MigrationFile} (inv : Orderly s)
    (executing : s.call u = .executing vars path sql rest) : vars.txn.block = true :=
  (inv.under executing).1.2.1

theorem step (contained : l.Contained) (h : Step s l t) (inv : Orderly s) : Orderly t := by
  cases h with
  | connect away => exact inv.goto trivial secure_empty
  | found connected there =>
    refine inv.goto ⟨rfl, rfl⟩ ⟨?_, ?_, ?_, ?_⟩ <;> intros <;> contradiction
  | @make u connected absent free =>
    refine inv.quiet (u := u) rfl rfl (fun w other => State.goto_call_of_ne other)
      (fun w _ txn theirs => (theirs.make free).goto) ?_ ?_
    · simp [Phase.Paired]
    · rw [State.goto_call]
      refine ⟨fun _ => ⟨rfl, absent⟩, ?_, ?_, ?_⟩ <;> intros <;> contradiction
  | select directory selecting =>
    obtain ⟨⟨ran, row⟩, secure⟩ := inv.under selecting
    exact inv.goto ⟨ran, row, contained⟩ secure
  | skip next known =>
    obtain ⟨⟨ran, row, inside⟩, secure⟩ := inv.under next
    exact inv.goto ⟨ran, row, fun g mem => inside g (by simp [mem])⟩ secure
  | @execute u vars path rest next pending =>
    obtain ⟨⟨ran, row, inside⟩, secure⟩ := inv.under next
    have only : vars.txn.begin.run path.version =
        { vars.txn with block := true, ran := [path.version] } := by
      simp [Transaction.run, Transaction.begin, ran]
    rw [only]
    exact inv.goto
      ⟨pending, rfl, rfl, row, inside path (by simp), fun g mem => inside g (by simp [mem])⟩
      (secure.alike rfl rfl)
  | @statement u vars path statement sql rest executing =>
    obtain ⟨⟨pending, opened, ran, row, ⟨commits, rolls⟩, inside⟩, secure⟩ := inv.under executing
    rw [List.mem_cons, not_or] at commits rolls
    rw [inv.statement executing]
    exact inv.goto ⟨pending, opened, ran, row, ⟨commits.2, rolls.2⟩, inside⟩ secure
  | endSql executing opened =>
    obtain ⟨⟨pending, -, ran, row, -, inside⟩, secure⟩ := inv.under executing
    exact inv.goto ⟨pending, ran, row, inside⟩ secure
  | endCommitted executing ended =>
    exact (Bool.false_ne_true (ended.symm.trans (inv.opened executing))).elim
  | @record u vars path rest recording there fresh free =>
    obtain ⟨⟨pending, ran, row, inside⟩, secure⟩ := inv.under recording
    refine inv.quiet (u := u) rfl rfl (fun w other => State.goto_call_of_ne other)
      (fun w _ txn theirs => (theirs.insert free).goto) ?_ ?_
    · rw [State.goto_call]
      exact ⟨pending, ran, rfl, inside⟩
    · rw [State.goto_call]
      refine ⟨secure.made, ?_, ?_, ?_⟩
      · intro v same
        cases same
        exact Function.update_self ..
      · intro v same
        cases same
        exact fresh
      · intro _ unmade
        refine there.resolve_right ?_
        rw [show vars.txn.made = false from unmade]
        exact Bool.false_ne_true
  | commit committing =>
    obtain ⟨⟨-, ran, row, inside⟩, secure⟩ := inv.under committing
    refine inv.commit secure ?_ ⟨rfl, rfl, inside⟩ rfl
    simp [ran, row]
  | finish next =>
    obtain ⟨⟨ran, row, -⟩, secure⟩ := inv.under next
    refine inv.commit secure ?_ trivial rfl
    simp [ran, row]
  | stop active => exact inv.abandon trivial rfl

theorem committing {vars : Vars} {path : MigrationFile} {rest : List MigrationFile}
    (inv : Orderly s) (committing : s.call u = .committing vars path rest) :
    (s.commit u vars.txn).recorded = s.recorded ++ [path.version] ∧
      (s.commit u vars.txn).committed = s.committed ++ [path.version] := by
  obtain ⟨⟨-, ran, row, -⟩, secure⟩ := inv.under committing
  refine ⟨?_, ?_⟩
  · exact (recorded_commit secure).trans (by simp [Phase.txn, row])
  · rw [State.commit_committed, ran]

/-- Only a call that has run a file and inserted its version commits anything. -/
theorem effect (inv : Orderly s) (h : Step s l t) :
    (t.recorded = s.recorded ∧ t.committed = s.committed) ∨
      ∃ u vars path rest, l = .commit u ∧ s.call u = .committing vars path rest ∧
        t.recorded = s.recorded ++ [path.version] ∧
        t.committed = s.committed ++ [path.version] := by
  cases h with
  | statement executing =>
    rw [inv.statement executing]
    exact .inl ⟨rfl, rfl⟩
  | endCommitted executing ended =>
    exact (Bool.false_ne_true (ended.symm.trans (inv.opened executing))).elim
  | @commit u vars path rest committing =>
    exact .inr ⟨u, vars, path, rest, rfl, committing, inv.committing committing⟩
  | finish next =>
    obtain ⟨⟨ran, row, -⟩, secure⟩ := inv.under next
    refine .inl ⟨?_, ?_⟩
    · exact (recorded_commit secure).trans (by simp [Phase.txn, row])
    · rw [State.goto_committed, State.commit_committed, ran, List.append_nil]
  | _ => exact .inl ⟨rfl, rfl⟩

end Orderly

/-! ## The loop -/

/-- The variables of a call that has listed the files, and the files that it has not passed. -/
def Phase.loop : Phase → Option (Vars × List MigrationFile)
  | .next vars rest => some (vars, rest)
  | .executing vars path _ rest | .recording vars path rest | .committing vars path rest =>
    some (vars, path :: rest)
  | .returned vars => some (vars, [])
  | _ => none

/-- A connection is opened, or the files are listed. -/
def Label.Opens (u : Upgrader) : Label → Prop
  | .connect w | .select w _ => w = u
  | _ => False

/-- How a call has come to these variables, and to these files ahead of it. -/
inductive Turn (s t : State) (l : Label) (u : Upgrader) : Vars → List MigrationFile → Prop where
  | lists {txn : Transaction} (directory : Directory) (label : l = .select u directory) :
      Turn s t l u { txn := txn, already := s.recorded, paths := sortedGlob directory }
        (sortedGlob directory)
  | stays {vars rest} {txn : Transaction} (onward : ¬ l.Opens u) (before : (s.call u).loop = some (vars, rest)) :
      Turn s t l u { vars with txn := txn } rest
  | skips {vars path rest} (onward : ¬ l.Opens u)
      (before : (s.call u).loop = some (vars, path :: rest))
      (known : path.version ∈ vars.already) : Turn s t l u vars rest
  | commits {vars path rest} (onward : ¬ l.Opens u)
      (before : (s.call u).loop = some (vars, path :: rest))
      (pending : path.version ∉ vars.already) (now : path.version ∈ t.recorded) :
      Turn s t l u { vars with txn := {}, appliedNow := vars.appliedNow ++ [path.version] } rest

theorem Label.not_opens (other : u ≠ l.upgrader) : ¬ l.Opens u := by
  intro opens
  cases l with
  | connect w => exact other opens.symm
  | select w directory => exact other opens.symm
  | _ => exact opens

theorem loop_goto {phase : Phase} {vars : Vars} {rest : List MigrationFile}
    (looping : ((s.goto u phase).call u).loop = some (vars, rest)) :
    phase.loop = some (vars, rest) := by
  simpa using looping

theorem Orderly.turn {vars : Vars} {rest : List MigrationFile} (inv : Orderly s)
    (h : Step s l t) (looping : (t.call u).loop = some (vars, rest)) : Turn s t l u vars rest := by
  by_cases mine : u = l.upgrader
  · subst mine
    cases h with
    | connect away => cases (loop_goto looping : none = some _)
    | found connected there => cases (loop_goto looping : none = some _)
    | make connected absent free => cases (loop_goto looping : none = some _)
    | stop active => cases (loop_goto looping : none = some _)
    | @select u txn directory selecting =>
      obtain ⟨⟨-, row⟩, secure⟩ := inv.under selecting
      have seen : s.visible txn = s.recorded := visible_eq secure row
      rw [seen] at looping ⊢
      cases Option.some.inj (loop_goto looping)
      exact .lists directory rfl
    | skip next known =>
      cases Option.some.inj (loop_goto looping)
      exact .skips id (congrArg Phase.loop next) known
    | execute next pending =>
      cases Option.some.inj (loop_goto looping)
      exact .stays id (congrArg Phase.loop next)
    | statement executing =>
      rw [inv.statement executing] at looping
      cases Option.some.inj (loop_goto looping)
      exact .stays id (congrArg Phase.loop executing)
    | endSql executing opened =>
      cases Option.some.inj (loop_goto looping)
      exact .stays id (congrArg Phase.loop executing)
    | endCommitted executing ended =>
      cases Option.some.inj (loop_goto looping)
      exact .stays id (congrArg Phase.loop executing)
    | record recording there fresh free =>
      cases Option.some.inj (loop_goto looping)
      exact .stays id (congrArg Phase.loop recording)
    | commit committing =>
      cases Option.some.inj (loop_goto looping)
      refine .commits id (congrArg Phase.loop committing) (inv.under committing).1.1 ?_
      rw [State.goto_recorded, (inv.committing committing).1]
      simp
    | finish next =>
      cases Option.some.inj (loop_goto looping)
      exact .stays id (congrArg Phase.loop next)
  · rw [h.others mine] at looping
    exact .stays (Label.not_opens mine) looping

/-! ## What a call has passed -/

structure Walk (recorded : List Version) (vars : Vars) (rest : List MigrationFile) : Prop where
  known : vars.already ⊆ recorded
  passed : ∃ done, vars.paths = done ++ rest ∧ ∀ path ∈ done, path.version ∈ recorded
  applied : ∀ v ∈ vars.appliedNow, v ∉ vars.already ∧ ∃ path ∈ vars.paths, path.version = v

def Walking (s : State) : Prop :=
  ∀ u vars rest, (s.call u).loop = some (vars, rest) → Walk s.recorded vars rest

namespace Walk

variable {recorded recorded' : List Version} {vars : Vars} {path : MigrationFile}
  {rest : List MigrationFile}

theorem mono (more : recorded ⊆ recorded') (walk : Walk recorded vars rest) :
    Walk recorded' vars rest where
  known := fun v mem => more (walk.known mem)
  passed := by
    obtain ⟨done, split, all⟩ := walk.passed
    exact ⟨done, split, fun g mem => more (all g mem)⟩
  applied := walk.applied

theorem mem_paths (walk : Walk recorded vars (path :: rest)) : path ∈ vars.paths := by
  obtain ⟨done, split, -⟩ := walk.passed
  simp [split]

theorem pass (walk : Walk recorded vars (path :: rest)) (here : path.version ∈ recorded) :
    Walk recorded vars rest where
  known := walk.known
  passed := by
    obtain ⟨done, split, all⟩ := walk.passed
    refine ⟨done ++ [path], by simp [split], ?_⟩
    intro g mem
    rcases List.mem_append.mp mem with mem | mem
    · exact all g mem
    · rwa [List.mem_singleton.mp mem]
  applied := walk.applied

end Walk

theorem Orderly.recorded_subset (inv : Orderly s) (h : Step s l t) : s.recorded ⊆ t.recorded := by
  intro v mem
  rcases inv.effect h with ⟨same, -⟩ | ⟨_, _, _, _, _, _, more, -⟩
  · rwa [same]
  · rw [more]
    exact List.mem_append_left _ mem

theorem Walking.step (inv : Orderly s) (h : Step s l t) (walking : Walking s) : Walking t := by
  intro u vars rest looping
  have more := inv.recorded_subset h
  cases inv.turn h looping with
  | lists directory label =>
    exact ⟨more, ⟨[], rfl, by simp⟩, by simp⟩
  | stays onward before =>
    have walk := (walking u _ _ before).mono more
    exact ⟨walk.known, walk.passed, walk.applied⟩
  | skips onward before known =>
    have walk := (walking u _ _ before).mono more
    exact walk.pass (walk.known known)
  | @commits old path rest onward before pending now =>
    have walk := (walking u _ _ before).mono more
    refine ⟨walk.known, (walk.pass now).passed, ?_⟩
    intro v mem
    rcases List.mem_append.mp mem with mem | mem
    · exact walk.applied v mem
    · rw [List.mem_singleton.mp mem]
      exact ⟨pending, path, walk.mem_paths, rfl⟩

/-! ## Runs of any number of upgrades -/

/-- At `j`, the call of `u` that listed its files at `i` has not been followed by another. -/
structure Call (e : upgrades.Execution) (u : Upgrader) (directory : Directory) (i j : Nat) :
    Prop where
  before : i < j
  within : j ≤ e.length
  select : e.label i = .select u directory
  onward : ∀ k, i < k → k < j → ¬ (e.label k).Opens u

section

variable {e : upgrades.Execution} (contained : ∀ i < e.length, (e.label i).Contained)
include contained

theorem orderly_walking {i : Nat} (hi : i ≤ e.length) :
    Orderly (e.state i) ∧ Walking (e.state i) := by
  refine e.persists (P := fun s => Orderly s ∧ Walking s) (Nat.zero_le i) ?_ ?_
  · intro k _ hk inv
    have h := step_inversion (e.next k (by omega))
    exact ⟨inv.1.step (contained k (by omega)) h, inv.2.step inv.1 h⟩
  · refine ⟨orderly_started e.start, ?_⟩
    intro u vars rest looping
    rw [e.start.call u] at looping
    cases looping

theorem recorded_subset {i j : Nat} (hij : i ≤ j) (hj : j ≤ e.length) :
    (e.state i).recorded ⊆ (e.state j).recorded := by
  refine e.persists (P := fun s => (e.state i).recorded ⊆ s.recorded) hij ?_ (fun _ => id)
  intro k _ hk more v mem
  exact (orderly_walking contained (by omega)).1.recorded_subset
    (step_inversion (e.next k (by omega))) (more mem)

/-- The files that a call goes through are those that it listed, and it goes by the versions
that were recorded then. -/
theorem listed {i : Nat} {u : Upgrader} {vars : Vars} {rest : List MigrationFile}
    (hi : i ≤ e.length) (looping : ((e.state i).call u).loop = some (vars, rest)) :
    ∃ directory j, Call e u directory j i ∧ vars.paths = sortedGlob directory ∧
      vars.already = (e.state j).recorded := by
  induction i generalizing vars rest with
  | zero =>
    rw [e.start.call u] at looping
    cases looping
  | succ i ih =>
    have inv := (orderly_walking contained (show i ≤ e.length by omega)).1
    have extend : ∀ {old rest}, ¬ (e.label i).Opens u →
        ((e.state i).call u).loop = some (old, rest) →
        ∃ directory j, Call e u directory j (i + 1) ∧ old.paths = sortedGlob directory ∧
          old.already = (e.state j).recorded := by
      intro old rest onward before
      obtain ⟨directory, j, call, same⟩ := ih (by omega) before
      have later : ∀ k, j < k → k < i + 1 → ¬ (e.label k).Opens u := by
        intro k hjk hki
        rcases Nat.lt_succ_iff_lt_or_eq.mp hki with hk | rfl
        · exact call.onward k hjk hk
        · exact onward
      exact ⟨directory, j, ⟨by have := call.before; omega, hi, call.select, later⟩, same⟩
    cases inv.turn (step_inversion (e.next i (by omega))) looping with
    | lists directory label =>
      exact ⟨directory, i, ⟨by omega, hi, label, by omega⟩, rfl, rfl⟩
    | stays onward before =>
      obtain ⟨directory, j, call, same⟩ := extend onward before
      exact ⟨directory, j, call, same⟩
    | skips onward before known => exact extend onward before
    | commits onward before pending now =>
      obtain ⟨directory, j, call, same⟩ := extend onward before
      exact ⟨directory, j, call, same⟩

end

theorem Call.unique {e : upgrades.Execution} {u : Upgrader} {directory directory' : Directory}
    {i i' j : Nat} (call : Call e u directory i j) (call' : Call e u directory' i' j) :
    i = i' ∧ directory = directory' := by
  have here : (e.label i).Opens u := by
    rw [call.select]
    exact rfl
  have here' : (e.label i').Opens u := by
    rw [call'.select]
    exact rfl
  have same : i = i' := by
    rcases Nat.lt_trichotomy i i' with lt | eq | gt
    · exact (call.onward i' lt call'.before here').elim
    · exact eq
    · exact (call'.onward i gt call.before here).elim
  subst same
  have labels := call.select.symm.trans call'.select
  cases labels
  exact ⟨rfl, rfl⟩

theorem sortedGlob_pairwise (directory : Directory) :
    (sortedGlob directory).Pairwise fun a b => a.name ≤ b.name := by
  have total : Std.Total fun a b : MigrationFile => a.name ≤ b.name :=
    ⟨fun a b => le_total a.name b.name⟩
  have trans : IsTrans MigrationFile fun a b => a.name ≤ b.name :=
    ⟨fun _ _ _ => le_trans⟩
  exact List.pairwise_insertionSort _ _

/-- The call comes to its end by itself, applies nothing, and returns the empty list. -/
def ReturnsEmpty (s : State) (u : Upgrader) (rest : List MigrationFile) : Prop :=
  ∃ t vars, Machine.run step s (List.replicate rest.length (.skip u) ++ [.finish u]) = some t ∧
    t.call u = .returned vars ∧ vars.appliedNow = [] ∧ t.committed = s.committed

theorem returnsEmpty {vars : Vars} {rest : List MigrationFile} (empty : vars.txn.ran = [])
    (nothing : vars.appliedNow = []) (next : s.call u = .next vars rest)
    (known : ∀ path ∈ rest, path.version ∈ vars.already) : ReturnsEmpty s u rest := by
  induction rest generalizing s with
  | nil =>
    let ended := (s.commit u vars.txn).goto u (.returned { vars with txn := {} })
    have finished : step s (.finish u) = some ended := by
      simp [step, next, ended]
    refine ⟨ended, { vars with txn := {} }, ?_, State.goto_call, nothing, ?_⟩
    · rw [List.length_nil, List.replicate_zero, List.nil_append, Machine.run, finished]
      rfl
    · simp [ended, empty]
  | cons path rest ih =>
    have skipped : step s (.skip u) = some (s.goto u (.next vars rest)) := by
      simp [step, next, known path (by simp)]
    obtain ⟨t, last, run, ends⟩ := ih State.goto_call fun g mem => known g (by simp [mem])
    refine ⟨t, last, ?_, ends⟩
    rw [List.length_cons, List.replicate_succ, List.cons_append, Machine.run, skipped]
    exact run

/-- The step commits one file of a call, and every file that sorts before it is recorded. -/
def CommitsNext (e : upgrades.Execution) (i : Nat) : Prop :=
  ∃ u directory j path, Call e u directory j i ∧ e.label i = .commit u ∧
    path ∈ sortedGlob directory ∧
    (e.state (i + 1)).committed = (e.state i).committed ++ [path.version] ∧
    ∀ earlier ∈ sortedGlob directory, earlier.name < path.name →
      earlier.version ∈ (e.state i).recorded

/-- What any number of upgrades, each of which may be stopped, do to the migrations. -/
structure Applied (e : upgrades.Execution) : Prop where
  recorded : ∀ i ≤ e.length, ∀ v, v ∈ (e.state i).recorded ↔ v ∈ (e.state i).committed
  once : ∀ i ≤ e.length, (e.state i).committed.Nodup
  ordered : ∀ i < e.length,
    (e.state (i + 1)).committed = (e.state i).committed ∨ CommitsNext e i
  complete : ∀ u directory i j vars, Call e u directory i j →
    (e.state j).call u = .returned vars →
    ∀ path ∈ sortedGlob directory, path.version ∈ (e.state j).recorded
  /-- After a call that has returned, another sends no SQL, and returns the empty list. -/
  again : ∀ u directory i j vars, Call e u directory i j →
    (e.state j).call u = .returned vars →
    ∀ w i' k, j ≤ i' → Call e w directory i' k →
      (k < e.length → e.label k ≠ .execute w) ∧
      (∀ last, (e.state k).call w = .returned last → last.appliedNow = []) ∧
      ∀ last rest, (e.state k).call w = .next last rest → ReturnsEmpty (e.state k) w rest

section

variable {e : upgrades.Execution} (contained : ∀ i < e.length, (e.label i).Contained)
include contained

theorem ordered {i : Nat} (hi : i < e.length) :
    (e.state (i + 1)).committed = (e.state i).committed ∨ CommitsNext e i := by
  obtain ⟨inv, walking⟩ := orderly_walking contained hi.le
  rcases inv.effect (step_inversion (e.next i hi)) with
    ⟨-, same⟩ | ⟨u, vars, path, rest, label, committing, -, more⟩
  · exact .inl same
  have looping : ((e.state i).call u).loop = some (vars, path :: rest) := by
    rw [committing]
    rfl
  obtain ⟨directory, j, call, paths, -⟩ := listed contained hi.le looping
  have walk := walking u _ _ looping
  obtain ⟨done, split, recorded⟩ := walk.passed
  refine .inr ⟨u, directory, j, path, call, label, paths ▸ walk.mem_paths, more, ?_⟩
  intro earlier mem before
  have sorted := sortedGlob_pairwise directory
  rw [← paths, split] at mem sorted
  rcases List.mem_append.mp mem with mem | mem
  · exact recorded earlier mem
  · have after : path.name ≤ earlier.name := by
      rcases List.mem_cons.mp mem with rfl | mem
      · exact le_refl _
      · exact List.rel_of_pairwise_cons (List.pairwise_append.mp sorted).2.1 mem
    exact (lt_irrefl _ (before.trans_le after)).elim

theorem complete {u : Upgrader} {directory : Directory} {i j : Nat} {vars : Vars}
    (call : Call e u directory i j) (returned : (e.state j).call u = .returned vars) :
    ∀ path ∈ sortedGlob directory, path.version ∈ (e.state j).recorded := by
  have looping : ((e.state j).call u).loop = some (vars, []) := by
    rw [returned]
    rfl
  obtain ⟨directory', i', call', paths, -⟩ := listed contained call.within looping
  obtain ⟨-, rfl⟩ := call.unique call'
  obtain ⟨done, split, recorded⟩ :=
    ((orderly_walking contained call.within).2 u _ _ looping).passed
  rw [← paths, split, List.append_nil]
  exact recorded

/-- A call that found all its files recorded. -/
theorem nothing_pending {w : Upgrader} {directory : Directory} {i k : Nat} {vars : Vars}
    {rest : List MigrationFile} (call : Call e w directory i k)
    (all : ∀ path ∈ sortedGlob directory, path.version ∈ (e.state i).recorded)
    (looping : ((e.state k).call w).loop = some (vars, rest)) :
    (∀ path ∈ rest, path.version ∈ vars.already) ∧ vars.appliedNow = [] := by
  obtain ⟨directory', i', call', paths, already⟩ := listed contained call.within looping
  obtain ⟨rfl, rfl⟩ := call.unique call'
  have walk := (orderly_walking contained call.within).2 w _ _ looping
  have known : ∀ path ∈ vars.paths, path.version ∈ vars.already := by
    rw [paths, already]
    exact all
  refine ⟨?_, ?_⟩
  · obtain ⟨done, split, -⟩ := walk.passed
    intro path mem
    exact known path (by simp [split, mem])
  · refine List.eq_nil_iff_forall_not_mem.mpr fun v mem => ?_
    obtain ⟨pending, path, there, rfl⟩ := walk.applied v mem
    exact pending (known path there)

theorem again {w : Upgrader} {directory : Directory} {i k : Nat} (call : Call e w directory i k)
    (all : ∀ path ∈ sortedGlob directory, path.version ∈ (e.state i).recorded) :
    (k < e.length → e.label k ≠ .execute w) ∧
      (∀ last, (e.state k).call w = .returned last → last.appliedNow = []) ∧
      ∀ last rest, (e.state k).call w = .next last rest → ReturnsEmpty (e.state k) w rest := by
  refine ⟨?_, ?_, ?_⟩
  · intro hk label
    have h := step_inversion (e.next k hk)
    rw [label] at h
    generalize e.state (k + 1) = after at h
    cases h with
    | execute next pending =>
      have looping := congrArg Phase.loop next
      exact pending ((nothing_pending contained call all looping).1 _ (by simp))
  · intro last returned
    exact (nothing_pending contained call all (congrArg Phase.loop returned)).2
  · intro last rest next
    obtain ⟨known, nothing⟩ := nothing_pending contained call all (congrArg Phase.loop next)
    obtain ⟨⟨ran, -⟩, -⟩ := (orderly_walking contained call.within).1.under next
    exact returnsEmpty ran nothing next known

/-- Whatever fails, and however many upgrade at once. -/
theorem migrations_apply_once : Applied e where
  recorded _ hi := (orderly_walking contained hi).1.logged
  once _ hi := (orderly_walking contained hi).1.once
  ordered _ hi := ordered contained hi
  complete _ _ _ _ _ := complete contained
  again _ _ _ _ _ call returned _ _ _ hj call' :=
    again contained call' fun path mem =>
      recorded_subset contained hj (call'.before.le.trans call'.within)
        (complete contained call returned path mem)

end

def emptyDatabase : State where
  tracking := none
  committed := []
  making := none
  inserting _ := none
  call _ := .idle

theorem started_emptyDatabase : Started emptyDatabase where
  logged _ := Iff.rfl
  once := .nil
  key := .nil
  making := rfl
  inserting _ := rfl
  call _ := rfl

def twoFiles : Directory :=
  [⟨↑"0002_chat.sql", [.work]⟩, ⟨↑"README.md", []⟩, ⟨↑"0001_init.sql", [.work, .work]⟩]

/-- The second upgrade runs a file that the first commits before it. -/
def race : upgrades.Execution :=
  Machine.replay step emptyDatabase started_emptyDatabase
    [.connect 0, .connect 1, .create 0, .select 0 twoFiles, .execute 0, .statement 0,
      .statement 0, .endSql 0, .record 0, .commit 0, .create 1, .select 1 twoFiles, .skip 1,
      .execute 1, .statement 1, .endSql 1, .execute 0, .statement 0, .endSql 0, .record 0,
      .commit 0, .stop 1, .finish 0, .connect 1, .create 1, .select 1 twoFiles, .skip 1,
      .skip 1, .finish 1]
    (.stop 0) (by decide +kernel)

theorem race_applies_once :
    Applied race ∧ (race.state 29).committed = [↑"0001_init", ↑"0002_chat"] ∧
      ((race.state 29).call 0).loop.map (fun p => p.1.appliedNow) =
        some [↑"0001_init", ↑"0002_chat"] ∧
      ((race.state 29).call 1).loop.map (fun p => p.1.appliedNow) = some [] := by
  have contained : ∀ i < race.length, (race.label i).Contained := by
    change ∀ i < 29, _
    decide +kernel
  exact ⟨migrations_apply_once contained, by decide +kernel, by decide +kernel,
    by decide +kernel⟩

/-- A file that opens and commits a transaction of its own. -/
def wrapped : Directory := [⟨↑"0001_init.sql", [.begin, .work, .commit]⟩]

/-- The upgrade dies before it inserts the version, and is started again. -/
def crashed : upgrades.Execution :=
  Machine.replay step emptyDatabase started_emptyDatabase
    [.connect 0, .create 0, .select 0 wrapped, .execute 0, .statement 0, .statement 0,
      .statement 0, .stop 0, .connect 0, .create 0, .select 0 wrapped, .execute 0,
      .statement 0, .statement 0, .statement 0]
    (.stop 0) (by decide +kernel)

theorem crashed_commits_twice :
    (crashed.state 15).committed = [↑"0001_init", ↑"0001_init"] ∧
      (crashed.state 15).recorded = [] ∧ ¬ Applied crashed := by
  have twice : (crashed.state 15).committed = [↑"0001_init", ↑"0001_init"] := by
    decide +kernel
  refine ⟨twice, by decide +kernel, ?_⟩
  intro applied
  have once := applied.once 15 le_rfl
  rw [twice] at once
  simp at once

end AgenticOctopus.Spine.Migrations
