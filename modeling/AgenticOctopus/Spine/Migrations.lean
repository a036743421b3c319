import AgenticOctopus.Foundation.Machine
import AgenticOctopus.Foundation.Text

/-!
# Migrations

`upgrade` on any number of connections at once. A connection sees what others have committed;
what it has done itself since its last commit is lost when it raises or dies. The creation of
`schema_migrations` and the insert of a version wait while another transaction has done the same
and has not ended. The SQL of a file is sent as it is, so it may also end the transaction that it
was sent in; where it does, what follows it is committed at the end of the text.
-/
namespace AgenticOctopus.Spine.Migrations
open Foundation

abbrev Version := Text

/-! ## The files -/

/-- A statement in a migration: one that begins or ends a transaction, or any other. -/
inductive Statement where
  | work | begin | commit | rollback
deriving DecidableEq

structure MigrationFile where
  name : Text
  sql : List Statement

/-- `PurePath.stem` -/
def stem (name : Text) : Text :=
  let dot := name.length - (name.reverse.takeWhile (· ≠ 46)).length - 1
  if 0 < dot ∧ dot < name.length - 1 then name.take dot else name

example : stem ↑"0001_init.sql" = ↑"0001_init" := by decide +kernel

def MigrationFile.version (path : MigrationFile) : Version := stem path.name

/-- What `db/migrations` holds, in the order in which it is listed. -/
abbrev Directory := List MigrationFile

/-- `sorted(MIGRATIONS_DIR.glob("*.sql"))` -/
def sortedGlob (directory : Directory) : List MigrationFile :=
  (directory.filter fun path => (↑".sql" : Text).isSuffixOf path.name).insertionSort
    fun a b => a.name ≤ b.name

/-! ## The calls -/

abbrev Upgrader := Nat

/-- What a connection has done since its last commit. -/
structure Transaction where
  /-- A `BEGIN` was sent. -/
  block : Bool := false
  /-- It has created `schema_migrations`. -/
  made : Bool := false
  /-- The migrations whose SQL it has run, in whole or in part. -/
  ran : List Version := []
  /-- The row that it has inserted. -/
  row : Option Version := none

def Transaction.begin (txn : Transaction) : Transaction := { txn with block := true }

def Transaction.run (txn : Transaction) (version : Version) : Transaction :=
  if version ∈ txn.ran then txn else { txn with ran := txn.ran ++ [version] }

/-- The variables of a call, and its transaction. -/
structure Vars where
  txn : Transaction
  already : List Version
  paths : List MigrationFile
  appliedNow : List Version := []

inductive Phase where
  | idle
  | connected
  | selecting (txn : Transaction)
  | next (vars : Vars) (rest : List MigrationFile)
  | executing (vars : Vars) (path : MigrationFile) (sql : List Statement)
      (rest : List MigrationFile)
  | recording (vars : Vars) (path : MigrationFile) (rest : List MigrationFile)
  | committing (vars : Vars) (path : MigrationFile) (rest : List MigrationFile)
  | returned (vars : Vars)
  | raised

structure State where
  /-- The versions in `schema_migrations`, if the table is there. -/
  tracking : Option (List Version)
  /-- The migrations whose SQL was committed, each as often as it was. -/
  committed : List Version
  making : Option Upgrader
  inserting : Version → Option Upgrader
  call : Upgrader → Phase

namespace State

variable (s : State) (u : Upgrader)

def recorded : List Version := s.tracking.getD []

def goto (phase : Phase) : State := { s with call := Function.update s.call u phase }

/-- The locks of a transaction that has ended. -/
def release : State :=
  { s with
    making := if s.making = some u then none else s.making
    inserting := fun v => if s.inserting v = some u then none else s.inserting v }

def commit (txn : Transaction) : State :=
  { s.release u with
    tracking :=
      if txn.made then some txn.row.toList else s.tracking.map (· ++ txn.row.toList)
    committed := s.committed ++ txn.ran }

/-- `SELECT version FROM schema_migrations` -/
def visible (txn : Transaction) : List Version := if txn.made then txn.row.toList else s.recorded

section
variable {s u} {w : Upgrader} {phase : Phase} {txn : Transaction}

@[simp] theorem goto_recorded : (s.goto u phase).recorded = s.recorded := rfl
@[simp] theorem goto_committed : (s.goto u phase).committed = s.committed := rfl
@[simp] theorem goto_call : (s.goto u phase).call u = phase := Function.update_self ..
@[simp] theorem release_call : (s.release u).call = s.call := rfl
@[simp] theorem commit_committed : (s.commit u txn).committed = s.committed ++ txn.ran := rfl
@[simp] theorem commit_call : (s.commit u txn).call = s.call := rfl

theorem goto_call_of_ne (other : w ≠ u) : (s.goto u phase).call w = s.call w :=
  Function.update_of_ne other ..

end

end State

inductive Label where
  | connect (u : Upgrader)
  | create (u : Upgrader)
  /-- The directory is listed when the loop begins. -/
  | select (u : Upgrader) (directory : Directory)
  | skip (u : Upgrader)
  | execute (u : Upgrader)
  | statement (u : Upgrader)
  | endSql (u : Upgrader)
  | record (u : Upgrader)
  | commit (u : Upgrader)
  | finish (u : Upgrader)
  /-- An exception, or the death of the process or of its connection. -/
  | stop (u : Upgrader)

def Label.upgrader : Label → Upgrader
  | .connect u | .create u | .select u _ | .skip u | .execute u | .statement u | .endSql u
  | .record u | .commit u | .finish u | .stop u => u

/-- One statement of the text that was sent. -/
def runStatement (s : State) (u : Upgrader) (vars : Vars) (path : MigrationFile) :
    Statement → State × Vars
  | .work => (s, { vars with txn := vars.txn.run path.version })
  | .begin => (s, { vars with txn := vars.txn.begin })
  | .commit => (s.commit u vars.txn, { vars with txn := {} })
  | .rollback => (s.release u, { vars with txn := {} })

def step (s : State) : Label → Option State
  | .connect u =>
    match s.call u with
    | .idle | .returned _ | .raised => some (s.goto u .connected)
    | _ => none
  | .create u =>
    match s.call u with
    | .connected =>
      if s.tracking.isSome then some (s.goto u (.selecting { block := true }))
      else if s.making = none then
        some ({ s with making := some u }.goto u (.selecting { block := true, made := true }))
      else none
    | _ => none
  | .select u directory =>
    match s.call u with
    | .selecting txn =>
      let paths := sortedGlob directory
      some (s.goto u (.next { txn := txn, already := s.visible txn, paths := paths } paths))
    | _ => none
  | .skip u =>
    match s.call u with
    | .next vars (path :: rest) =>
      if path.version ∈ vars.already then some (s.goto u (.next vars rest)) else none
    | _ => none
  | .execute u =>
    match s.call u with
    | .next vars (path :: rest) =>
      if path.version ∈ vars.already then none
      else
        let txn := vars.txn.begin.run path.version
        some (s.goto u (.executing { vars with txn := txn } path path.sql rest))
    | _ => none
  | .statement u =>
    match s.call u with
    | .executing vars path (statement :: sql) rest =>
      let (t, vars) := runStatement s u vars path statement
      some (t.goto u (.executing vars path sql rest))
    | _ => none
  | .endSql u =>
    match s.call u with
    | .executing vars path [] rest =>
      if vars.txn.block then some (s.goto u (.recording vars path rest))
      else some ((s.commit u vars.txn).goto u (.recording { vars with txn := {} } path rest))
    | _ => none
  | .record u =>
    match s.call u with
    | .recording vars path rest =>
      if (s.tracking.isSome ∨ vars.txn.made) ∧ path.version ∉ s.recorded ∧
          s.inserting path.version = none then
        let txn := { vars.txn.begin with row := some path.version }
        some
          ({ s with inserting := Function.update s.inserting path.version (some u) }.goto u
            (.committing { vars with txn := txn } path rest))
      else none
    | _ => none
  | .commit u =>
    match s.call u with
    | .committing vars path rest =>
      let appliedNow := vars.appliedNow ++ [path.version]
      some ((s.commit u vars.txn).goto u
        (.next { vars with txn := {}, appliedNow := appliedNow } rest))
    | _ => none
  | .finish u =>
    match s.call u with
    | .next vars [] => some ((s.commit u vars.txn).goto u (.returned { vars with txn := {} }))
    | _ => none
  | .stop u =>
    match s.call u with
    | .idle | .returned _ | .raised => none
    | _ => some ((s.release u).goto u .raised)

/-- A database whose history has recorded what it committed, and nobody at work. -/
structure Started (s : State) : Prop where
  logged : ∀ v, v ∈ s.recorded ↔ v ∈ s.committed
  once : s.committed.Nodup
  key : s.recorded.Nodup
  making : s.making = none
  inserting : ∀ v, s.inserting v = none
  call : ∀ u, s.call u = .idle

/-- Any number of upgrades. -/
def upgrades : Machine State Label :=
  .ofStep Started step

/-! ## What a step can do -/

/-- No transaction is open. -/
def Phase.Away : Phase → Prop
  | .idle | .returned _ | .raised => True
  | _ => False

inductive Step (s : State) : Label → State → Prop where
  | connect {u} (away : (s.call u).Away) : Step s (.connect u) (s.goto u .connected)
  | found {u} (connected : s.call u = .connected) (there : s.tracking.isSome = true) :
      Step s (.create u) (s.goto u (.selecting { block := true }))
  | make {u} (connected : s.call u = .connected) (absent : s.tracking = none)
      (free : s.making = none) :
      Step s (.create u)
        ({ s with making := some u }.goto u (.selecting { block := true, made := true }))
  | select {u txn} (directory : Directory) (selecting : s.call u = .selecting txn) :
      Step s (.select u directory)
        (s.goto u (.next
          { txn := txn, already := s.visible txn, paths := sortedGlob directory }
          (sortedGlob directory)))
  | skip {u vars path rest} (next : s.call u = .next vars (path :: rest))
      (known : path.version ∈ vars.already) : Step s (.skip u) (s.goto u (.next vars rest))
  | execute {u vars path rest} (next : s.call u = .next vars (path :: rest))
      (pending : path.version ∉ vars.already) :
      Step s (.execute u)
        (s.goto u (.executing { vars with txn := vars.txn.begin.run path.version } path path.sql
          rest))
  | statement {u vars path statement sql rest}
      (executing : s.call u = .executing vars path (statement :: sql) rest) :
      Step s (.statement u)
        ((runStatement s u vars path statement).1.goto u
          (.executing (runStatement s u vars path statement).2 path sql rest))
  | endSql {u vars path rest} (executing : s.call u = .executing vars path [] rest)
      (opened : vars.txn.block = true) :
      Step s (.endSql u) (s.goto u (.recording vars path rest))
  | endCommitted {u vars path rest} (executing : s.call u = .executing vars path [] rest)
      (ended : vars.txn.block = false) :
      Step s (.endSql u)
        ((s.commit u vars.txn).goto u (.recording { vars with txn := {} } path rest))
  | record {u vars path rest} (recording : s.call u = .recording vars path rest)
      (there : s.tracking.isSome = true ∨ vars.txn.made = true)
      (fresh : path.version ∉ s.recorded) (free : s.inserting path.version = none) :
      Step s (.record u)
        ({ s with inserting := Function.update s.inserting path.version (some u) }.goto u
          (.committing { vars with txn := { vars.txn.begin with row := some path.version } } path
            rest))
  | commit {u vars path rest} (committing : s.call u = .committing vars path rest) :
      Step s (.commit u)
        ((s.commit u vars.txn).goto u
          (.next { vars with txn := {}, appliedNow := vars.appliedNow ++ [path.version] } rest))
  | finish {u vars} (next : s.call u = .next vars []) :
      Step s (.finish u) ((s.commit u vars.txn).goto u (.returned { vars with txn := {} }))
  | stop {u} (active : ¬ (s.call u).Away) : Step s (.stop u) ((s.release u).goto u .raised)

theorem step_inversion {s t : State} {l : Label} (h : step s l = some t) : Step s l t := by
  cases l with
  | connect u =>
    simp only [step] at h
    split at h <;> cases h <;> exact .connect (by simp [Phase.Away, *])
  | create u =>
    simp only [step] at h
    split at h
    next connected =>
      split_ifs at h with there free
      · cases h
        exact .found connected there
      · cases h
        exact .make connected (by simpa using there) free
    next => cases h
  | select u directory =>
    simp only [step] at h
    split at h
    next txn selecting =>
      cases h
      exact .select directory selecting
    next => cases h
  | skip u =>
    simp only [step] at h
    split at h
    next vars path rest next =>
      split_ifs at h with known
      cases h
      exact .skip next known
    next => cases h
  | execute u =>
    simp only [step] at h
    split at h
    next vars path rest next =>
      split_ifs at h with known
      cases h
      exact .execute next known
    next => cases h
  | statement u =>
    simp only [step] at h
    split at h
    next vars path statement sql rest executing =>
      cases h
      exact .statement executing
    next => cases h
  | endSql u =>
    simp only [step] at h
    split at h
    next vars path rest executing =>
      split_ifs at h with opened
      · cases h
        exact .endSql executing opened
      · cases h
        exact .endCommitted executing (by simpa using opened)
    next => cases h
  | record u =>
    simp only [step] at h
    split at h
    next vars path rest recording =>
      split_ifs at h with may
      cases h
      exact .record recording may.1 may.2.1 may.2.2
    next => cases h
  | commit u =>
    simp only [step] at h
    split at h
    next vars path rest committing =>
      cases h
      exact .commit committing
    next => cases h
  | finish u =>
    simp only [step] at h
    split at h
    next vars next =>
      cases h
      exact .finish next
    next => cases h
  | stop u =>
    simp only [step] at h
    split at h
    next => cases h
    next => cases h
    next => cases h
    next not_idle not_returned not_raised =>
      cases h
      refine .stop ?_
      cases phase : s.call u with
      | idle => exact (not_idle phase).elim
      | returned vars => exact (not_returned vars phase).elim
      | raised => exact (not_raised phase).elim
      | _ => exact id

end AgenticOctopus.Spine.Migrations
