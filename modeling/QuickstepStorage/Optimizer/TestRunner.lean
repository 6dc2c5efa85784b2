import Mathlib.Data.String.Basic

/-! # The distributed execution generator test runner

`DistributedExecutionGeneratorTestRunner::runTestCase` feeds one test case's SQL to the parser and
runs its statements in order. Each statement is echoed, given the next query id, optimized,
admitted to the Foreman, and its result relation, if it has one, is printed to the output stream
and dropped. The first parse error or `SqlError` ends the loop with its message as the test's
output; when the output is still empty at the end, it is what was printed. The parser, the
optimizer, the Foreman and the printer live elsewhere: `Harness` takes them as functions of the
database they read, and the results here are about the runner's own loop and its query ids.
-/

namespace QuickstepStorage.Optimizer

/-- `ParseResult`, by its `condition`. -/
inductive ParseResult (Statement : Type) where
  /-- `kSuccess`, with the `parsed_statement`. -/
  | success (parsedStatement : Statement)
  /-- `kEndOfInput`. -/
  | endOfInput
  /-- `kError`, with the `error_message`. -/
  | error (errorMessage : String)
deriving DecidableEq, Repr

/-- The parts of a `QueryHandle` this runner builds and reads. -/
structure QueryHandle (Plan Relation : Type) where
  /-- The id `QueryHandle(query_id_++, cli_id_)` was built with, a `std::size_t`. -/
  queryId : UInt64
  /-- The plan `generateQueryHandle` stored in the handle. -/
  plan : Plan
  /-- `getQueryResultRelation()`. -/
  queryResultRelation : Option Relation
deriving DecidableEq, Repr

/-- What the runner calls but does not implement, as functions of the test database. -/
structure Harness (Database Statement Plan Relation SqlError : Type) where
  /-- The results `getNextStatement()` returns after `feedNextBuffer(input)`, in order; past the
  end of the list it returns `kEndOfInput`. -/
  parse : String → List (ParseResult Statement)
  /-- `ParseStatement::toString()`. -/
  toString : Statement → String
  /-- `generateQueryHandle` on a handle with the given query id: the plan and result relation it
  sets, or the `SqlError` it throws, with the catalog as it leaves it. -/
  generateQueryHandle :
    Database → UInt64 → Statement → Database × Except SqlError (Plan × Option Relation)
  /-- The Foreman running an admitted query until it sends `kQueryExecutionSuccessMessage`. -/
  execute : Database → QueryHandle Plan Relation → Database
  /-- `PrintToScreen::PrintRelation`: the text it writes to the output stream. -/
  printRelation : Database → Relation → String
  /-- `DropRelation::Drop`. -/
  dropRelation : Database → Relation → Database
  /-- `SqlError::formatMessage(input)`. -/
  formatMessage : SqlError → String → String
  /-- The loader's `clear(); createTestRelation(false); loadTestRelation();`. -/
  resetDatabase : Database → Database
  /-- The database the constructor creates and loads. -/
  testDatabase : Database

/-- The runner's state between test cases. -/
structure DistributedExecutionGeneratorTestRunner (Database : Type) where
  /-- `query_id_`, a `std::size_t` counter: `query_id_++` wraps from `2 ^ 64 - 1` to `0`. -/
  queryId : UInt64
  /-- The catalog and storage of `test_database_loader_`. -/
  database : Database
  /-- The query ids of the admit requests sent to the Foreman, oldest first. -/
  admitted : List UInt64
  /-- What `std::printf` echoed to standard output. -/
  stdout : String

/-- `kResetOption`. -/
def kResetOption : String := "reset_before_execution"

namespace DistributedExecutionGeneratorTestRunner

variable {Database Statement Plan Relation SqlError : Type}
  (h : Harness Database Statement Plan Relation SqlError)

/-- The constructor: `query_id_(0)`, and the test relation created and loaded. -/
def initial : DistributedExecutionGeneratorTestRunner Database :=
  ⟨0, h.testDatabase, [], ""⟩

/-- The `while (true)` loop of `runTestCase` over the parser's results, carrying the runner,
`*output` and the output stream; it returns at the first `break`. -/
def runStatements (input : String) :
    List (ParseResult Statement) → DistributedExecutionGeneratorTestRunner Database → String →
      String → DistributedExecutionGeneratorTestRunner Database × String × String
  | [], runner, output, stream => (runner, output, stream)
  | .endOfInput :: _, runner, output, stream => (runner, output, stream)
  | .error errorMessage :: _, runner, _, stream => (runner, errorMessage, stream)
  | .success statement :: results, runner, output, stream =>
    let queryId := runner.queryId
    let runner := { runner with
      stdout := runner.stdout ++ h.toString statement ++ "\n", queryId := queryId + 1 }
    match h.generateQueryHandle runner.database queryId statement with
    | (database, .error error) => ({ runner with database }, h.formatMessage error input, stream)
    | (database, .ok (plan, queryResultRelation)) =>
      let database := h.execute database ⟨queryId, plan, queryResultRelation⟩
      let runner := { runner with admitted := runner.admitted ++ [queryId] }
      match queryResultRelation with
      | none => runStatements input results { runner with database } output stream
      | some relation =>
        runStatements input results { runner with database := h.dropRelation database relation }
          output (stream ++ h.printRelation database relation)

/-- `runTestCase(input, options, output)`: the runner afterwards and `*output`. -/
def runTestCase (runner : DistributedExecutionGeneratorTestRunner Database) (input : String)
    (options : List String) (output : String) :
    DistributedExecutionGeneratorTestRunner Database × String :=
  let runner :=
    if kResetOption ∈ options then { runner with database := h.resetDatabase runner.database }
    else runner
  let (runner, output, stream) := runStatements h input (h.parse input) runner output ""
  (runner, if output.isEmpty then stream else output)

/-- `runTestCase` on each test case in turn, as the test driver calls it on one runner; a test
case is its input, its options and the output string it is given. -/
def runTestCases (runner : DistributedExecutionGeneratorTestRunner Database)
    (testCases : List (String × List String × String)) :
    DistributedExecutionGeneratorTestRunner Database :=
  testCases.foldl (fun runner testCase =>
    (runTestCase h runner testCase.1 testCase.2.1 testCase.2.2).1) runner

/-! ### The parser's stop -/

/-- Once the parser reports the end of the input or an error, nothing it would return after that
is read: no later statement is echoed, optimized or admitted. -/
theorem runStatements_append_of_stop (input : String) (stop : ParseResult Statement)
    (stops : ∀ statement, stop ≠ .success statement) (before after : List (ParseResult Statement))
    (runner : DistributedExecutionGeneratorTestRunner Database) (output stream : String) :
    runStatements h input (before ++ stop :: after) runner output stream =
      runStatements h input (before ++ [stop]) runner output stream := by
  induction before generalizing runner output stream with
  | nil =>
    cases stop with
    | success statement => exact absurd rfl (stops statement)
    | endOfInput => rfl
    | error errorMessage => rfl
  | cons result before ih =>
    cases result with
    | success statement =>
      simp only [List.cons_append, runStatements]
      split
      · rfl
      · split <;> apply ih
    | endOfInput => rfl
    | error errorMessage => rfl

/-- A parse error between two statements: the second is never run. -/
theorem runStatements_append_of_parse_error :
    let harness : Harness Unit Unit Unit Unit Unit :=
      ⟨fun _ => [], fun _ => "", fun d _ _ => (d, .ok ((), some ())), fun d _ => d,
        fun _ _ => "1 row", fun d _ => d, fun _ _ => "", id, ()⟩
    (∀ statement, (.error "syntax error" : ParseResult Unit) ≠ .success statement) ∧
      runStatements harness "" ([.success ()] ++ .error "syntax error" :: [.success ()])
          (initial harness) "" "" =
        runStatements harness "" ([.success ()] ++ [.error "syntax error"]) (initial harness) "" "" :=
  ⟨fun _ stop => ParseResult.noConfusion stop,
    runStatements_append_of_stop _ "" _ (fun _ stop => ParseResult.noConfusion stop) _ _ _ _ _⟩

/-! ### The output -/

/-- Statements the optimizer accepts in the state the runner has reached leave `*output` alone,
and the loop goes on with the results after them. -/
theorem runStatements_accepted (input : String) (before : List Statement)
    (runner : DistributedExecutionGeneratorTestRunner Database) (output stream : String)
    (accepted : ∀ k (below : k < before.length),
      let reached := (runStatements h input ((before.take k).map .success) runner output stream).1
      (h.generateQueryHandle reached.database reached.queryId (before.get ⟨k, below⟩)).2.isOk)
    (rest : List (ParseResult Statement)) :
    runStatements h input (before.map .success ++ rest) runner output stream =
      runStatements h input rest
        (runStatements h input (before.map .success) runner output stream).1 output
        (runStatements h input (before.map .success) runner output stream).2.2 := by
  induction before generalizing runner stream with
  | nil => rfl
  | cons statement before ih =>
    have first := accepted 0 (Nat.succ_pos _)
    rcases generated : h.generateQueryHandle runner.database runner.queryId statement with
      ⟨database, error | ⟨plan, _ | relation⟩⟩
    · simp [runStatements, generated, Except.isOk, Except.toBool] at first
    all_goals
      simp only [List.map_cons, List.cons_append, runStatements, generated]
      refine ih _ _ fun k below => ?_
      simpa only [List.take_succ_cons, List.map_cons, List.get_eq_getElem,
        List.getElem_cons_succ, runStatements, generated] using
        accepted (k + 1) (Nat.succ_lt_succ below)

/-- A test case that stops on an error with a message, a parse error or an `SqlError` that the
optimizer throws in the state the statements before it leave, outputs that message alone: what
those statements printed is dropped, and so is the `output` it was given. -/
theorem runTestCase_output_of_error (runner : DistributedExecutionGeneratorTestRunner Database)
    (input : String) (options : List String) (output : String)
    (start : DistributedExecutionGeneratorTestRunner Database)
    (started : start = if kResetOption ∈ options then
      { runner with database := h.resetDatabase runner.database } else runner)
    (before : List Statement)
    (accepted : ∀ k (below : k < before.length),
      let reached := (runStatements h input ((before.take k).map .success) start output "").1
      (h.generateQueryHandle reached.database reached.queryId (before.get ⟨k, below⟩)).2.isOk)
    (stop : ParseResult Statement) (after : List (ParseResult Statement))
    (parsed : h.parse input = before.map .success ++ stop :: after)
    (message : String) (nonempty : message ≠ "")
    (stopsWith : stop = .error message ∨ ∃ statement error, stop = .success statement ∧
      (let reached := (runStatements h input (before.map .success) start output "").1;
        (h.generateQueryHandle reached.database reached.queryId statement).2 = .error error) ∧
      h.formatMessage error input = message) :
    (runTestCase h runner input options output).2 = message := by
  have shown : message.isEmpty = false :=
    Bool.eq_false_iff.mpr fun empty => nonempty ((String.isEmpty_iff _).mp empty)
  dsimp only [runTestCase]
  rw [← started, parsed, runStatements_accepted h input before start output "" accepted]
  rcases stopsWith with rfl | ⟨statement, error, rfl, rejected, formatted⟩
  · simp only [runStatements, shown, Bool.false_eq_true, if_false]
  · obtain ⟨database, generated⟩ : ∃ database, h.generateQueryHandle
        (runStatements h input (before.map .success) start output "").1.database
        (runStatements h input (before.map .success) start output "").1.queryId statement =
          (database, .error error) := ⟨_, Prod.ext rfl rejected⟩
    simp only [runStatements, generated, formatted, shown, Bool.false_eq_true, if_false]

/-- `CREATE TABLE t; SELECT * FROM t;` and then a parse error: the `SELECT` is accepted only once
the `CREATE TABLE` has run, it prints a row, and the output is the error message alone. -/
theorem runTestCase_output_of_parse_error :
    let harness : Harness Nat Bool Unit Unit Unit :=
      ⟨fun _ => [.success true, .success false, .error "syntax error"], fun _ => "",
        fun tables _ create => if create then (tables + 1, .ok ((), none))
          else if tables = 0 then (tables, .error ()) else (tables, .ok ((), some ())),
        fun tables _ => tables, fun _ _ => "1 row", fun tables _ => tables, fun _ _ => "",
        fun _ => 0, 0⟩
    (∀ k (below : k < [true, false].length),
      let reached :=
        (runStatements harness "" (([true, false].take k).map .success) (initial harness) "" "").1
      (harness.generateQueryHandle reached.database reached.queryId
        ([true, false].get ⟨k, below⟩)).2.isOk) ∧
      (harness.generateQueryHandle 0 0 false).2 = .error () ∧
      (runTestCase harness (initial harness) "" [] "").2 = "syntax error" :=
  ⟨by decide, rfl, runTestCase_output_of_error _ _ _ _ _ _ rfl [true, false] (by decide) _ []
    rfl _ (by decide) (.inl rfl)⟩

/-! ### Query ids -/

/-- Every admitted query id is below `query_id_`, and the ids were admitted in increasing order. -/
def IdsBelow (runner : DistributedExecutionGeneratorTestRunner Database) : Prop :=
  runner.admitted.Pairwise (· < ·) ∧ ∀ q ∈ runner.admitted, q < runner.queryId

/-- `query_id_++` does not wrap while there is room below `2 ^ 64`. -/
private theorem toNat_add_one {queryId : UInt64} (room : queryId.toNat + 1 < 2 ^ 64) :
    (queryId + 1).toNat = queryId.toNat + 1 := by
  rw [UInt64.toNat_add]
  exact Nat.mod_eq_of_lt room

/-- Moving `query_id_` on, with room, keeps every id below it. -/
private theorem lt_add_one_of_le {q queryId : UInt64} (room : queryId.toNat + 1 < 2 ^ 64)
    (le : q.toNat ≤ queryId.toNat) : q < queryId + 1 :=
  show q.toNat < (queryId + 1).toNat by
    rw [toNat_add_one room]
    omega

/-- Admitting the current id and moving `query_id_` past it keeps the ids below it. -/
theorem idsBelow_append_queryId {admitted : List UInt64} {queryId : UInt64}
    (ids : admitted.Pairwise (· < ·) ∧ ∀ q ∈ admitted, q < queryId)
    (room : queryId.toNat + 1 < 2 ^ 64) :
    (admitted ++ [queryId]).Pairwise (· < ·) ∧ ∀ q ∈ admitted ++ [queryId], q < queryId + 1 := by
  obtain ⟨increasing, below⟩ := ids
  refine ⟨List.pairwise_append.mpr ⟨increasing, List.pairwise_singleton _ _, ?_⟩, ?_⟩
  · simpa only [List.mem_singleton, forall_eq] using below
  · simpa only [List.mem_append, List.mem_singleton, or_imp, forall_and, forall_eq] using
      ⟨fun q mem => lt_add_one_of_le room (Nat.le_of_lt (below q mem)),
        lt_add_one_of_le room (Nat.le_refl _)⟩

/-- Each statement takes `query_id_` and moves it on, whether or not the optimizer accepts it, and
only an accepted statement's id is admitted; with room for every result, `query_id_` moves on by
at most one per result. -/
theorem runStatements_idsBelow (input : String) (results : List (ParseResult Statement))
    (runner : DistributedExecutionGeneratorTestRunner Database) (output stream : String)
    (ids : IdsBelow runner) (room : runner.queryId.toNat + results.length < 2 ^ 64) :
    IdsBelow (runStatements h input results runner output stream).1 ∧
      (runStatements h input results runner output stream).1.queryId.toNat ≤
        runner.queryId.toNat + results.length := by
  induction results generalizing runner output stream with
  | nil => exact ⟨ids, Nat.le_add_right _ _⟩
  | cons result results ih =>
    rw [List.length_cons] at room ⊢
    cases result with
    | success statement =>
      have fits : runner.queryId.toNat + 1 < 2 ^ 64 := by omega
      have next := toNat_add_one fits
      simp only [runStatements]
      split
      · refine ⟨⟨ids.1, fun q mem => lt_add_one_of_le fits (Nat.le_of_lt (ids.2 q mem))⟩, ?_⟩
        show (runner.queryId + 1).toNat ≤ _
        omega
      · split <;>
        · refine (ih _ _ _ ?_ ?_).imp id fun bound => ?_
          · exact idsBelow_append_queryId ids fits
          · simp only [next]
            omega
          · simp only [next] at bound
            omega
    | _ => exact ⟨ids, Nat.le_add_right _ _⟩

/-- A reset reloads the database and leaves `query_id_` alone. -/
theorem runTestCase_idsBelow (runner : DistributedExecutionGeneratorTestRunner Database)
    (input : String) (options : List String) (output : String) (ids : IdsBelow runner)
    (room : runner.queryId.toNat + (h.parse input).length < 2 ^ 64) :
    IdsBelow (runTestCase h runner input options output).1 ∧
      (runTestCase h runner input options output).1.queryId.toNat ≤
        runner.queryId.toNat + (h.parse input).length := by
  have reset : IdsBelow (if kResetOption ∈ options then
      { runner with database := h.resetDatabase runner.database } else runner) ∧
      (if kResetOption ∈ options then
        { runner with database := h.resetDatabase runner.database } else runner).queryId =
        runner.queryId := by
    split <;> exact ⟨ids, rfl⟩
  have loop := runStatements_idsBelow h input (h.parse input) _ output "" reset.1
    (by rw [reset.2]; exact room)
  rw [reset.2] at loop
  dsimp only [runTestCase]
  revert loop
  generalize runStatements h input (h.parse input) _ output "" = result
  exact id

theorem runTestCases_idsBelow (runner : DistributedExecutionGeneratorTestRunner Database)
    (testCases : List (String × List String × String)) (ids : IdsBelow runner)
    (room : runner.queryId.toNat +
      (testCases.map fun testCase => h.parse testCase.1).flatten.length < 2 ^ 64) :
    IdsBelow (runTestCases h runner testCases) := by
  induction testCases generalizing runner with
  | nil => exact ids
  | cons testCase testCases ih =>
    rw [List.map_cons, List.flatten_cons, List.length_append] at room
    obtain ⟨next, bound⟩ := runTestCase_idsBelow h runner testCase.1 testCase.2.1 testCase.2.2
      ids (by omega)
    exact ih (runTestCase h runner testCase.1 testCase.2.1 testCase.2.2).1 next (by omega)

/-- Over any sequence of test cases on one runner, resets and errors included, whose inputs parse
to fewer than `2 ^ 64` results together, no two admit requests carry the same query id, and none
carries an id the runner will hand out later. The bound is needed: `query_id_++` wraps. -/
theorem admitted_queryIds_increasing (testCases : List (String × List String × String))
    (room : (testCases.map fun testCase => h.parse testCase.1).flatten.length < 2 ^ 64) :
    (runTestCases h (initial h) testCases).admitted.Pairwise (· < ·) ∧
      ∀ q ∈ (runTestCases h (initial h) testCases).admitted,
        q < (runTestCases h (initial h) testCases).queryId :=
  runTestCases_idsBelow h (initial h) testCases ⟨List.Pairwise.nil, fun _ => by simp [initial]⟩
    (by simpa [initial] using room)

/-- Two test cases of two statements each, the second with a reset: the ids run on across it. -/
theorem admitted_queryIds_increasing_with_reset :
    let harness : Harness Unit Unit Unit Unit Unit :=
      ⟨fun _ => [.success (), .success ()], fun _ => "", fun d _ _ => (d, .ok ((), none)),
        fun d _ => d, fun _ _ => "", fun d _ => d, fun _ _ => "", id, ()⟩
    let testCases := [("", [], ""), ("", [kResetOption], "")]
    (testCases.map fun testCase => harness.parse testCase.1).flatten.length < 2 ^ 64 ∧
      (runTestCases harness (initial harness) testCases).admitted = [0, 1, 2, 3] ∧
      (runTestCases harness (initial harness) testCases).admitted.Pairwise (· < ·) ∧
      ∀ q ∈ (runTestCases harness (initial harness) testCases).admitted,
        q < (runTestCases harness (initial harness) testCases).queryId :=
  ⟨by decide, by decide, admitted_queryIds_increasing _ _ (by decide)⟩

end DistributedExecutionGeneratorTestRunner

end QuickstepStorage.Optimizer
