import Funnel.Command.Run
import Funnel.Proofs.Config.WellFormed
import Funnel.Proofs.Plan.Reached
import Funnel.Proofs.Plan.Relation
import Funnel.Proofs.Store.Database

/-!
# When a run writes

A run reads its configuration, fetches events and records and computes its results before it writes
anything. What it writes is one transaction, which replaces what the run before published.
-/

namespace Funnel

open Store Time

/-- A statement that only reads. -/
def Store.Statement.isQuery : Statement → Bool
  | selectEvents .. | selectAttributes .. | selectMetrics _ => true
  | _ => false

/-- The plan with the period that was asked for, if any was. -/
def Plan.over (sinceDays : Option Int64) (plan : Plan) : Plan :=
  sinceDays.elim plan plan.withPeriod

/-- What a plan comes to at some time: the rows of both fetches, which can be read, and the results
of acceptable events. -/
structure Computation (plan : Plan) where
  stamp : Stamp
  since : Option Instant
  window : plan.windowStart stamp.runAt = .ok since
  eventRows : List EventRow
  events : List Event
  readEvents : eventRows.mapM (EventRow.toEvent plan.config.dimensions) = .ok events
  recordRows : List AttributeRow
  lookedUp : plan.config.lookup = none → recordRows = []
  records : List AttributeRecord
  readRecords : recordRows.mapM AttributeRow.toRecord = .ok records
  output : RunOutput
  finished : plan.run events records = .ok output

/-- What a run has found out before it writes: a configuration that passes its checks, a positive
period, and what its plan comes to. -/
structure Preparation (path : String) (sinceDays : Option Int64) where
  contents : Except Text.FileError String
  loaded : Plan
  planned : (Config.load contents >>= Plan.ofConfig) = .ok loaded
  positive : ∀ days, sinceDays = some days → 0 < days
  computed : Computation (loaded.over sinceDays)

/-- The exchanges in which a plan is computed. -/
def Computation.exchanges {plan : Plan} (c : Computation plan) : List Exchange :=
  [⟨.connect, .ok ()⟩, ⟨.freshId, c.stamp.runId⟩, ⟨.currentTime, c.stamp.runAt⟩,
    ⟨.execute (.selectEvents plan.config.source plan.config.filters c.since), .ok c.eventRows⟩] ++
    plan.config.lookup.toList.map fun lookup =>
      ⟨.execute (.selectAttributes lookup plan.dimensions), .ok c.recordRows⟩

namespace Preparation

variable {path : String} {sinceDays : Option Int64}

def plan (p : Preparation path sinceDays) : Plan :=
  p.loaded.over sinceDays

/-- The exchanges in which a run finds out what it does. -/
def exchanges (p : Preparation path sinceDays) : List Exchange :=
  ⟨.readFile path, p.contents⟩ :: p.computed.exchanges

/-- The transaction that publishes what a run has found out. -/
def transaction (p : Preparation path sinceDays) : List Statement :=
  Store.transaction p.plan.config.destination p.computed.stamp p.computed.output

end Preparation

/-- The text of a configuration whose results go into some schema. -/
def visitsText (schema : String) : String :=
  "\x7b\"funnel_name\": \"visits\", \"source\": \x7b\"table\": \"shop.events\", " ++
    "\"user_id_column\": \"user_id\", \"event_column\": \"event_name\", " ++
    "\"timestamp_column\": \"occurred_at\"\x7d, \"destination\": \x7b\"schema\": \"" ++ schema ++
    "\", \"prefix\": \"visits\"\x7d, \"steps\": [\x7b\"rank\": 1, \"name\": \"Home\", " ++
    "\"matching_event_types\": [\"home\"]\x7d]\x7d"

def Config.visits (schema : String) : Config where
  funnelName := "visits"
  source :=
    { table := "shop.events"
      userColumn := "user_id"
      sessionColumn := none
      eventColumn := "event_name"
      timeColumn := "occurred_at"
      propertiesColumn := none }
  destination := { schema, stem := "visits" }
  periodDays := none
  filters := []
  steps := [{ rank := 1, name := "Home", eventTypes := .ofTexts ["home"] }]
  dimensions := []
  lookup := none
  mode := .anyLaterEvent
  backfill := false

/-- A configuration with a single step is in order when it has been decoded. -/
theorem load_visitsText (schema : String)
    (h : (Json.Decoder.ofText (Config.fields.decode "FunnelConfig" true)
      (visitsText schema)).toOption = some (.visits schema)) :
    Config.load (.ok (visitsText schema)) = .ok (.visits schema) := by
  have hranked : (Config.visits schema).ranked = .visits schema := by
    have hsteps : sortOn Step.rank (Config.visits schema).steps = (Config.visits schema).steps :=
      sortOn_eq_self (List.pairwise_singleton ..)
    rw [Config.ranked, hsteps]
  have hread : Config.ofText (visitsText schema) = .ok (.visits schema) :=
    Config.ofText_eq_ok_iff.2 ⟨_, h, hranked⟩
  show (Config.ofText (visitsText schema)).mapError ConfigError.misread = _
  rw [hread]
  rfl

theorem load_visitsText_reports :
    Config.load (.ok (visitsText "reports")) = .ok (.visits "reports") :=
  load_visitsText "reports" (by decide +kernel)

def Plan.visits : Plan where
  config := .visits "reports"
  accepted := Config.check_eq_ok_of_isOk (by decide +kernel)

/-- One visit of one user, all of whose rows can be read. -/
def Preparation.visits : Preparation "visits.json" none where
  contents := .ok (visitsText "reports")
  loaded := .visits
  planned := by
    rw [load_visitsText_reports]
    exact Plan.ofConfig_eq_ok_iff.2 ⟨Plan.visits.accepted, rfl⟩
  positive := nofun
  computed :=
    { stamp := ⟨"run", ⟨100⟩⟩
      since := none
      window := rfl
      eventRows := [⟨"ann", "ann", "home", ⟨10⟩, none⟩]
      events := [⟨"ann", "ann", "home", ⟨10⟩, .empty⟩]
      readEvents := rfl
      recordRows := []
      lookedUp := fun _ => rfl
      records := []
      readRecords := rfl
      output := Plan.visits.output _ []
      finished := Plan.run_eq_ok_iff.2 ⟨by decide, rfl⟩ }

namespace Command

variable {path : String} {sinceDays : Option Int64} {plan : Plan} {exchanges : List Exchange}

/-- The records that a plan looks up, if it does. -/
def fetchLookup (plan : Plan) : Action (List AttributeRecord) :=
  match plan.config.lookup with
  | some lookup => fetchRecords lookup plan.dimensions
  | none => pure []

/-- What a plan comes to at some time. -/
def compute (plan : Plan) : Action (Stamp × RunOutput) := do
  Action.connect
  let stamp : Stamp := { runId := ← Action.freshId, runAt := ← Action.currentTime }
  let events ← fetchEvents plan.config (← windowStart plan stamp.runAt)
  let records ← fetchLookup plan
  let output ← Action.expect (fun defect => ⟨defect.message, []⟩) (plan.run events records)
  return (stamp, output)

/-- A run up to its results. -/
def prepare (path : String) (sinceDays : Option Int64) : Action (Plan × Stamp × RunOutput) := do
  let plan ← withPeriod sinceDays (← loadPlan path)
  let (stamp, output) ← compute plan
  return (plan, stamp, output)

/-- A run from its results on. -/
def conclude (dryRun : Bool) (plan : Plan) (stamp : Stamp) (output : RunOutput) :
    Action Unit := do
  let destination := plan.config.destination
  unless dryRun do
    publish destination stamp output
    Action.print ("Published " ++ destination.funnelTable ++ " and " ++
      destination.metricsTable ++ ".\n")
  Action.print output.summary

theorem runPlan_eq (path : String) (sinceDays : Option Int64) (dryRun : Bool) :
    runPlan path sinceDays dryRun =
      prepare path sinceDays >>= fun (plan, stamp, output) =>
        conclude dryRun plan stamp output := by
  simp only [runPlan, prepare, compute, conclude, fetchLookup, bind_assoc, pure_bind]
  refine bind_congr fun _ => bind_congr fun plan => bind_congr fun _ => bind_congr fun _ =>
    bind_congr fun _ => bind_congr fun _ => bind_congr fun _ => ?_
  cases plan.config.lookup <;> simp only [pure_bind]

theorem yields_loadPlan_iff :
    (loadPlan path).run.Yields exchanges (.ok plan) ↔
      ∃ contents, exchanges = [⟨.readFile path, contents⟩] ∧
        (Config.load contents >>= Plan.ofConfig) = .ok plan := by
  refine Action.yields_bind_expect_iff.trans ?_
  exact exists_congr fun contents => and_congr_left fun _ => Action.yields_perform_iff

theorem yields_withPeriod_iff {loaded : Plan} :
    (withPeriod sinceDays loaded).run.Yields exchanges (.ok plan) ↔
      exchanges = [] ∧ (∀ days, sinceDays = some days → 0 < days) ∧
        plan = loaded.over sinceDays := by
  cases sinceDays with
  | none =>
    refine Action.yields_pure_iff.trans (and_congr_right fun _ => ?_)
    exact ⟨fun h => ⟨nofun, h⟩, And.right⟩
  | some days =>
    by_cases hdays : days ≤ 0
    · have hfail : withPeriod (some days) loaded =
          Action.fail ⟨"--since-days must be positive, got " ++ toString days.toInt, []⟩ :=
        if_pos hdays
      rw [hfail]
      constructor
      · rintro ⟨⟩
      · rintro ⟨-, hpositive, -⟩
        exact absurd hdays (Int64.not_le.2 (hpositive days rfl))
    · have hpure : withPeriod (some days) loaded = pure (loaded.withPeriod days) := if_neg hdays
      rw [hpure]
      refine Action.yields_pure_iff.trans (and_congr_right fun _ => ?_)
      refine ⟨fun h => ⟨?_, h⟩, And.right⟩
      rintro _ ⟨⟩
      exact Int64.not_le.1 hdays

theorem yields_windowStart_iff {runAt : Instant} {since : Option Instant} :
    (windowStart plan runAt).run.Yields exchanges (.ok since) ↔
      exchanges = [] ∧ plan.windowStart runAt = .ok since := by
  unfold windowStart
  cases plan.windowStart runAt with
  | ok start =>
    refine Action.yields_pure_iff.trans (and_congr_right fun _ => ?_)
    rw [Except.ok.injEq, eq_comm]
  | error error =>
    constructor
    · rintro ⟨⟩
    · rintro ⟨-, ⟨⟩⟩

theorem yields_fetchEvents_iff {config : Config} {since : Option Instant} {events : List Event} :
    (fetchEvents config since).run.Yields exchanges (.ok events) ↔
      ∃ rows, exchanges =
          [⟨.execute (.selectEvents config.source config.filters since), .ok rows⟩] ∧
        rows.mapM (EventRow.toEvent config.dimensions) = .ok events := by
  refine Action.yields_bind_expect_iff.trans ?_
  simp only [Action.yields_execute_iff]

theorem yields_fetchLookup_iff {records : List AttributeRecord} :
    (fetchLookup plan).run.Yields exchanges (.ok records) ↔
      ∃ rows, (plan.config.lookup = none → rows = []) ∧
        exchanges = plan.config.lookup.toList.map (fun lookup =>
          ⟨.execute (.selectAttributes lookup plan.dimensions), .ok rows⟩) ∧
        rows.mapM AttributeRow.toRecord = .ok records := by
  unfold fetchLookup
  cases plan.config.lookup with
  | none =>
    rw [Action.yields_pure_iff]
    constructor
    · rintro ⟨rfl, rfl⟩
      exact ⟨[], fun _ => rfl, rfl, rfl⟩
    · rintro ⟨rows, hrows, rfl, hread⟩
      obtain rfl := hrows rfl
      exact ⟨rfl, (Except.ok.inj hread).symm⟩
  | some lookup =>
    refine Action.yields_bind_expect_iff.trans ?_
    simp only [Action.yields_execute_iff, reduceCtorEq, false_implies, true_and]
    rfl

/-- A plan gets to its results by the exchanges of a computation. -/
theorem yields_compute_iff {stamp : Stamp} {output : RunOutput} :
    (compute plan).run.Yields exchanges (.ok (stamp, output)) ↔
      ∃ c : Computation plan, exchanges = c.exchanges ∧ stamp = c.stamp ∧ output = c.output := by
  constructor
  · intro h
    obtain ⟨_, _, _, rfl, hconnect, h₁⟩ := Action.yields_bind_iff.1 h
    obtain rfl := Action.yields_connect_iff.1 hconnect
    obtain ⟨_, _, runId, rfl, hid, h₂⟩ := Action.yields_bind_iff.1 h₁
    obtain rfl := Action.yields_perform_iff.1 hid
    obtain ⟨_, _, runAt, rfl, htime, h₃⟩ := Action.yields_bind_iff.1 h₂
    obtain rfl := Action.yields_perform_iff.1 htime
    obtain ⟨_, _, since, rfl, hsince, h₄⟩ := Action.yields_bind_iff.1 h₃
    obtain ⟨rfl, window⟩ := yields_windowStart_iff.1 hsince
    obtain ⟨_, _, events, rfl, hevents, h₅⟩ := Action.yields_bind_iff.1 h₄
    obtain ⟨eventRows, rfl, readEvents⟩ := yields_fetchEvents_iff.1 hevents
    obtain ⟨_, _, records, rfl, hrecords, h₆⟩ := Action.yields_bind_iff.1 h₅
    obtain ⟨recordRows, lookedUp, rfl, readRecords⟩ := yields_fetchLookup_iff.1 hrecords
    obtain ⟨_, _, _, rfl, houtput, h₇⟩ := Action.yields_bind_iff.1 h₆
    obtain ⟨rfl, finished⟩ := Action.yields_expect_iff.1 houtput
    obtain ⟨rfl, hresult⟩ := Action.yields_pure_iff.1 h₇
    obtain ⟨rfl, rfl⟩ := Prod.mk.inj hresult
    refine ⟨{ stamp := ⟨runId, runAt⟩, since, window, eventRows, events, readEvents, recordRows,
              lookedUp, records, readRecords, output, finished }, ?_, rfl, rfl⟩
    simp [Computation.exchanges]
  · rintro ⟨c, rfl, rfl, rfl⟩
    -- the same exchanges, grouped by the parts of the program
    have hexchanges : c.exchanges = [⟨.connect, .ok ()⟩] ++ ([⟨.freshId, c.stamp.runId⟩] ++
        ([⟨.currentTime, c.stamp.runAt⟩] ++ ([] ++
          ([⟨.execute (.selectEvents plan.config.source plan.config.filters c.since),
            .ok c.eventRows⟩] ++ (plan.config.lookup.toList.map (fun lookup =>
              ⟨.execute (.selectAttributes lookup plan.dimensions), .ok c.recordRows⟩) ++
                ([] ++ [])))))) := by
      simp [Computation.exchanges]
    rw [hexchanges]
    refine Action.yields_bind (Action.yields_connect_iff.2 rfl) ?_
    refine Action.yields_bind (Action.yields_perform_iff.2 rfl) ?_
    refine Action.yields_bind (Action.yields_perform_iff.2 rfl) ?_
    refine Action.yields_bind (yields_windowStart_iff.2 ⟨rfl, c.window⟩) ?_
    refine Action.yields_bind (yields_fetchEvents_iff.2 ⟨c.eventRows, rfl, c.readEvents⟩) ?_
    refine Action.yields_bind
      (yields_fetchLookup_iff.2 ⟨c.recordRows, c.lookedUp, rfl, c.readRecords⟩) ?_
    refine Action.yields_bind (Action.yields_expect_iff.2 ⟨rfl, c.finished⟩) ?_
    exact Action.yields_pure_iff.2 ⟨rfl, rfl⟩

/-- A run gets to its results by the exchanges of a preparation. -/
theorem yields_prepare_iff {stamp : Stamp} {output : RunOutput} :
    (prepare path sinceDays).run.Yields exchanges (.ok (plan, stamp, output)) ↔
      ∃ p : Preparation path sinceDays, exchanges = p.exchanges ∧
        plan = p.plan ∧ stamp = p.computed.stamp ∧ output = p.computed.output := by
  constructor
  · intro h
    -- the exchanges are split at each bind, and every part is the part of a preparation
    obtain ⟨_, _, loaded, rfl, hloaded, h₁⟩ := Action.yields_bind_iff.1 h
    obtain ⟨contents, rfl, planned⟩ := yields_loadPlan_iff.1 hloaded
    obtain ⟨_, _, _, rfl, hperiod, h₂⟩ := Action.yields_bind_iff.1 h₁
    obtain ⟨rfl, positive, rfl⟩ := yields_withPeriod_iff.1 hperiod
    obtain ⟨_, _, ⟨_, _⟩, rfl, hcompute, h₃⟩ := Action.yields_bind_iff.1 h₂
    obtain ⟨computed, rfl, rfl, rfl⟩ := yields_compute_iff.1 hcompute
    obtain ⟨rfl, hresult⟩ := Action.yields_pure_iff.1 h₃
    simp only [Prod.mk.injEq] at hresult
    obtain ⟨rfl, rfl, rfl⟩ := hresult
    refine ⟨{ contents, loaded, planned, positive, computed }, ?_, rfl, rfl, rfl⟩
    simp [Preparation.exchanges]
  · rintro ⟨p, rfl, rfl, rfl, rfl⟩
    have hexchanges : p.exchanges =
        [⟨.readFile path, p.contents⟩] ++ ([] ++ (p.computed.exchanges ++ [])) := by
      simp [Preparation.exchanges]
    rw [hexchanges]
    refine Action.yields_bind (yields_loadPlan_iff.2 ⟨p.contents, rfl, p.planned⟩) ?_
    refine Action.yields_bind (yields_withPeriod_iff.2 ⟨rfl, p.positive, rfl⟩) ?_
    refine Action.yields_bind (yields_compute_iff.2 ⟨p.computed, rfl, rfl, rfl⟩) ?_
    exact Action.yields_pure_iff.2 ⟨rfl, rfl⟩

section Sent

variable {q : Statement → Prop} {loaded : Plan}

theorem asksOnly_loadPlan (path : String) :
    (loadPlan path).run.AsksOnly (Request.ExecutesOnly q) :=
  Action.asksOnly_bind (Action.asksOnly_perform nofun) fun _ => Action.asksOnly_expect ..

theorem asksOnly_withPeriod_bind {α : Type} {p : Request → Prop} {f : Plan → Action α}
    (h : (f (loaded.over sinceDays)).run.AsksOnly p) :
    (withPeriod sinceDays loaded >>= f).run.AsksOnly p := by
  cases sinceDays with
  | none => exact h
  | some days =>
    by_cases hdays : days ≤ 0
    · rw [show withPeriod (some days) loaded = Action.fail _ from if_pos hdays]
      exact .done _
    · rw [show withPeriod (some days) loaded = pure _ from if_neg hdays]
      exact h

theorem config_over (sinceDays : Option Int64) (loaded : Plan) :
    (loaded.over sinceDays).config = loaded.config := by
  cases sinceDays <;> rfl

theorem asksOnly_fetchLookup
    (h : ∀ lookup, plan.config.lookup = some lookup →
      q (.selectAttributes lookup plan.config.dimensions)) :
    (fetchLookup plan).run.AsksOnly (Request.ExecutesOnly q) := by
  unfold fetchLookup
  split
  · rename_i lookup hlookup
    exact Action.asksOnly_bind
      (Action.asksOnly_execute _ (Request.executesOnly_execute (h lookup hlookup)))
      fun _ => Action.asksOnly_expect ..
  · exact Action.asksOnly_pure _

/-- A plan sends its two queries and nothing else. -/
theorem asksOnly_compute
    (hevents : ∀ since, q (.selectEvents plan.config.source plan.config.filters since))
    (hlookup : ∀ lookup, plan.config.lookup = some lookup →
      q (.selectAttributes lookup plan.config.dimensions)) :
    (compute plan).run.AsksOnly (Request.ExecutesOnly q) := by
  refine Action.asksOnly_bind (Action.asksOnly_connect nofun) fun _ => ?_
  refine Action.asksOnly_bind (Action.asksOnly_perform nofun) fun _ => ?_
  refine Action.asksOnly_bind (Action.asksOnly_perform nofun) fun _ => ?_
  refine Action.asksOnly_bind ?_ fun since => ?_
  · unfold windowStart
    split
    · exact Action.asksOnly_pure _
    · exact Action.asksOnly_throw _
  refine Action.asksOnly_bind ?_ fun _ => ?_
  · exact Action.asksOnly_bind
      (Action.asksOnly_execute _ (Request.executesOnly_execute (hevents since)))
      fun _ => Action.asksOnly_expect ..
  refine Action.asksOnly_bind (asksOnly_fetchLookup hlookup) fun _ => ?_
  exact Action.asksOnly_bind (Action.asksOnly_expect ..) fun _ => Action.asksOnly_pure _

/-- From its results on a run sends its transaction and nothing else. -/
theorem asksOnly_conclude {dryRun : Bool} {stamp : Stamp} {output : RunOutput}
    (h : ∀ statement ∈ transaction plan.config.destination stamp output, q statement) :
    (conclude dryRun plan stamp output).run.AsksOnly (Request.ExecutesOnly q) := by
  have hprint : ∀ text, (Action.print text).run.AsksOnly (Request.ExecutesOnly q) :=
    fun _ => Action.asksOnly_perform nofun
  cases dryRun with
  | true => exact hprint _
  | false =>
    exact Action.asksOnly_bind (asksOnly_publish _ _ _ h) fun _ =>
      Action.asksOnly_bind (hprint _) fun _ => hprint _

/-- Until it has its results a run only reads. -/
theorem asksOnly_prepare (path : String) (sinceDays : Option Int64) :
    (prepare path sinceDays).run.AsksOnly
      (Request.ExecutesOnly fun statement => statement.isQuery = true) := by
  refine Action.asksOnly_bind (asksOnly_loadPlan path) fun _ => asksOnly_withPeriod_bind ?_
  refine Action.asksOnly_bind ?_ fun _ => Action.asksOnly_pure _
  exact asksOnly_compute (fun _ => rfl) fun _ _ => rfl

end Sent

/-- The exchanges of a preparation are queries as far as they concern the store. -/
theorem isQuery_of_mem_statementsOf (p : Preparation path sinceDays) :
    ∀ statement ∈ statementsOf p.exchanges, statement.isQuery = true :=
  (asksOnly_prepare path sinceDays).of_mem_statementsOf
    (yields_prepare_iff.2 ⟨p, rfl, rfl, rfl, rfl⟩)

section Traces

variable {dryRun : Bool} {result : Except Abort Unit}

theorem statementsOf_print {text : String} {exchanges : List Exchange}
    (h : (Action.print text).run.Yields exchanges result) : statementsOf exchanges = [] := by
  have hasks : (Action.print text).run.AsksOnly (Request.ExecutesOnly fun _ => False) :=
    Action.asksOnly_perform nofun
  exact List.eq_nil_iff_forall_not_mem.2 (hasks.of_mem_statementsOf h)

theorem statementsOf_conclude_dry {stamp : Stamp} {output : RunOutput}
    (h : (conclude true plan stamp output).run.Yields exchanges result) :
    statementsOf exchanges = [] :=
  statementsOf_print h

/-- From its results on a run sends its transaction, all of it if the run succeeds. -/
theorem statementsOf_conclude {stamp : Stamp} {output : RunOutput}
    (h : (conclude false plan stamp output).run.Yields exchanges result) :
    statementsOf exchanges <+: transaction plan.config.destination stamp output ∧
      (result = .ok () →
        statementsOf exchanges = transaction plan.config.destination stamp output) := by
  rcases Action.yields_bind_result_iff.1 h with
    ⟨_, rfl, hpublish⟩ | ⟨published, rest, _, rfl, hpublish, hrest⟩
  · exact ⟨statementsOf_publish _ _ _ hpublish, nofun⟩
  · have hsent := statementsOf_of_accepts (yields_publish_iff.1 hpublish)
    have hprints : statementsOf rest = [] := by
      rcases Action.yields_bind_result_iff.1 hrest with
        ⟨_, -, hfirst⟩ | ⟨first, second, _, rfl, hfirst, hsecond⟩
      · exact statementsOf_print hfirst
      · rw [statementsOf_append, statementsOf_print hfirst, statementsOf_print hsecond]
        rfl
    rw [statementsOf_append, hprints, List.append_nil]
    exact ⟨⟨[], by rw [List.append_nil]; exact hsent⟩, fun _ => hsent⟩

/-- A store that accepts everything lets a run end well from its results on. -/
theorem exists_yields_conclude (plan : Plan) (stamp : Stamp) (output : RunOutput) :
    ∃ written, (conclude false plan stamp output).run.Yields written (.ok ()) := by
  obtain ⟨published, hpublish⟩ := exists_yields_publish plan.config.destination stamp output
  have hprint : ∀ text, (Action.print text).run.Yields [⟨.print text, ()⟩] (.ok ()) :=
    fun _ => Action.yields_perform_iff.2 rfl
  exact ⟨_, Action.yields_bind hpublish (Action.yields_bind (hprint _) (hprint _))⟩

/-- A run has only read, or it is no dry run, is prepared, and sends its transaction. -/
theorem yields_runPlan (h : (runPlan path sinceDays dryRun).run.Yields exchanges result) :
    (∀ statement ∈ statementsOf exchanges, statement.isQuery = true) ∨
      dryRun = false ∧ ∃ (p : Preparation path sinceDays) (written : List Exchange),
        exchanges = p.exchanges ++ written ∧ statementsOf written <+: p.transaction ∧
        (result = .ok () → statementsOf written = p.transaction) := by
  rw [runPlan_eq] at h
  rcases Action.yields_bind_result_iff.1 h with
    ⟨abort, rfl, hprepare⟩ | ⟨first, written, ⟨plan, stamp, output⟩, rfl, hprepare, hrest⟩
  · exact .inl ((asksOnly_prepare path sinceDays).of_mem_statementsOf hprepare)
  · cases dryRun with
    | true =>
      left
      rw [statementsOf_append, statementsOf_conclude_dry hrest, List.append_nil]
      exact (asksOnly_prepare path sinceDays).of_mem_statementsOf hprepare
    | false =>
      obtain ⟨p, rfl, rfl, rfl, rfl⟩ := yields_prepare_iff.1 hprepare
      exact .inr ⟨rfl, p, written, rfl, statementsOf_conclude hrest⟩

/-- What has happened before a run writes. -/
structure WritesLast (path : String) (sinceDays : Option Int64) (dryRun : Bool) : Prop where
  /-- A statement that is no query is sent only if the run is not a dry one, and only behind all
  exchanges of a preparation: these have the configuration checked, the period positive, both
  fetches answered and readable, and the results of the plan. -/
  prepared : ∀ before statement answer after result,
    (run path sinceDays dryRun).action.run.Yields
      (before ++ ⟨.execute statement, answer⟩ :: after) result →
    statement.isQuery = false →
      dryRun = false ∧ ∃ p : Preparation path sinceDays, p.exchanges <+: before
  /-- What is sent behind these exchanges is the transaction that publishes the results, from its
  start, and all of it if the run succeeds. -/
  published : ∀ exchanges result,
    (run path sinceDays dryRun).action.run.Yields exchanges result →
    (∃ statement ∈ statementsOf exchanges, statement.isQuery = false) →
      ∃ (p : Preparation path sinceDays) (written : List Exchange),
        exchanges = p.exchanges ++ written ∧ statementsOf written <+: p.transaction ∧
        (result = .ok () → statementsOf written = p.transaction)
  /-- Whatever a run is prepared for, unless it is a dry one, a store that accepts everything lets
  it publish. -/
  publishes : dryRun = false → ∀ p : Preparation path sinceDays, ∃ written,
    (run path sinceDays dryRun).action.run.Yields (p.exchanges ++ written) (.ok ()) ∧
      statementsOf written = p.transaction

theorem writesLast (path : String) (sinceDays : Option Int64) (dryRun : Bool) :
    WritesLast path sinceDays dryRun where
  prepared before statement answer after result h hwrites := by
    have hquery : ∀ exchanges : List Exchange,
        (∀ statement ∈ statementsOf exchanges, statement.isQuery = true) →
          ⟨.execute statement, answer⟩ ∉ exchanges := by
      intro exchanges hqueries hmem
      have hsent : statement ∈ statementsOf exchanges :=
        List.mem_filterMap.2 ⟨_, hmem, rfl⟩
      rw [hqueries statement hsent] at hwrites
      cases hwrites
    rcases yields_runPlan h with hqueries | ⟨hdry, p, written, hsplit, -⟩
    · exact absurd (by simp) (hquery _ hqueries)
    · refine ⟨hdry, p, ?_⟩
      -- the exchanges of the preparation are over when the statement is sent
      rcases List.append_eq_append_iff.1 hsplit with ⟨rest, hp, hrest⟩ | ⟨rest, hbefore, -⟩
      · cases rest with
        | nil => exact ⟨[], by rw [hp, List.append_nil, List.append_nil]⟩
        | cons exchange rest =>
          obtain ⟨rfl, -⟩ := List.cons.inj hrest
          exact absurd (by rw [hp]; simp) (hquery _ (isQuery_of_mem_statementsOf p))
      · exact ⟨rest, hbefore.symm⟩
  published exchanges result h hwrites := by
    rcases yields_runPlan h with hqueries | ⟨-, hp⟩
    · obtain ⟨statement, hmem, hwrites⟩ := hwrites
      rw [hqueries statement hmem] at hwrites
      cases hwrites
    · exact hp
  publishes hdry p := by
    obtain ⟨written, hwritten⟩ :=
      exists_yields_conclude p.plan p.computed.stamp p.computed.output
    refine ⟨written, ?_, (statementsOf_conclude hwritten).2 rfl⟩
    show (runPlan path sinceDays dryRun).run.Yields _ _
    rw [runPlan_eq, hdry]
    exact Action.yields_bind (yields_prepare_iff.2 ⟨p, rfl, rfl, rfl, rfl⟩) hwritten

end Traces

end Command

end Funnel
