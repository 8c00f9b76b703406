import Funnel.Proofs.Plan.Reached

/-!
# A run performs the stages of its plan

A plan lists the stages of its run and says them in words. Performed in this order, each on what the
stages in front of it have left, they give the results of the run.
-/

namespace Funnel

open Std

/-- What a run has made so far, and the attribute records that it has not used yet. -/
structure Progress where
  classified : List ClassifiedEvent := []
  records : List AttributeRecord
  entries : List Entry := []
  sessions : List Journey := []
  users : List Journey := []
  metrics : List Metric := []
  stats : RunStats

namespace Progress

/-- Before the first stage nothing is known but the number of events. -/
def start (events : List Event) (records : List AttributeRecord) : Progress where
  records := records
  stats :=
    { rawEvents := events.length
      matchedEvents := 0
      unmappedByType := []
      duplicatesRemoved := 0
      backfilledEntries := 0
      entries := 0
      sessions := 0
      users := 0
      metrics := 0 }

/-- The results, with the sizes of the relations and of the journeys. -/
def output (progress : Progress) : RunOutput where
  entries := progress.entries
  metrics := progress.metrics
  stats :=
    { progress.stats with
      entries := progress.entries.length
      sessions := progress.sessions.length
      users := progress.users.length
      metrics := progress.metrics.length }

end Progress

/-- What a stage makes of what is there. Classified events and attribute records are used up by the
stage that takes them. -/
def Stage.perform (steps : List Step) (events : List Event) (progress : Progress) :
    Stage → Progress
  | .classify _ steps =>
    let classified := Funnel.classify steps events
    let coverage := Coverage.ofEvents steps classified
    { progress with
      classified
      stats :=
        { progress.stats with
          matchedEvents := coverage.matchedCount
          unmappedByType := coverage.unmapped } }
  | .deduplicate .. =>
    let canonical := Canonical.ofEvents progress.classified
    { progress with
      classified := []
      entries := canonical.entries
      stats := { progress.stats with duplicatesRemoved := canonical.duplicates } }
  | .backfill =>
    let entries := Entry.backfill steps progress.entries
    { progress with
      entries
      stats :=
        { progress.stats with backfilledEntries := entries.length - progress.entries.length } }
  | .sequence _ _ _ mode => { progress with entries := Entry.sequence mode progress.entries }
  | .attachDimensions dimensions _ selection =>
    { progress with
      records := []
      entries := Entry.attach dimensions selection progress.records progress.entries }
  | .summarize =>
    { progress with
      sessions := Journey.ofSessions progress.entries
      users := Journey.ofUsers progress.entries }
  | .aggregate _ dimensions =>
    { progress with
      metrics := Metric.aggregate steps dimensions progress.entries progress.sessions
        progress.users }

namespace Plan

variable {plan : Plan} {events : List Event} {records : List AttributeRecord}

/-- The events with the declared dimensions only. -/
def restricted (plan : Plan) (events : List Event) : List Event :=
  events.map fun event => { event with dimensions := event.dimensions.restrict plan.dimensions }

/-- Performs the stages of a plan on some events. -/
def perform (plan : Plan) (events : List Event) (stages : List Stage) (progress : Progress) :
    Progress :=
  stages.foldl (Stage.perform plan.steps (plan.restricted events)) progress

theorem perform_append (plan : Plan) (events : List Event) (before after : List Stage)
    (progress : Progress) :
    plan.perform events (before ++ after) progress =
      plan.perform events after (plan.perform events before progress) :=
  List.foldl_append

/-- The stages in front of the journeys work on entries alone: between two of them there are some
entries, a number of which were added, and the counts of the events. -/
def between (plan : Plan) (events : List Event) (records : List AttributeRecord)
    (entries : List Entry) (added : Nat) : Progress where
  records := records
  entries := entries
  stats :=
    { (Progress.start events records).stats with
      matchedEvents := (Coverage.ofEvents plan.steps (plan.classified events)).matchedCount
      unmappedByType := (Coverage.ofEvents plan.steps (plan.classified events)).unmapped
      duplicatesRemoved := (plan.canonical events).duplicates
      backfilledEntries := added }

theorem perform_canonical (plan : Plan) (events : List Event) (records : List AttributeRecord)
    (column user : String) (session : Option String) :
    plan.perform events [.classify column plan.steps, .deduplicate user session]
        (.start events records) =
      plan.between events records (plan.canonical events).entries 0 :=
  rfl

theorem perform_backfill (plan : Plan) (events : List Event) (records : List AttributeRecord) :
    plan.perform events (if plan.config.backfill then [.backfill] else [])
        (plan.between events records (plan.canonical events).entries 0) =
      plan.between events records (plan.filled events)
        ((plan.filled events).length - (plan.canonical events).entries.length) := by
  unfold filled
  split
  · rfl
  · rw [Nat.sub_self]
    rfl

/-- Without declared dimensions no stage gives an entry any. -/
theorem dimensions_of_mem_filled (hdimensions : plan.dimensions = []) {entry : Entry}
    (h : entry ∈ plan.filled events) : entry.dimensions = .empty := by
  have hcanonical : ∀ entry ∈ (plan.canonical events).entries, entry.dimensions = .empty := by
    intro entry hentry
    obtain ⟨event, hevent, hmade, -⟩ := Canonical.exists_event_of_mem_entries hentry
    obtain ⟨origin, -, rfl⟩ := mem_classified_iff.1 hevent
    rw [(ClassifiedEvent.enters?_eq_some_iff.1 hmade).2]
    simp only [Event.classified, hdimensions]
    rfl
  unfold filled at h
  split at h
  · rcases (Entry.mem_backfill_iff plan.nodup_ranks).1 h with hentry | hfills
    · exact hcanonical entry hentry
    · -- an entry that is filled in has the dimensions of its anchor
      obtain ⟨anchor, hanchor, heq⟩ := hfills.anchored
      rw [heq]
      exact hcanonical anchor (Entry.mem_ofSession.1 (Entry.anchor?_eq_some hanchor).1).1
  · exact hcanonical entry h

/-- So there is nothing to attach, and the stage may be left out. -/
theorem entries_eq_sequence (hdimensions : plan.dimensions = []) :
    plan.entries events records = Entry.sequence plan.config.mode (plan.filled events) := by
  rw [entries, Entry.attach_eq, hdimensions]
  refine (List.map_congr_left fun entry hentry => ?_).trans (List.map_id _)
  obtain ⟨origin, horigin, hbare⟩ := Entry.exists_mem_of_mem_sequence hentry
  have horigin_empty := dimensions_of_mem_filled hdimensions horigin
  have hempty : entry.dimensions = .empty :=
    (congrArg Entry.dimensions hbare).symm.trans horigin_empty
  rw [Entry.dimensionsOf_nil, Entry.withDimensions, ← hempty, id_eq]

theorem exists_perform_attachDimensions (plan : Plan) (events : List Event)
    (records : List AttributeRecord) (added : Nat) (table : Option String) :
    ∃ unused, plan.perform events
        (if plan.dimensions.isEmpty then []
          else [.attachDimensions plan.dimensions table plan.selection])
        (plan.between events records (Entry.sequence plan.config.mode (plan.filled events)) added) =
      { plan.between events records (plan.entries events records) added with
        records := unused } := by
  by_cases hdimensions : plan.dimensions = []
  · refine ⟨records, ?_⟩
    rw [if_pos (List.isEmpty_iff.2 hdimensions), entries_eq_sequence hdimensions]
    rfl
  · refine ⟨[], ?_⟩
    rw [if_neg (mt List.isEmpty_iff.1 hdimensions)]
    rfl

/-- The stages of a plan lead to the results of its run. -/
theorem output_perform_stages (plan : Plan) (events : List Event)
    (records : List AttributeRecord) :
    (plan.perform events plan.stages (.start events records)).output =
      plan.output events records := by
  obtain ⟨unused, hattached⟩ := exists_perform_attachDimensions plan events records
    ((plan.filled events).length - (plan.canonical events).entries.length)
    (plan.config.lookup.map Lookup.table)
  have hsequenced : ∀ user session time entries added,
      plan.perform events [.sequence user session time plan.config.mode]
          (plan.between events records entries added) =
        plan.between events records (Entry.sequence plan.config.mode entries) added :=
    fun _ _ _ _ _ => rfl
  simp only [stages, perform_append, perform_canonical, perform_backfill, hsequenced, hattached]
  rfl

/-- A run refuses unacceptable events, and on others performs the stages of its plan. -/
theorem run_eq_perform_stages (plan : Plan) (events : List Event)
    (records : List AttributeRecord) :
    plan.run events records =
      match firstDefect? events with
      | some defect => .error defect
      | none => .ok (plan.perform events plan.stages (.start events records)).output := by
  rw [output_perform_stages]
  rfl

end Plan

end Funnel
