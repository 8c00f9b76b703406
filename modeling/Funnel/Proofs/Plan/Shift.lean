import Funnel.Proofs.Metric.Shift
import Funnel.Proofs.Plan.Relation

namespace Funnel

open Time

theorem firstDefect?_map_shift (offset : Int) (events : List Event) :
    firstDefect? (events.map (Event.shift offset)) = firstDefect? events := by
  unfold firstDefect?
  rw [List.zipIdx_map, List.findSome?_map]
  rfl

theorem Coverage.ofEvents_map_shift (offset : Int) (steps : List Step)
    (events : List ClassifiedEvent) :
    ofEvents steps (events.map (ClassifiedEvent.shift offset)) = ofEvents steps events := by
  have hunmapped : (events.map (ClassifiedEvent.shift offset)).filter (·.stepRank.isNone) =
      (events.filter (·.stepRank.isNone)).map (ClassifiedEvent.shift offset) := List.filter_map ..
  unfold ofEvents
  rw [hunmapped, groupBy_map, List.map_map]
  simp only [List.countP_map, Function.comp_def, List.length_map]
  rfl

/-- Results with their entries moved in time; metrics and counts stay as they are. -/
def RunOutput.shift (offset : Int) (output : RunOutput) : RunOutput :=
  { output with entries := output.entries.map (Entry.shift offset) }

namespace Plan

variable (plan : Plan) (offset : Int) (events : List Event) (records : List AttributeRecord)

theorem classified_map_shift :
    plan.classified (events.map (Event.shift offset)) =
      (plan.classified events).map (ClassifiedEvent.shift offset) := by
  simp only [classified, classify_eq, List.map_map]
  rfl

theorem filled_map_shift :
    plan.filled (events.map (Event.shift offset)) =
      (plan.filled events).map (Entry.shift offset) := by
  unfold filled canonical
  rw [classified_map_shift, Canonical.ofEvents_map_shift]
  dsimp only
  rw [Entry.backfill_map_shift]
  exact (apply_ite _ _ _ _).symm

theorem entries_map_shift :
    plan.entries (events.map (Event.shift offset)) records =
      (plan.entries events records).map (Entry.shift offset) := by
  unfold entries
  rw [filled_map_shift, Entry.sequence_map_shift, Entry.attach_map_shift]

theorem metricsOf_map_shift (entries : List Entry) :
    plan.metricsOf (entries.map (Entry.shift offset)) = plan.metricsOf entries :=
  Metric.ofEntries_map_shift offset entries plan.steps plan.dimensions

theorem output_map_shift :
    plan.output (events.map (Event.shift offset)) records =
      (plan.output events records).shift offset := by
  have hcoverage := Coverage.ofEvents_map_shift offset plan.steps (plan.classified events)
  have hcanonical := Canonical.ofEvents_map_shift offset (plan.classified events)
  simp only [output, canonical, RunOutput.shift, classified_map_shift, filled_map_shift,
    entries_map_shift, metricsOf_map_shift, Journey.ofSessions_map_shift,
    Journey.ofUsers_map_shift, List.length_map, hcoverage, hcanonical]

/-- A run on moved events is refused for the same defect, or gives the moved results. -/
theorem run_map_shift :
    plan.run (events.map (Event.shift offset)) records =
      (plan.run events records).map (RunOutput.shift offset) := by
  unfold run
  rw [firstDefect?_map_shift, output_map_shift]
  cases firstDefect? events <;> rfl

/-- Acceptable events and the same events moved in time give the same results, but for the times of
their entries. -/
theorem run_shift (h : firstDefect? events = none) :
    ∃ output, plan.run events records = .ok output ∧
      plan.run (events.map (Event.shift offset)) records = .ok (output.shift offset) := by
  have hrun : plan.run events records = .ok (plan.output events records) :=
    run_eq_ok_iff.2 ⟨h, rfl⟩
  refine ⟨plan.output events records, hrun, ?_⟩
  rw [run_map_shift, hrun]
  rfl

/-- Half a second before 1970 the shop sells as it does after. -/
theorem run_checkout_shift :
    firstDefect? checkoutEvents = none ∧
      ∃ output, checkout.run checkoutEvents [] = .ok output ∧
        checkout.run (checkoutEvents.map (Event.shift (-500015))) [] =
          .ok (output.shift (-500015)) :=
  ⟨by decide, checkout.run_shift (-500015) checkoutEvents [] (by decide)⟩

end Plan

end Funnel
