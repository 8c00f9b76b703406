import Funnel.Proofs.Plan.Advancing

/-!
# Filling in skipped steps makes a funnel that narrows

Where skipped steps are filled in, the ranks of a session are the numbers from one to the highest.
So a step is started by no fewer users than any later one.
-/

namespace Funnel

open Std Time

namespace Plan

variable {plan : Plan} {events : List Event} {records : List AttributeRecord}

/-- Some results narrow: sessions have no gaps, and the counts of each combination follow. -/
structure Narrows (plan : Plan) (output : RunOutput) : Prop where
  /-- The ranks of the entries of a session are the numbers from one to some rank of the plan. -/
  ranks : ∀ entry ∈ output.entries, ∃ highest, 1 ≤ highest ∧ highest ≤ plan.steps.length ∧
    ((Entry.ofSession entry.sessionKey output.entries).map fun other =>
      other.stepRank.toNat).Perm (List.range' 1 highest)
  /-- A combination has one row for every step and one for the whole funnel. -/
  rows : ∀ dimensions ∈ output.metrics.map Metric.dimensions,
    (∃! total, total ∈ output.metrics ∧ total.IsEndToEnd dimensions) ∧
      ∀ rank : UInt32, 1 ≤ rank.toNat → rank.toNat ≤ plan.steps.length →
        ∃! row, row ∈ output.metrics ∧ row.IsStage dimensions rank
  /-- No more users start a step than start the one before. -/
  starters : ∀ row ∈ output.metrics, ∀ next ∈ output.metrics, ∀ dimensions rank,
    row.IsStage dimensions rank → next.IsStage dimensions (rank + 1) →
      next.starters ≤ row.starters
  /-- Those who start the funnel are those who start its first step. -/
  started : ∀ total ∈ output.metrics, ∀ first ∈ output.metrics, ∀ dimensions,
    total.IsEndToEnd dimensions → first.IsStage dimensions 1 → total.starters = first.starters
  /-- Those who complete the funnel are those who start its last step. -/
  completed : ∀ total ∈ output.metrics, ∀ final ∈ output.metrics, ∀ dimensions,
    total.IsEndToEnd dimensions →
      final.IsStage dimensions (UInt32.ofNat plan.steps.length) →
        total.completers = final.starters
  /-- Where only higher ranks count as going on, no more users complete a step than start the
  next. -/
  advanced : plan.config.mode = .higherRank → ∀ row ∈ output.metrics, ∀ next ∈ output.metrics,
    ∀ dimensions rank, row.IsStage dimensions rank → next.IsStage dimensions (rank + 1) →
      row.completers ≤ next.starters

/-- Where skipped steps are filled in, a session passes all ranks below one that it passes. -/
theorem Passes.of_le {key : String × String} {rank lower : UInt32}
    (h : plan.Passes events key rank) (filling : plan.config.backfill = true)
    (hle : lower ≤ rank) : plan.Passes events key lower := by
  obtain ⟨shown, hshown, hne⟩ := h
  refine ⟨shown, .inr ⟨filling, ?_⟩, hne⟩
  rcases hshown with rfl | ⟨-, hrank⟩
  · exact hle
  · exact Std.le_trans hle hrank

/-- A session has an entry for every rank below that of another entry. -/
theorem exists_mem_entries_of_le (filling : plan.config.backfill = true) {entry : Entry}
    (h : entry ∈ plan.entries events records) {rank : UInt32} (hpositive : 1 ≤ rank)
    (hle : rank ≤ entry.stepRank) :
    ∃ other ∈ plan.entries events records,
      other.sessionKey = entry.sessionKey ∧ other.stepRank = rank ∧
        other.dimensions = entry.dimensions :=
  exists_mem_entries_of_passes hpositive ⟨entry, h, rfl, rfl⟩
    ((passes_of_mem_entries h).of_le filling hle)

theorem nodup_cell_entries (plan : Plan) (events : List Event) (records : List AttributeRecord) :
    ((plan.entries events records).map Entry.cell).Nodup := by
  rw [entries_eq, List.map_map]
  exact plan.nodup_cell_sequenced events

/-- The ranks of the entries of a session are the numbers from one to the highest of them. -/
theorem ranks_ofSession_perm (filling : plan.config.backfill = true) {entry : Entry}
    (h : entry ∈ plan.entries events records) :
    ∃ highest, 1 ≤ highest ∧ highest ≤ plan.steps.length ∧
      ((Entry.ofSession entry.sessionKey (plan.entries events records)).map fun other =>
        other.stepRank.toNat).Perm (List.range' 1 highest) := by
  let session := Entry.ofSession entry.sessionKey (plan.entries events records)
  have hsession : session ≠ [] := List.ne_nil_of_mem (Entry.mem_ofSession.2 ⟨h, rfl⟩)
  obtain ⟨top, htop⟩ := exists_firstMaxOn? Entry.stepRank hsession
  obtain ⟨htop_mem, htop_key⟩ := Entry.mem_ofSession.1 (mem_of_firstMaxOn? htop)
  have hbounds :=
    (Config.exists_step_of_check plan.accepted).1 (exists_step_of_mem_entries htop_mem)
  refine ⟨top.stepRank.toNat, hbounds.1, hbounds.2, ?_⟩
  have hnodup : (session.map fun other => other.stepRank.toNat).Nodup := by
    have hranks := Entry.nodup_cell_iff.1 (plan.nodup_cell_entries events records) entry.sessionKey
    refine List.pairwise_map.2 ((List.pairwise_map.1 hranks).imp fun hne heq => hne ?_)
    exact UInt32.toNat_inj.1 heq
  refine (List.perm_ext_iff_of_nodup hnodup (List.nodup_range' 1)).2 fun n => ?_
  rw [List.mem_map, List.mem_range'_1]
  constructor
  · rintro ⟨other, hother, rfl⟩
    have hone := UInt32.le_iff_toNat_le.1 (one_le_stepRank (Entry.mem_ofSession.1 hother).1)
    have hle := UInt32.le_iff_toNat_le.1 (Std.isLE_compare.1 (isLE_of_firstMaxOn? htop hother))
    exact ⟨hone, by omega⟩
  · rintro ⟨hone, hlt⟩
    -- a number below the rank of the highest entry is a rank, and has an entry of its own
    have hn : (UInt32.ofNat n).toNat = n :=
      UInt32.toNat_ofNat_of_lt' (by have := top.stepRank.toNat_lt_size; omega)
    have hpositive : 1 ≤ UInt32.ofNat n := UInt32.le_iff_toNat_le.2 (by rw [hn]; exact hone)
    have hle : UInt32.ofNat n ≤ top.stepRank := UInt32.le_iff_toNat_le.2 (by omega)
    obtain ⟨other, hother, hkey, hrank, -⟩ :=
      exists_mem_entries_of_le filling htop_mem hpositive hle
    exact ⟨other, Entry.mem_ofSession.2 ⟨hother, hkey.trans htop_key⟩, by rw [hrank, hn]⟩

theorem usersReaching_anti (filling : plan.config.backfill = true) {dimensions : Dimensions}
    {rank lower : UInt32} (hpositive : 1 ≤ lower) (hle : lower ≤ rank) :
    Entry.usersReaching (plan.entries events records) dimensions rank ⊆
      Entry.usersReaching (plan.entries events records) dimensions lower := by
  rintro _ ⟨entry, hentry, ⟨rfl, rfl⟩, rfl⟩
  obtain ⟨other, hother, hkey, hrank, hdimensions⟩ :=
    exists_mem_entries_of_le filling hentry hpositive hle
  exact ⟨other, hother, ⟨hdimensions, hrank⟩, congrArg Prod.fst hkey⟩

/-- Those who complete the funnel are those who reach the last step. -/
theorem usersCompleting_eq_usersReaching (filling : plan.config.backfill = true)
    {dimensions : Dimensions} :
    Entry.usersCompleting (plan.entries events records) dimensions
        (UInt32.ofNat plan.steps.length) =
      Entry.usersReaching (plan.entries events records) dimensions
        (UInt32.ofNat plan.steps.length) := by
  obtain ⟨-, last, hlast, hrank⟩ := Config.exists_last_step_of_check plan.accepted
  have hpositive : 1 ≤ UInt32.ofNat plan.steps.length := hrank ▸ one_le_rank hlast
  rw [usersCompleting_eq, usersReaching_eq hpositive]
  ext user
  constructor
  · rintro ⟨session, hcombines, -, hpasses⟩
    exact ⟨session, hcombines, hpasses⟩
  · rintro ⟨session, hcombines, hpasses⟩
    exact ⟨session, hcombines, hpasses.of_le filling hpositive, hpasses⟩

/-- Where only higher ranks count as going on, who goes on from a rank reaches the next one. -/
theorem usersConverting_subset_next (filling : plan.config.backfill = true)
    (hmode : plan.config.mode = .higherRank) {dimensions : Dimensions} {rank next : UInt32}
    (hnext : next.toNat = rank.toNat + 1) :
    Entry.usersConverting (plan.entries events records) dimensions rank ⊆
      Entry.usersReaching (plan.entries events records) dimensions next := by
  refine (usersConverting_subset_usersAbove hmode dimensions rank).trans ?_
  rintro _ ⟨above, habove, ⟨rfl, hlt⟩, rfl⟩
  have hbelow : next ≤ above.stepRank := by
    rw [UInt32.lt_iff_toNat_lt] at hlt
    rw [UInt32.le_iff_toNat_le]
    omega
  have hpositive : 1 ≤ next := UInt32.le_iff_toNat_le.2 (by rw [hnext]; exact Nat.le_add_left 1 _)
  exact usersReaching_anti filling hpositive hbelow ⟨above, habove, ⟨rfl, rfl⟩, rfl⟩

/-- Two rows of neighbouring ranks are rows of steps whose ranks are neighbours as numbers. -/
theorem toNat_add_one_of_isStage {next : Metric} {dimensions : Dimensions} {rank : UInt32}
    (h : next ∈ (plan.output events records).metrics)
    (hstage : next.IsStage dimensions (rank + 1)) : (rank + 1).toNat = rank.toNat + 1 := by
  obtain ⟨step, hstep, hrank, -⟩ := hstage.exists_step h
  -- the rank of a step is not zero, so the addition does not overflow
  have hpositive := UInt32.le_iff_toNat_le.1 (one_le_rank hstep)
  rw [hrank] at hpositive
  have hlt := rank.toNat_lt_size
  rw [UInt32.toNat_add] at hpositive ⊢
  simp only [UInt32.toNat_one, UInt32.size] at *
  omega

theorem narrows_output (filling : plan.config.backfill = true) (events : List Event)
    (records : List AttributeRecord) : plan.Narrows (plan.output events records) where
  ranks entry hentry := ranks_ofSession_perm filling hentry
  rows := (plan.counts_output events records).rows
  starters := by
    intro row hrow next hnext dimensions rank hstage hstage'
    obtain ⟨step, hstep, rfl, -⟩ := hstage.exists_step hrow
    have hlt := toNat_add_one_of_isStage hnext hstage'
    rw [(hstage.counts hrow).1, (hstage'.counts hnext).1]
    refine Set.ncard_le_ncard (usersReaching_anti filling (one_le_rank hstep) ?_)
      (Entry.finite_usersWhere _ _)
    rw [UInt32.le_iff_toNat_le]
    omega
  started := by
    intro total htotal first hfirst dimensions hend hstage
    rw [(hend.counts htotal fun _ => one_le_stepRank).1, (hstage.counts hfirst).1]
  completed := by
    intro total htotal final hfinal dimensions hend hstage
    rw [(hend.counts htotal fun _ => one_le_stepRank).2, (hstage.counts hfinal).1, maxRank_steps]
    exact congrArg Set.ncard (usersCompleting_eq_usersReaching filling)
  advanced := by
    intro hmode row hrow next hnext dimensions rank hstage hstage'
    rw [(hstage.counts hrow).2, (hstage'.counts hnext).1]
    apply Set.ncard_le_ncard _ (Entry.finite_usersWhere _ _)
    exact usersConverting_subset_next filling hmode (toNat_add_one_of_isStage hnext hstage')

/-- A run that fills in skipped steps gives results that narrow. -/
theorem run_narrows (plan : Plan) (events : List Event) (records : List AttributeRecord)
    (filling : plan.config.backfill = true) (h : firstDefect? events = none) :
    ∃ output, plan.run events records = .ok output ∧ plan.Narrows output :=
  ⟨plan.output events records, run_eq_ok_iff.2 ⟨h, rfl⟩, narrows_output filling events records⟩

theorem run_checkout_narrows :
    checkout.config.backfill = true ∧ firstDefect? checkoutEvents = none ∧
      ∃ output, checkout.run checkoutEvents [] = .ok output ∧ checkout.Narrows output :=
  ⟨rfl, by decide, checkout.run_narrows checkoutEvents [] rfl (by decide)⟩

end Plan

end Funnel
