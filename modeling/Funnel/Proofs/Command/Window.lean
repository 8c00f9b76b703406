import Funnel.Proofs.Command.Run

/-!
# Windows of runs

As far back as the calendar reaches, the window of a plan starts its period before the run, to the
microsecond. Beyond, it has no start, and the run ends before it has asked the store for anything.
-/

namespace Funnel

open Store Time

namespace Time.Instant

/-- From the start of a year up to the end of another one. -/
def IsInYears (first last : Int) (t : Instant) : Prop :=
  Date.toDays ⟨first, 1, 1⟩ * microsPerDay ≤ t.micros ∧
    t.micros < Date.toDays ⟨last + 1, 1, 1⟩ * microsPerDay

instance (first last : Int) (t : Instant) : Decidable (t.IsInYears first last) := by
  unfold IsInYears
  infer_instance

/-- The whole days from the start of the calendar to an instant. -/
def reach (t : Instant) : Int :=
  t.micros / microsPerDay - firstDay

variable {t : Instant} {days : Int}

/-- One can go back from an instant as far as the calendar reaches. -/
theorem isRepresentable_daysBefore_iff (ht : t.micros < (lastDay + 1) * microsPerDay)
    (hdays : 0 ≤ days) : (t.daysBefore days).IsRepresentable ↔ days ≤ t.reach := by
  have hstart : firstDay * microsPerDay ≤ t.micros - days * microsPerDay ↔ days ≤ t.reach := by
    have hday : (0 : Int) < microsPerDay := by decide
    have hdivide : firstDay + days ≤ t.micros / microsPerDay ↔
        firstDay * microsPerDay + days * microsPerDay ≤ t.micros := by
      rw [Int.le_ediv_iff_mul_le hday, Int.add_mul]
    unfold reach
    omega
  have hend : t.micros - days * microsPerDay < (lastDay + 1) * microsPerDay := by
    have hback : 0 ≤ days * microsPerDay := Int.mul_nonneg hdays (by decide)
    omega
  exact (and_iff_left hend).trans hstart

theorem IsInYears.lt_lastDay (h : t.IsInYears 1970 9999) :
    t.micros < (lastDay + 1) * microsPerDay :=
  h.2.trans (by decide)

/-- From 1970 on the calendar reaches back as many days as from the first day of 1970. -/
theorem IsInYears.le_reach (h : t.IsInYears 1970 9999) : 96465292 ≤ t.reach := by
  have hepoch : (0 : Int) ≤ t.micros := h.1
  have hdays : 0 ≤ t.micros / microsPerDay := Int.ediv_nonneg hepoch (by decide)
  unfold reach firstDay
  omega

end Time.Instant

/-- When the window of a plan starts for a run at some time. -/
structure Plan.ComputesWindow (plan : Plan) (runAt : Instant) : Prop where
  /-- Without a period there is no window, and only then. -/
  none_iff : plan.windowStart runAt = .ok none ↔ plan.periodDays = none
  /-- With a period it starts as many days before the run, as far as the calendar reaches. -/
  some_iff : ∀ start, plan.windowStart runAt = .ok (some start) ↔
    ∃ days, plan.periodDays = some days ∧ days.toInt ≤ runAt.reach ∧
      start.micros = runAt.micros - days.toInt * 86400 * Instant.microsPerSecond
  /-- Beyond that it has no start. -/
  error_iff : plan.windowStart runAt = .error .outsideCalendar ↔
    ∃ days, plan.periodDays = some days ∧ runAt.reach < days.toInt

namespace Plan

variable {plan : Plan} {runAt : Instant} {days : Int64}

theorem windowStart_of_none (h : plan.periodDays = none) : plan.windowStart runAt = .ok none := by
  rw [windowStart, h]

/-- A window starts as far back as its period, unless the calendar does not reach that far. -/
theorem windowStart_of_some (hyears : runAt.IsInYears 1970 9999)
    (hperiod : plan.periodDays = some days) (hpositive : 0 < days) :
    plan.windowStart runAt =
      if days.toInt ≤ runAt.reach then .ok (some (runAt.daysBefore days.toInt))
      else .error .outsideCalendar := by
  have hdays : 0 ≤ days.toInt := by
    have h := Int64.lt_iff_toInt_lt.1 hpositive
    rw [Int64.toInt_zero] at h
    exact h.le
  have hreach := Instant.isRepresentable_daysBefore_iff hyears.lt_lastDay hdays
  simp only [windowStart, hperiod, Instant.daysBefore?, hreach]
  by_cases hle : days.toInt ≤ runAt.reach
  · simp only [if_pos hle]
  · simp only [if_neg hle]

theorem computesWindow (hyears : runAt.IsInYears 1970 9999)
    (hpositive : ∀ days, plan.periodDays = some days → 0 < days) :
    plan.ComputesWindow runAt := by
  cases hperiod : plan.periodDays with
  | none =>
    have hwindow : plan.windowStart runAt = .ok none := windowStart_of_none hperiod
    constructor
    · simp [hwindow, hperiod]
    · simp [hwindow, hperiod]
    · simp [hwindow, hperiod]
  | some days =>
    have hwindow := windowStart_of_some hyears hperiod (hpositive days hperiod)
    have hstart : ∀ start : Instant, runAt.daysBefore days.toInt = start ↔
        start.micros = runAt.micros - days.toInt * 86400 * Instant.microsPerSecond := by
      intro start
      rw [Int.mul_assoc, eq_comm]
      exact ⟨congrArg Instant.micros, fun h => by cases start; exact congrArg Instant.mk h⟩
    -- the window starts before the run, so it can leave the calendar at its early end only
    by_cases hle : days.toInt ≤ runAt.reach
    · rw [if_pos hle] at hwindow
      constructor
      · simp [hwindow, hperiod]
      · simp [hwindow, hperiod, hle, hstart]
      · simp [hwindow, hperiod, hle]
    · rw [if_neg hle] at hwindow
      constructor
      · simp [hwindow, hperiod]
      · simp [hwindow, hperiod, hle]
      · simpa [hwindow, hperiod] using hle

end Plan

namespace Command

variable {path : String} {contents : Except Text.FileError String} {loaded : Plan}
  {sinceDays : Option Int64} {runAt : Instant}

theorem withPeriod_eq_pure (hpositive : ∀ days, sinceDays = some days → 0 < days) :
    withPeriod sinceDays loaded = pure (loaded.over sinceDays) := by
  cases sinceDays with
  | none => rfl
  | some days => exact if_neg (Int64.not_le.2 (hpositive days rfl))

/-- A run whose window has no start crashes as soon as it knows what time it is. -/
theorem yields_crashed (hloaded : (Config.load contents >>= Plan.ofConfig) = .ok loaded)
    (hpositive : ∀ days, sinceDays = some days → 0 < days)
    (hwindow : (loaded.over sinceDays).windowStart runAt = .error .outsideCalendar)
    (dryRun : Bool) (runId : String) :
    (runPlan path sinceDays dryRun).run.Yields
      [⟨.readFile path, contents⟩, ⟨.connect, .ok ()⟩, ⟨.freshId, runId⟩, ⟨.currentTime, runAt⟩]
      (.error .crashed) := by
  have hcrash : (windowStart (loaded.over sinceDays) runAt).run.Yields [] (.error .crashed) := by
    rw [windowStart, hwindow]
    exact .done _
  have hcompute : (compute (loaded.over sinceDays)).run.Yields
      ([⟨.connect, .ok ()⟩] ++ ([⟨.freshId, runId⟩] ++ ([⟨.currentTime, runAt⟩] ++ [])))
      (.error .crashed) := by
    refine Action.yields_bind (Action.yields_connect_iff.2 rfl) ?_
    refine Action.yields_bind (Action.yields_perform_iff.2 rfl) ?_
    refine Action.yields_bind (Action.yields_perform_iff.2 rfl) ?_
    exact Action.yields_bind_result_iff.2 (.inl ⟨_, rfl, hcrash⟩)
  rw [runPlan_eq]
  refine Action.yields_bind_result_iff.2 (.inl ⟨_, rfl, ?_⟩)
  refine Action.yields_bind (yields_loadPlan_iff.2 ⟨contents, rfl, hloaded⟩) ?_
  rw [withPeriod_eq_pure hpositive, pure_bind]
  exact Action.yields_bind_result_iff.2 (.inl ⟨_, rfl, hcompute⟩)

end Command

/-- How the runs of a configuration, with some other period if one is asked for, come to the window
that they have at some time. -/
structure Command.HasWindow (config : Config) (sinceDays : Option Int64) (runAt : Instant)
    (loaded : Plan) : Prop where
  /-- The configuration has a plan, -/
  planned : Plan.ofConfig config = .ok loaded
  /-- which the command takes with the period that is asked for, or with its own. -/
  accepted : Command.withPeriod sinceDays loaded = pure (loaded.over sinceDays)
  periodDays_eq : (loaded.over sinceDays).periodDays = sinceDays.or config.periodDays
  /-- The window starts that period before the run if the calendar reaches so far back, -/
  computesWindow : (loaded.over sinceDays).ComputesWindow runAt
  /-- as it does for 96465292 days in any case. -/
  le_reach : 96465292 ≤ runAt.reach
  /-- If it does not, the run crashes before it sends anything to the store. -/
  crashes : (∃ days, sinceDays.or config.periodDays = some days ∧ runAt.reach < days.toInt) →
    ∀ path contents dryRun runId, Config.load contents = .ok config →
      (Command.runPlan path sinceDays dryRun).run.Yields
        [⟨.readFile path, contents⟩, ⟨.connect, .ok ()⟩, ⟨.freshId, runId⟩,
          ⟨.currentTime, runAt⟩] (.error .crashed)

namespace Config

variable {config : Config} {warnings : List Ambiguity}

/-- At any time from 1970 to 9999 the runs of an accepted configuration, with its own period or with
another positive one, have the window that the calendar allows. -/
theorem validate_computes_window (h : config.validate = .ok warnings) (sinceDays : Option Int64)
    (hpositive : ∀ days, sinceDays = some days → 0 < days) (runAt : Instant)
    (hyears : runAt.IsInYears 1970 9999) :
    ∃ loaded, Command.HasWindow config sinceDays runAt loaded := by
  obtain ⟨hcheck, -⟩ := validate_eq_ok_iff.1 h
  obtain ⟨-, -, -, -, hperiod, -⟩ := check_eq_ok_iff.1 hcheck
  let loaded : Plan := { config, accepted := hcheck }
  have hplan : Plan.ofConfig config = .ok loaded := Plan.ofConfig_eq_ok_iff.2 ⟨hcheck, rfl⟩
  have hover : (loaded.over sinceDays).periodDays = sinceDays.or config.periodDays := by
    cases sinceDays <;> rfl
  have hwindow : (loaded.over sinceDays).ComputesWindow runAt := by
    refine Plan.computesWindow hyears fun days hdays => ?_
    rcases Option.or_eq_some_iff.1 (hover.symm.trans hdays) with hsince | ⟨-, hconfig⟩
    · exact hpositive days hsince
    · refine Int64.lt_iff_toInt_lt.2 ?_
      rw [Int64.toInt_zero]
      exact checkPeriod_eq_ok_iff.1 hperiod days hconfig
  refine ⟨loaded, hplan, Command.withPeriod_eq_pure hpositive, hover, hwindow, hyears.le_reach,
    fun hbeyond path contents dryRun runId hload => ?_⟩
  have hloaded : (Config.load contents >>= Plan.ofConfig) = .ok loaded := by
    rw [hload]
    exact hplan
  rw [← hover] at hbeyond
  exact Command.yields_crashed hloaded hpositive (hwindow.error_iff.2 hbeyond) dryRun runId

/-- A funnel whose runs are about some days. -/
def lasting (days : Int64) : Config :=
  { visits "reports" with periodDays := some days }

/-- In 2026 a week, asked for in place of a month, starts a week before the run, and a run for a
hundred million days crashes. -/
theorem validate_lasting_computes_window :
    let runAt : Instant := ⟨1772442000000000⟩
    (lasting 30).validate = .ok [] ∧ runAt.IsInYears 1970 9999 ∧
      (∃ loaded, Command.HasWindow (lasting 30) (some 7) runAt loaded ∧
        (loaded.over (some 7)).windowStart runAt = .ok (some ⟨1771837200000000⟩)) ∧
      ∃ loaded, Command.HasWindow (lasting 30) (some 100000000) runAt loaded ∧
        (loaded.over (some 100000000)).windowStart runAt = .error .outsideCalendar := by
  intro runAt
  have hvalidate : (lasting 30).validate = .ok [] :=
    validate_eq_ok_iff.2 ⟨check_eq_ok_of_isOk (by decide +kernel), by cbv⟩
  have hyears : runAt.IsInYears 1970 9999 := by decide
  obtain ⟨week, hweek⟩ := validate_computes_window hvalidate (some 7)
    (by rintro _ ⟨⟩; decide) runAt hyears
  obtain ⟨ages, hages⟩ := validate_computes_window hvalidate (some 100000000)
    (by rintro _ ⟨⟩; decide) runAt hyears
  refine ⟨hvalidate, hyears, ⟨week, hweek, ?_⟩, ages, hages, ?_⟩
  · exact (hweek.computesWindow.some_iff _).2 ⟨7, rfl, by decide, by decide⟩
  · exact hages.computesWindow.error_iff.2 ⟨100000000, rfl, by decide⟩

/-- A period of a hundred million days is accepted, in a configuration and on the command line, and
in 1970 its window has no start. -/
theorem validate_accepts_unreachable_window :
    (lasting 100000000).validate = .ok [] ∧ (0 : Int64) < 100000000 ∧
      (⟨0⟩ : Instant).IsInYears 1970 9999 ∧
      ∃ own other, Plan.ofConfig (lasting 100000000) = .ok own ∧
        own.windowStart ⟨0⟩ = .error .outsideCalendar ∧
        Plan.ofConfig (visits "reports") = .ok other ∧
        Command.withPeriod (some 100000000) other = pure (other.over (some 100000000)) ∧
        (other.over (some 100000000)).windowStart ⟨0⟩ = .error .outsideCalendar := by
  have hcheck : (lasting 100000000).check = .ok () := check_eq_ok_of_isOk (by decide +kernel)
  exact ⟨validate_eq_ok_iff.2 ⟨hcheck, by cbv⟩, by decide, by decide,
    { config := lasting 100000000, accepted := hcheck }, Plan.visits,
    Plan.ofConfig_eq_ok_iff.2 ⟨hcheck, rfl⟩, rfl,
    Plan.ofConfig_eq_ok_iff.2 ⟨Plan.visits.accepted, rfl⟩, rfl, rfl⟩

end Config

end Funnel
