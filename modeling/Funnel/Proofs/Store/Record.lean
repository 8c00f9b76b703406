import Funnel.Proofs.Except
import Funnel.Proofs.NameMap
import Funnel.Store.Statement

/-!
# Published rows, there and back

A published row has a value under every column of its relation. That of an entry tells the entry,
and that of a metric says everything that the metric does, if 64 bits hold its counts.
-/

namespace Funnel

namespace Dimensions

theorem valueOfJson_textOrNull (value : Option String) :
    valueOfJson (Json.textOrNull value) = .ok value := by
  cases value <;> rfl

/-- A dimension map is read back from its JSON object. -/
theorem ofJson_toJson (d : Dimensions) : ofJson d.toJson = .ok d := by
  -- the members of the object are the entries of a map of JSON values
  have hmembers : NameMap.ofList (d.entries.map fun entry => (entry.1, Json.textOrNull entry.2)) =
      NameMap.map (fun _ => Json.textOrNull) d :=
    NameMap.ofList_entries (NameMap.map (fun _ => Json.textOrNull) d)
  refine bind_eq_ok_iff.2 ⟨d.entries, ?_, congrArg Except.ok (NameMap.ofList_entries d)⟩
  rw [hmembers, mapM_eq_ok_iff]
  refine List.forall₂_map_left_iff.2 (List.forall₂_same.2 fun entry _ => ?_)
  show (valueOfJson (Json.textOrNull entry.2)).map _ = _
  rw [valueOfJson_textOrNull]
  rfl

theorem toJson_injective : Function.Injective toJson := by
  intro a b h
  have hread := congrArg ofJson h
  rw [ofJson_toJson, ofJson_toJson] at hread
  exact Except.ok.inj hread

end Dimensions

namespace Store

/-- A count that 64 bits hold is kept by a signed number. -/
theorem toNat_toUInt64_ofNat {n : Nat} (h : n < UInt64.size) :
    (Int64.ofNat n).toUInt64.toNat = n :=
  UInt64.toNat_ofNat_of_lt' h

/-- A metric is read back from its row if 64 bits hold its counts. -/
theorem MetricRow.toMetric_ofMetric (runAt : Time.Instant) {metric : Metric}
    (hstarters : metric.starters < UInt64.size) (hcompleters : metric.completers < UInt64.size)
    (hdropoffs : metric.dropoffs < UInt64.size) :
    (ofMetric runAt metric).toMetric = .ok metric := by
  have hlevel : Level.ofName? metric.level.name = some metric.level :=
    Level.ofName?_eq_some_iff.2 rfl
  have hrank : (metric.stepRank.map UInt32.toInt32).map Int32.toUInt32 = metric.stepRank := by
    cases metric.stepRank with
    | none => rfl
    | some rank => exact congrArg some (UInt32.toUInt32_toInt32 rank)
  unfold toMetric ofMetric
  dsimp only
  rw [hlevel, hrank, Dimensions.ofJson_toJson, toNat_toUInt64_ofNat hstarters,
    toNat_toUInt64_ofNat hcompleters, toNat_toUInt64_ofNat hdropoffs]
  rfl

theorem Param.ofOption_injective {α : Type} {param : α → Param} (hinj : Function.Injective param)
    (hnull : ∀ a, param a ≠ .null) : Function.Injective (Param.ofOption param) := by
  intro a b h
  cases a with
  | none =>
    cases b with
    | none => rfl
    | some b => exact absurd h.symm (hnull b)
  | some a =>
    cases b with
    | none => exact absurd h (hnull a)
    | some b => exact congrArg some (hinj h)

theorem Param.ofOption_text_injective : Function.Injective (ofOption .text) :=
  ofOption_injective (fun _ _ => text.inj) nofun

theorem Param.ofOption_eq_elim {α : Type} (param : α → Param) (value : Option α) :
    ofOption param value = value.elim null param := by
  cases value <;> rfl

/-- A row of entries is told by its parameters. -/
theorem entryParams_injective (stamp : Stamp) : Function.Injective (entryParams stamp) := by
  have htime : Function.Injective (Param.ofOption .instant) :=
    Param.ofOption_injective (fun _ _ => Param.instant.inj) nofun
  have hseconds : Function.Injective (Param.ofOption .integer) :=
    Param.ofOption_injective (fun _ _ => Param.integer.inj) nofun
  have hrank : ∀ a b : UInt32, a.toInt32.toInt = b.toInt32.toInt ↔ a = b := by
    intro a b
    rw [Int32.toInt_inj]
    exact Function.LeftInverse.injective UInt32.toUInt32_toInt32 |>.eq_iff
  intro a b h
  simp only [entryParams, List.cons.injEq, Param.text.injEq, Param.instant.injEq,
    Param.integer.injEq, Param.bool.injEq, Param.json.injEq, true_and, and_true, hrank,
    Param.ofOption_text_injective.eq_iff, htime.eq_iff, hseconds.eq_iff,
    Dimensions.toJson_injective.eq_iff] at h
  cases a
  cases b
  grind

/-- A row of metrics is told by its parameters. -/
theorem metricRowParams_injective (runId : String) :
    Function.Injective (metricRowParams runId) := by
  have hrank : Function.Injective (Param.ofOption fun rank : Int32 => .integer rank.toInt) :=
    Param.ofOption_injective (fun _ _ h => Int32.toInt_inj.1 (Param.integer.inj h)) nofun
  have hfigure : Function.Injective (Param.ofOption .float) :=
    Param.ofOption_injective (fun _ _ => Param.float.inj) nofun
  have hobject : Function.Injective (Param.ofOption .json) :=
    Param.ofOption_injective (fun _ _ => Param.json.inj) nofun
  intro a b h
  simp only [metricRowParams, ← Param.ofOption_eq_elim, List.cons.injEq, Param.text.injEq,
    Param.instant.injEq, Param.integer.injEq, true_and, and_true, Int64.toInt_inj, hrank.eq_iff,
    Param.ofOption_text_injective.eq_iff, hfigure.eq_iff, hobject.eq_iff] at h
  cases a
  cases b
  rw [MetricRow.mk.injEq]
  exact h

/-- A row of a relation: a value under the name of each column. -/
abbrev NamedRow := List (String × Param)

/-- A dimension map in a row: an object with a text for each value, and null for none. -/
def dimensionsCell (d : Dimensions) : Param :=
  .json (.object (d.entries.map fun (name, value) => (name, value.elim .null .string)))

theorem json_toJson (d : Dimensions) : .json d.toJson = dimensionsCell d := by
  refine congrArg (fun members => Param.json (.object members)) (List.map_congr_left ?_)
  rintro ⟨name, _ | value⟩ _ <;> rfl

/-- The row that publishes an entry. -/
def entryCells (stamp : Stamp) (entry : Entry) : NamedRow :=
  [("run_id", .text stamp.runId),
    ("run_at", .instant stamp.runAt),
    ("user_id", .text entry.user),
    ("session_id", .text entry.session),
    ("step_name", .text entry.stepName),
    ("step_rank", .integer entry.stepRank.toInt32.toInt),
    ("entered_at", .instant entry.enteredAt),
    ("previous_step_name", entry.previousStep.elim .null .text),
    ("next_entered_at", entry.nextEnteredAt.elim .null .instant),
    ("converted", .bool entry.converted),
    ("time_to_convert_seconds", entry.secondsToConvert.elim .null .integer),
    ("backfilled", .bool entry.backfilled),
    ("dimension_values", dimensionsCell entry.dimensions)]

/-- The row that publishes a metric. -/
def metricCells (stamp : Stamp) (metric : Metric) : NamedRow :=
  [("run_id", .text stamp.runId),
    ("run_at", .instant stamp.runAt),
    ("analysis_level", .text (match metric.level with | .stage => "stage" | .endToEnd => "e2e")),
    ("step_rank", metric.stepRank.elim .null fun rank => .integer rank.toInt32.toInt),
    ("step_name", metric.stepName.elim .null .text),
    ("dimension_values", dimensionsCell metric.dimensions),
    ("starters_count", .integer (Int64.ofNat metric.starters).toInt),
    ("completers_count", .integer (Int64.ofNat metric.completers).toInt),
    ("dropoffs_count", .integer (Int64.ofNat metric.dropoffs).toInt),
    ("conversion_rate_pct", metric.conversionRate.elim .null .float),
    ("dropoff_rate_pct", metric.dropoffRate.elim .null .float),
    ("avg_time_to_reach_seconds", metric.secondsToReach.elim .null .float),
    ("avg_time_to_convert_seconds", metric.secondsToConvert.elim .null .float),
    ("avg_sessions_to_reach", metric.sessionsToReach.elim .null .float),
    ("avg_sessions_to_convert", metric.sessionsToConvert.elim .null .float)]

/-- The parameters of an entry are the values under the columns of the relation of entries. -/
theorem zip_entryColumns (stamp : Stamp) (entry : Entry) :
    (entryColumns.map Prod.fst).zip (entryParams stamp entry) = entryCells stamp entry := by
  simp only [entryParams, Param.ofOption_eq_elim, json_toJson]
  rfl

/-- A row tells the entry that it publishes. -/
theorem entryCells_injective (stamp : Stamp) : Function.Injective (entryCells stamp) := by
  have hvalues : ∀ entry, (entryCells stamp entry).map Prod.snd = entryParams stamp entry := by
    intro entry
    rw [← zip_entryColumns]
    exact List.map_snd_zip (Nat.le_refl 13)
  intro a b h
  refine entryParams_injective stamp ?_
  rw [← hvalues a, ← hvalues b, h]

end Store

end Funnel
