import Funnel.Proofs.Metric.Counts

/-!
# The counts at a row

The counts of a row depend on the set of users that start it and the set of those that complete it.
So they add up over users, wherever a combination has rows at all.
-/

namespace Funnel

open Std

/-- The counts of a row. -/
structure Tally where
  starters : Nat
  completers : Nat
  dropoffs : Nat
deriving DecidableEq, Repr

namespace Tally

instance : Add Tally where
  add a b := ⟨a.starters + b.starters, a.completers + b.completers, a.dropoffs + b.dropoffs⟩

theorem add_def (a b : Tally) :
    a + b = ⟨a.starters + b.starters, a.completers + b.completers, a.dropoffs + b.dropoffs⟩ := rfl

/-- The counts of a row that some users start and some complete. -/
noncomputable def ofUsers (starting finishing : Set String) : Tally :=
  ⟨starting.ncard, finishing.ncard, starting.ncard - finishing.ncard⟩

/-- Counts add up over some users and all others. -/
theorem ofUsers_inter_add_diff {starting finishing : Set String} (hfinite : starting.Finite)
    (hsubset : finishing ⊆ starting) (users : Set String) :
    ofUsers (starting ∩ users) (finishing ∩ users) +
        ofUsers (starting \ users) (finishing \ users) =
      ofUsers starting finishing := by
  have hstarting := Set.ncard_inter_add_ncard_sdiff_eq_ncard starting users hfinite
  have hfinishing :=
    Set.ncard_inter_add_ncard_sdiff_eq_ncard finishing users (hfinite.subset hsubset)
  -- in neither part do more users complete the row than start it
  have hinter : (finishing ∩ users).ncard ≤ (starting ∩ users).ncard :=
    Set.ncard_le_ncard (Set.inter_subset_inter_left users hsubset) (hfinite.inter_of_left users)
  have hdiff : (finishing \ users).ncard ≤ (starting \ users).ncard :=
    Set.ncard_le_ncard (Set.sdiff_subset_sdiff_left hsubset) hfinite.sdiff
  simp only [ofUsers, add_def, mk.injEq]
  omega

end Tally

/-- Where a metric stands: at a step in a combination, or at the whole funnel in it. -/
inductive Row
  | stage (dimensions : Dimensions) (rank : UInt32)
  | endToEnd (dimensions : Dimensions)
deriving DecidableEq

namespace Metric

def IsAt (metric : Metric) : Row → Prop
  | .stage dimensions rank => metric.IsStage dimensions rank
  | .endToEnd dimensions => metric.IsEndToEnd dimensions

instance (metric : Metric) : DecidablePred metric.IsAt
  | .stage dimensions rank =>
    decidable_of_iff
      (metric.level = .stage ∧ metric.stepRank = some rank ∧ metric.dimensions = dimensions)
      ⟨fun ⟨level, stepRank, dimensions⟩ => ⟨level, stepRank, dimensions⟩,
        fun ⟨level, stepRank, dimensions⟩ => ⟨level, stepRank, dimensions⟩⟩
  | .endToEnd dimensions =>
    decidable_of_iff (metric.level = .endToEnd ∧ metric.dimensions = dimensions)
      ⟨fun ⟨level, dimensions⟩ => ⟨level, dimensions⟩,
        fun ⟨level, dimensions⟩ => ⟨level, dimensions⟩⟩

def tally (metric : Metric) : Tally :=
  ⟨metric.starters, metric.completers, metric.dropoffs⟩

/-- The counts at a row among some metrics; a row that is not there counts nobody. -/
def tallyAt (metrics : List Metric) (row : Row) : Tally :=
  ((metrics.find? fun metric => metric.IsAt row).map tally).getD ⟨0, 0, 0⟩

end Metric

namespace Entry

/-- The users that start a row. -/
def usersStarting (entries : List Entry) : Row → Set String
  | .stage dimensions rank => usersReaching entries dimensions rank
  | .endToEnd dimensions => usersReaching entries dimensions 1

/-- The users that complete a row. -/
def usersFinishing (entries : List Entry) (last : UInt32) : Row → Set String
  | .stage dimensions rank => usersConverting entries dimensions rank
  | .endToEnd dimensions => usersCompleting entries dimensions last

theorem usersFinishing_subset (entries : List Entry) (last : UInt32) (row : Row) :
    usersFinishing entries last row ⊆ usersStarting entries row := by
  cases row with
  | stage dimensions rank => exact usersConverting_subset entries dimensions rank
  | endToEnd dimensions => exact usersCompleting_subset_first entries dimensions last

theorem finite_usersStarting (entries : List Entry) (row : Row) :
    (usersStarting entries row).Finite := by
  cases row with
  | stage => exact finite_usersWhere entries _
  | endToEnd => exact finite_usersWhere entries _

variable (q : String → Bool)

theorem usersWhere_filter (entries : List Entry) (p : Entry → Prop) :
    usersWhere (entries.filter fun entry => q entry.user) p =
      usersWhere entries p ∩ {user | q user} := by
  ext user
  constructor
  · rintro ⟨entry, hentry, hp, rfl⟩
    obtain ⟨hentry, hq⟩ := List.mem_filter.1 hentry
    exact ⟨⟨entry, hentry, hp, rfl⟩, hq⟩
  · rintro ⟨⟨entry, hentry, hp, rfl⟩, hq⟩
    exact ⟨entry, List.mem_filter.2 ⟨hentry, hq⟩, hp, rfl⟩

/-- What is asked of the session of an entry does not depend on the entries of other users. -/
theorem usersCompleting_filter (entries : List Entry) (dimensions : Dimensions) (last : UInt32) :
    usersCompleting (entries.filter fun entry => q entry.user) dimensions last =
      usersCompleting entries dimensions last ∩ {user | q user} := by
  rw [usersCompleting, usersCompleting, ← usersWhere_filter]
  have hmem : ∀ {first other : Entry}, first ∈ entries.filter (fun entry => q entry.user) →
      other.journeyKey = first.journeyKey →
        (other ∈ entries.filter (fun entry => q entry.user) ↔ other ∈ entries) := by
    intro first other hfirst hkey
    have huser : other.user = first.user := congrArg Prod.fst hkey
    have hq : q other.user = true := huser ▸ (List.mem_filter.1 hfirst).2
    simp [hq]
  refine Set.Subset.antisymm (usersWhere_mono ?_) (usersWhere_mono ?_)
  · rintro first hfirst ⟨hdimensions, hrank, ⟨final, hfinal, hkey, hlast⟩, hle⟩
    exact ⟨hdimensions, hrank, ⟨final, (hmem hfirst hkey).1 hfinal, hkey, hlast⟩,
      fun other hother hother_key => hle other ((hmem hfirst hother_key).2 hother) hother_key⟩
  · rintro first hfirst ⟨hdimensions, hrank, ⟨final, hfinal, hkey, hlast⟩, hle⟩
    exact ⟨hdimensions, hrank, ⟨final, (hmem hfirst hkey).2 hfinal, hkey, hlast⟩,
      fun other hother hother_key => hle other ((hmem hfirst hother_key).1 hother) hother_key⟩

theorem usersStarting_filter (entries : List Entry) (row : Row) :
    usersStarting (entries.filter fun entry => q entry.user) row =
      usersStarting entries row ∩ {user | q user} := by
  cases row with
  | stage => exact usersWhere_filter q entries _
  | endToEnd => exact usersWhere_filter q entries _

theorem usersFinishing_filter (entries : List Entry) (last : UInt32) (row : Row) :
    usersFinishing (entries.filter fun entry => q entry.user) last row =
      usersFinishing entries last row ∩ {user | q user} := by
  cases row with
  | stage => exact usersWhere_filter q entries _
  | endToEnd => exact usersCompleting_filter q entries _ last

end Entry

namespace Metric

variable {steps : List Step} {declared : List String} {entries : List Entry} {metric : Metric}

theorem tally_eq {row : Row} (hrow : metric.IsAt row)
    (h : metric ∈ ofEntries steps declared entries)
    (hpositive : ∀ entry ∈ entries, 1 ≤ entry.stepRank) :
    metric.tally = .ofUsers (Entry.usersStarting entries row)
      (Entry.usersFinishing entries (Step.maxRank steps) row) := by
  rw [tally, dropoffs_eq h]
  cases row with
  | stage dimensions rank =>
    obtain ⟨hstarters, hcompleters⟩ := IsStage.counts hrow h
    rw [hstarters, hcompleters]
    rfl
  | endToEnd dimensions =>
    obtain ⟨hstarters, hcompleters⟩ := IsEndToEnd.counts hrow h hpositive
    rw [hstarters, hcompleters]
    rfl

/-- A row is there if some user starts it. -/
theorem exists_isAt (declared : List String)
    (hranks : ∀ entry ∈ entries, ∃ step ∈ steps, step.rank = entry.stepRank) {row : Row}
    {user : String} (h : user ∈ Entry.usersStarting entries row) :
    ∃ metric ∈ ofEntries steps declared entries, metric.IsAt row := by
  have hcombination : ∀ entry ∈ entries, entry.dimensions ∈ combinationsOf declared entries :=
    fun entry hentry => mem_combinationsOf.2 (.inl ⟨entry, hentry, rfl⟩)
  cases row with
  | stage dimensions rank =>
    obtain ⟨entry, hentry, ⟨rfl, rfl⟩, -⟩ := h
    obtain ⟨step, hstep, hrank⟩ := hranks entry hentry
    refine ⟨_, mem_ofEntries.2 ⟨_, hcombination entry hentry, .inl ⟨step, hstep, rfl⟩⟩, ?_⟩
    exact ⟨rfl, congrArg some hrank, rfl⟩
  | endToEnd dimensions =>
    obtain ⟨entry, hentry, ⟨rfl, -⟩, -⟩ := h
    exact ⟨_, mem_ofEntries.2 ⟨_, hcombination entry hentry, .inr rfl⟩, rfl, rfl⟩

/-- The counts at a row are those of the users that start and complete it, also where there is no
such row. -/
theorem tallyAt_ofEntries
    (hranks : ∀ entry ∈ entries, ∃ step ∈ steps, step.rank = entry.stepRank)
    (hpositive : ∀ entry ∈ entries, 1 ≤ entry.stepRank) (row : Row) :
    tallyAt (ofEntries steps declared entries) row = .ofUsers (Entry.usersStarting entries row)
      (Entry.usersFinishing entries (Step.maxRank steps) row) := by
  unfold tallyAt
  cases hfind : (ofEntries steps declared entries).find? fun metric => metric.IsAt row with
  | some metric =>
    have hrow : metric.IsAt row := by simpa using List.find?_some hfind
    exact tally_eq hrow (List.mem_of_find?_eq_some hfind) hpositive
  | none =>
    have hnobody : Entry.usersStarting entries row = ∅ := by
      refine Set.eq_empty_iff_forall_notMem.2 fun user huser => ?_
      obtain ⟨metric, hmetric, hrow⟩ := exists_isAt declared hranks huser
      simpa [hrow] using List.find?_eq_none.1 hfind metric hmetric
    have hfinishing := Set.subset_empty_iff.1
      (hnobody ▸ Entry.usersFinishing_subset entries (Step.maxRank steps) row)
    simp [hnobody, hfinishing, Tally.ofUsers]

/-- The counts at a row are those of every metric that stands there. -/
theorem tallyAt_eq_of_isAt {row : Row} (hrow : metric.IsAt row)
    (h : metric ∈ ofEntries steps declared entries)
    (hranks : ∀ entry ∈ entries, ∃ step ∈ steps, step.rank = entry.stepRank)
    (hpositive : ∀ entry ∈ entries, 1 ≤ entry.stepRank) :
    tallyAt (ofEntries steps declared entries) row = metric.tally :=
  (tallyAt_ofEntries hranks hpositive row).trans (tally_eq hrow h hpositive).symm

/-- Counts add up over the entries of some users and of all others. -/
theorem tallyAt_filter_add (declared : List String)
    (hranks : ∀ entry ∈ entries, ∃ step ∈ steps, step.rank = entry.stepRank)
    (hpositive : ∀ entry ∈ entries, 1 ≤ entry.stepRank) (q : String → Bool)
    (row : Row) :
    tallyAt (ofEntries steps declared entries) row =
      tallyAt (ofEntries steps declared (entries.filter fun entry => q entry.user)) row +
        tallyAt (ofEntries steps declared (entries.filter fun entry => !q entry.user)) row := by
  have hpart : ∀ q : String → Bool,
      tallyAt (ofEntries steps declared (entries.filter fun entry => q entry.user)) row =
        .ofUsers (Entry.usersStarting entries row ∩ {user | q user})
          (Entry.usersFinishing entries (Step.maxRank steps) row ∩ {user | q user}) := by
    intro q
    rw [← Entry.usersStarting_filter, ← Entry.usersFinishing_filter]
    refine tallyAt_ofEntries (fun entry hentry => ?_) (fun entry hentry => ?_) row
    · exact hranks entry (List.mem_filter.1 hentry).1
    · exact hpositive entry (List.mem_filter.1 hentry).1
  have hothers : ∀ users : Set String, users ∩ {user | !q user} = users \ {user | q user} := by
    intro users
    ext user
    simp
  rw [tallyAt_ofEntries hranks hpositive, hpart q, hpart fun user => !q user, hothers, hothers]
  exact (Tally.ofUsers_inter_add_diff (Entry.finite_usersStarting entries row)
    (Entry.usersFinishing_subset entries _ row) _).symm

end Metric

end Funnel
