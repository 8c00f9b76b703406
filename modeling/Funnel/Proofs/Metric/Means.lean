import Funnel.Proofs.Metric.Counts
import Funnel.Proofs.RollUp

/-!
# What averages are taken over

The figures of an average are looked up, and what is not found is left out. So it is said of an
average which things it is taken over, in which order, and which figure each of them gives.
-/

namespace Funnel

open Std

variable {α β : Type} {toFloat : β → Float}

@[simp]
theorem mean_eq_none_iff {xs : List Float} : mean xs = none ↔ xs = [] := by
  simp [mean]

/-- A mean over what is found about some things is absent only if there are none of them, if
something is found about each. -/
theorem mean_filterMap_eq_none_iff {find? : α → Option Float} {xs : List α}
    (h : ∀ x ∈ xs, (find? x).isSome) : mean (xs.filterMap find?) = none ↔ xs = [] := by
  rw [mean_eq_none_iff, List.filterMap_eq_nil_iff]
  constructor
  · intro hnone
    refine List.eq_nil_iff_forall_not_mem.2 fun x hx => ?_
    have hsome := h x hx
    rw [hnone x hx] at hsome
    cases hsome
  · rintro rfl
    exact fun x hx => absurd hx List.not_mem_nil

/-- The mean of some figures is their sum, from zero and from the left, over their number. Where
there are no figures there is no mean. -/
inductive IsMeanOf : List Float → Option Float → Prop
  | nothing : IsMeanOf [] none
  | quotient {figures : List Float} (hne : figures ≠ []) :
      IsMeanOf figures (some (figures.foldl (· + ·) 0.0 / Float.ofNat figures.length))

/-- The mean of a list is the one that is computed. -/
theorem isMeanOf_iff {figures : List Float} {average : Option Float} :
    IsMeanOf figures average ↔ mean figures = average := by
  constructor
  · rintro (_ | hne)
    · rfl
    · exact if_neg (mt List.isEmpty_iff.1 hne)
  · rintro rfl
    cases figures with
    | nil => exact .nothing
    | cons x xs => exact .quotient (List.cons_ne_nil x xs)

/-- An average is the mean of figures that some things give, one each, taken in their order. -/
def IsMean (xs : List α) (Gives : α → β → Prop) (toFloat : β → Float) (average : Option Float) :
    Prop :=
  ∃ figures, List.Forall₂ Gives xs figures ∧ IsMeanOf (figures.map toFloat) average

/-- An average is the mean of figures that some users give, one each, taken in order of name. -/
def IsMeanOver (users : Set String) (Gives : String → β → Prop) (toFloat : β → Float)
    (average : Option Float) : Prop :=
  ∃ names, Ascending id names ∧ (∀ name, name ∈ names ↔ name ∈ users) ∧
    IsMean names Gives toFloat average

/-- A mean of what is found about some things is taken over all of them if something is found about
each. -/
theorem isMean_filterMap {Gives : α → β → Prop} {find? : α → Option β} {xs : List α}
    (h : ∀ x ∈ xs, ∃ figure, find? x = some figure ∧ Gives x figure) :
    IsMean xs Gives toFloat (mean (xs.filterMap fun x => (find? x).map toFloat)) := by
  refine ⟨xs.filterMap find?, ?_, ?_⟩
  · induction xs with
    | nil => exact .nil
    | cons x xs ih =>
      obtain ⟨figure, hfind, hgives⟩ := h x (List.mem_cons_self ..)
      rw [List.filterMap_cons_some hfind]
      exact .cons hgives (ih fun x hx => h x (List.mem_cons_of_mem _ hx))
  · rw [isMeanOf_iff, List.map_filterMap]

/-- There is a mean of what is found about some things if there are any. -/
theorem exists_isMean_filterMap {Gives : α → β → Prop} {find? : α → Option β} {xs : List α}
    (hne : xs ≠ []) (h : ∀ x ∈ xs, ∃ figure, find? x = some figure ∧ Gives x figure) :
    ∃ average, mean (xs.filterMap fun x => (find? x).map toFloat) = some average ∧
      IsMean xs Gives toFloat (some average) := by
  have hfound : ∀ x ∈ xs, ((find? x).map toFloat).isSome := by
    intro x hx
    obtain ⟨figure, hfind, -⟩ := h x hx
    rw [hfind]
    rfl
  obtain ⟨average, hmean⟩ :=
    Option.ne_none_iff_exists'.1 (mt (mean_filterMap_eq_none_iff hfound).1 hne)
  exact ⟨average, hmean, hmean ▸ isMean_filterMap h⟩

theorem isMeanOver_distinct {Gives : String → β → Prop} {find? : String → Option β}
    {users : Set String} {names : List String} (hnames : ∀ name, name ∈ names ↔ name ∈ users)
    (h : ∀ name ∈ users, ∃ figure, find? name = some figure ∧ Gives name figure) :
    IsMeanOver users Gives toFloat
      (mean ((distinct names).filterMap fun name => (find? name).map toFloat)) := by
  refine ⟨distinct names, ascending_distinct names, fun name => ?_, ?_⟩
  · rw [mem_distinct, hnames]
  · exact isMean_filterMap fun name hname => h name ((hnames name).1 (mem_distinct.1 hname))

/-- Two conditions one after the other are their conjunction. -/
theorem filter_filter_and (p q : α → Prop) [DecidablePred p] [DecidablePred q] (xs : List α) :
    (xs.filter fun x => p x).filter (fun x => q x) = xs.filter fun x => p x ∧ q x := by
  rw [List.filter_filter]
  refine List.filter_congr fun x _ => ?_
  rw [Bool.and_comm, Bool.decide_and]

namespace Entry

/-- The entries of a rank in a combination. -/
def ofStep (dimensions : Dimensions) (rank : UInt32) (entries : List Entry) : List Entry :=
  entries.filter fun entry => entry.dimensions = dimensions ∧ entry.stepRank = rank

variable {entries : List Entry} {dimensions : Dimensions} {rank : UInt32}

@[simp]
theorem mem_ofStep {entry : Entry} :
    entry ∈ ofStep dimensions rank entries ↔
      entry ∈ entries ∧ entry.dimensions = dimensions ∧ entry.stepRank = rank := by
  simp [ofStep]

/-- A mean over the groups of the users of some entries is taken over the users. -/
theorem isMeanOver_groupBy {Gives : String → β → Prop} {find? : List Entry → Option β}
    {users : Set String} (husers : ∀ name, name ∈ users ↔ ∃ entry ∈ entries, entry.user = name)
    (h : ∀ name ∈ users, ∃ figure,
      find? (entries.filter fun entry => entry.user = name) = some figure ∧ Gives name figure) :
    IsMeanOver users Gives toFloat
      (mean ((groupBy user entries).filterMap fun group => (find? group.2).map toFloat)) := by
  rw [groupBy_eq, List.filterMap_map]
  exact isMeanOver_distinct (fun name => List.mem_map.trans (husers name).symm) h

end Entry

theorem Metric.entries_sliceOf_filter (entries : List Entry) (dimensions : Dimensions)
    (rank : UInt32) :
    (sliceOf entries dimensions).entries.filter (fun entry => entry.stepRank == rank) =
      Entry.ofStep dimensions rank entries :=
  filter_filter_and (·.dimensions = dimensions) (·.stepRank = rank) entries

theorem Slice.isSome_leastOrdinal? {table : List ((String × String) × Nat)}
    {entries : List Entry} (h : entries ≠ []) : (leastOrdinal? table entries).isSome := by
  rw [leastOrdinal?, List.isSome_min?_iff]
  simpa using h

namespace Metric

variable {entries : List Entry} {dimensions : Dimensions} {journey : Journey}

theorem mem_sessions_sliceOf : journey ∈ (sliceOf entries dimensions).sessions ↔
    journey ∈ Journey.ofSessions entries ∧ journey.dimensions = dimensions := by
  simp [sliceOf, Slice.ofDimensions]

theorem mem_users_sliceOf : journey ∈ (sliceOf entries dimensions).users ↔
    journey ∈ Journey.ofUsers entries ∧ journey.dimensions = dimensions := by
  simp [sliceOf, Slice.ofDimensions]

/-- The session of an entry starts where its journey does. -/
theorem sessionStart?_eq_some {entry : Entry} (h : journey ∈ Journey.ofSessions entries)
    (hentry : entry ∈ journey.members entries) :
    (sliceOf entries entry.dimensions).sessionStart? entry = some journey.firstEnteredAt := by
  obtain ⟨hmem, huser, hsession, hdimensions⟩ := Journey.mem_members.1 hentry
  refine congrArg (Option.map Journey.firstEnteredAt) (findRev?_eq_some_of_unique ?_ ?_ ?_)
  · exact mem_sessions_sliceOf.2 ⟨h, hdimensions.symm⟩
  · simp [huser, hsession]
  · intro other hother hfound
    obtain ⟨hother, hother_dimensions⟩ := mem_sessions_sliceOf.1 hother
    obtain ⟨hother_user, hother_session⟩ := by simpa using hfound
    refine Journey.eq_of_mem_members hother (Journey.mem_members.2 ?_) h hentry
    exact ⟨hmem, hother_user.symm, hother_session.symm, hother_dimensions.symm⟩

/-- The number of sessions of a user is that of the user's journey. -/
theorem sessionCount?_eq_some (h : journey ∈ Journey.ofUsers entries) :
    (sliceOf entries journey.dimensions).sessionCount? journey.user =
      some journey.sessionCount := by
  refine congrArg (Option.map Journey.sessionCount) (findRev?_eq_some_of_unique ?_ ?_ ?_)
  · exact mem_users_sliceOf.2 ⟨h, rfl⟩
  · exact beq_self_eq_true journey.user
  · intro other hother hfound
    obtain ⟨hother, hdimensions⟩ := mem_users_sliceOf.1 hother
    refine List.inj_on_of_nodup_map (Journey.ascending_ofUsers entries).nodup_map hother h ?_
    exact Prod.ext (eq_of_beq hfound) hdimensions

end Metric

end Funnel
