import Funnel.Proofs.Entry.Conversion
import Funnel.Proofs.RollUp
import Mathlib.Data.List.Permutation

/-!
# Times to convert and the length of a journey

The times between the entries of a session add up to the time from its first to its last. In whole
seconds, the journey drops a part of a second once and every time to convert drops one of its own.
-/

namespace Funnel

open Std Time

namespace Time.Instant

variable {earlier later : Instant}

/-- An instant without a part of a second. -/
def IsWholeSecond (t : Instant) : Prop :=
  microsPerSecond ∣ t.micros

/-- Between whole seconds nothing is dropped. -/
theorem IsWholeSecond.secondsSince_mul (hearlier : earlier.IsWholeSecond)
    (hlater : later.IsWholeSecond) :
    later.secondsSince earlier * microsPerSecond = later.micros - earlier.micros :=
  Int.tdiv_mul_cancel (Int.dvd_sub hlater hearlier)

end Time.Instant

namespace Entry

/-- The times to convert of the entries from which their sessions went on, added up. -/
def secondsOnward (entries : List Entry) : Int :=
  ((entries.filter converted).filterMap secondsToConvert).foldr (· + ·) 0

variable (previous : Option Entry) (entry : Entry) {later : List Entry}

theorem secondsOnward_signal_singleton :
    secondsOnward (signal .anyLaterEvent previous [entry]) = 0 := rfl

theorem secondsOnward_signal_cons (next : Entry) (later : List Entry) :
    secondsOnward (signal .anyLaterEvent previous (entry :: next :: later)) =
      next.enteredAt.secondsSince entry.enteredAt +
        secondsOnward (signal .anyLaterEvent (some entry) (next :: later)) := rfl

/-- The seconds counted on the way are no more than the way takes. -/
theorem secondsOnward_signal_mul_le
    (h : (entry :: later).Pairwise fun a b => a.enteredAt ≤ b.enteredAt) :
    secondsOnward (signal .anyLaterEvent previous (entry :: later)) * Instant.microsPerSecond ≤
      (later.getLastD entry).enteredAt.micros - entry.enteredAt.micros := by
  induction later generalizing previous entry with
  | nil => simp [secondsOnward_signal_singleton]
  | cons next later ih =>
    obtain ⟨hentry, hlater⟩ := List.pairwise_cons.1 h
    have hstep := Instant.secondsSince_mul_le (hentry next (List.mem_cons_self ..))
    have hrest := ih (some entry) next hlater
    rw [secondsOnward_signal_cons, List.getLastD_cons, Int.add_mul]
    omega

/-- Every step on the way drops less than a second. -/
theorem sub_le_secondsOnward_signal_mul
    (h : (entry :: later).Pairwise fun a b => a.enteredAt ≤ b.enteredAt) :
    (later.getLastD entry).enteredAt.micros - entry.enteredAt.micros ≤
      secondsOnward (signal .anyLaterEvent previous (entry :: later)) * Instant.microsPerSecond +
        later.length * (Instant.microsPerSecond - 1) := by
  induction later generalizing previous entry with
  | nil => simp [secondsOnward_signal_singleton]
  | cons next later ih =>
    obtain ⟨hentry, hlater⟩ := List.pairwise_cons.1 h
    have hstep := Instant.sub_le_secondsSince_mul (hentry next (List.mem_cons_self ..))
    have hrest := ih (some entry) next hlater
    rw [secondsOnward_signal_cons, List.getLastD_cons, Int.add_mul, List.length_cons,
      Int.natCast_add, Int.add_mul]
    omega

/-- Where all entries are at whole seconds, nothing is dropped on the way. -/
theorem secondsOnward_signal_mul_eq (h : ∀ e ∈ entry :: later, e.enteredAt.IsWholeSecond) :
    secondsOnward (signal .anyLaterEvent previous (entry :: later)) * Instant.microsPerSecond =
      (later.getLastD entry).enteredAt.micros - entry.enteredAt.micros := by
  induction later generalizing previous entry with
  | nil => simp [secondsOnward_signal_singleton]
  | cons next later ih =>
    obtain ⟨hentry, hlater⟩ := List.forall_mem_cons.1 h
    have hstep := hentry.secondsSince_mul (hlater next (List.mem_cons_self ..))
    have hrest := ih (some entry) next hlater
    rw [secondsOnward_signal_cons, List.getLastD_cons, Int.add_mul]
    omega

theorem times_congr {xs ys : List Entry} (h : xs.map enteredAt = ys.map enteredAt) :
    times xs = times ys := by
  ext time
  show (∃ e ∈ xs, e.enteredAt = time) ↔ ∃ e ∈ ys, e.enteredAt = time
  rw [← List.mem_map, h, List.mem_map]

theorem isLeast_times_cons
    (h : (entry :: later).Pairwise fun a b => a.enteredAt ≤ b.enteredAt) :
    IsLeast (times (entry :: later)) entry.enteredAt := by
  refine ⟨⟨entry, List.mem_cons_self .., rfl⟩, ?_⟩
  rintro _ ⟨other, hother, rfl⟩
  rcases List.mem_cons.1 hother with rfl | hother
  · exact le_rfl
  · exact (List.pairwise_cons.1 h).1 other hother

theorem isGreatest_times_cons
    (h : (entry :: later).Pairwise fun a b => a.enteredAt ≤ b.enteredAt) :
    IsGreatest (times (entry :: later)) (later.getLastD entry).enteredAt := by
  induction later generalizing entry with
  | nil => exact ⟨⟨entry, List.mem_cons_self .., rfl⟩, by simp [times]⟩
  | cons next later ih =>
    obtain ⟨hentry, hlater⟩ := List.pairwise_cons.1 h
    obtain ⟨⟨last, hlast, htime⟩, hgreatest⟩ := ih next hlater
    rw [List.getLastD_cons]
    refine ⟨⟨last, List.mem_cons_of_mem _ hlast, htime⟩, ?_⟩
    rintro _ ⟨other, hother, rfl⟩
    rcases List.mem_cons.1 hother with rfl | hother
    · exact (hentry next (List.mem_cons_self ..)).trans
        (hgreatest ⟨next, List.mem_cons_self .., rfl⟩)
    · exact hgreatest ⟨other, hother, rfl⟩

end Entry

namespace Journey

/-- Entries of one session and dimension map have one journey, which sums them up. -/
theorem ofSessions_eq_singleton {entries : List Entry} {key : String × String × Dimensions}
    (hne : entries ≠ []) (hkey : ∀ entry ∈ entries, entry.journeyKey = key) :
    ∃ journey, ofSessions entries = [journey] ∧
      ofEntries? key.1 (some key.2.1) key.2.2 entries = some journey := by
  have hkeys : distinct (entries.map Entry.journeyKey) = [key] := by
    refine (ascending_distinct _).eq_of_mem_iff (List.pairwise_singleton _ _) fun k => ?_
    rw [mem_distinct, List.mem_map, List.mem_singleton]
    constructor
    · rintro ⟨entry, hentry, rfl⟩
      exact hkey entry hentry
    · rintro rfl
      obtain ⟨entry, hentry⟩ := List.exists_mem_of_ne_nil entries hne
      exact ⟨entry, hentry, hkey entry hentry⟩
  have hall : Entry.ofJourney key entries = entries :=
    List.filter_eq_self.2 fun entry hentry => decide_eq_true (hkey entry hentry)
  obtain ⟨journey, hjourney⟩ := exists_ofEntries? key.1 (some key.2.1) key.2.2 hne
  refine ⟨journey, ?_, hjourney⟩
  rw [ofSessions_eq, hkeys, List.filterMap_cons, hall, hjourney, List.filterMap_nil]

/-- A journey takes from the first of its entries to the last. -/
theorem elapsedSeconds_of_ofEntries? {user : String} {session : Option String}
    {dimensions : Dimensions} {entries later : List Entry} {first : Entry} {journey : Journey}
    (htimes : entries.map Entry.enteredAt = (first :: later).map Entry.enteredAt)
    (hordered : (first :: later).Pairwise fun a b => a.enteredAt ≤ b.enteredAt)
    (h : ofEntries? user session dimensions entries = some journey) :
    journey.elapsedSeconds =
      (later.getLastD first).enteredAt.secondsSince first.enteredAt := by
  obtain ⟨-, -, -, hsums⟩ := ofEntries?_eq_some h
  have hsame := Entry.times_congr htimes
  have hfirst : journey.firstEnteredAt = first.enteredAt :=
    (hsame ▸ hsums.firstEnteredAt).unique (Entry.isLeast_times_cons first hordered)
  have hlast : journey.lastEnteredAt = (later.getLastD first).enteredAt :=
    (hsame ▸ hsums.lastEnteredAt).unique (Entry.isGreatest_times_cons first hordered)
  rw [(counts_of_ofEntries? h).2.2, hfirst, hlast]

/-- A session of entries of one key has one journey, from its first entry in order of time to its
last. -/
theorem exists_journey_of_sequenceSession (rows : List Entry)
    (key : String × String × Dimensions) (hne : rows ≠ [])
    (hkey : ∀ row ∈ rows, row.journeyKey = key) :
    ∃ first later journey, (first :: later).Perm rows ∧
      (first :: later).Pairwise (fun a b => a.enteredAt ≤ b.enteredAt) ∧
      Entry.sequenceSession .anyLaterEvent rows =
        Entry.signal .anyLaterEvent none (first :: later) ∧
      ofSessions (Entry.sequenceSession .anyLaterEvent rows) = [journey] ∧
      journey.elapsedSeconds =
        (later.getLastD first).enteredAt.secondsSince first.enteredAt := by
  have hperm := sortOn_perm Entry.position rows
  have hbare := Entry.map_bare_sequenceSession .anyLaterEvent rows
  have hordered := Entry.pairwise_enteredAt_sortOn rows
  have hsession := Entry.sequenceSession_eq .anyLaterEvent rows
  -- signals are added to the sorted rows, of which the first and the last are wanted
  generalize sortOn Entry.position rows = sorted at hperm hbare hordered hsession
  cases sorted with
  | nil => exact absurd hperm.nil_eq.symm hne
  | cons first later =>
    have hkeys : (Entry.sequenceSession .anyLaterEvent rows).map Entry.journeyKey =
        (first :: later).map Entry.journeyKey :=
      Entry.map_eq_of_map_bare_eq (fun _ => rfl) hbare
    have hsession_key : ∀ entry ∈ Entry.sequenceSession .anyLaterEvent rows,
        entry.journeyKey = key := by
      intro entry hentry
      obtain ⟨row, hrow, heq⟩ := List.mem_map.1 (hkeys ▸ List.mem_map_of_mem hentry)
      rw [← heq]
      exact hkey row (hperm.mem_iff.1 hrow)
    have hsession_ne : Entry.sequenceSession .anyLaterEvent rows ≠ [] := by
      rw [hsession]
      exact List.cons_ne_nil _ _
    obtain ⟨journey, hjourneys, hjourney⟩ := ofSessions_eq_singleton hsession_ne hsession_key
    refine ⟨first, later, journey, hperm, hordered, hsession, hjourneys, ?_⟩
    exact elapsedSeconds_of_ofEntries? (Entry.map_eq_of_map_bare_eq (fun _ => rfl) hbare) hordered
      hjourney

/-- The times to convert of a session in which any later entry counts as going on add up to the
length of its journey, apart from parts of a second: they are no more, and for each entry but two
they may be a second less. Between whole seconds they are the same. -/
theorem elapsedSeconds_telescopes (rows : List Entry) (key : String × String × Dimensions)
    (hne : rows ≠ []) (hkey : ∀ row ∈ rows, row.journeyKey = key) :
    let session := Entry.sequenceSession .anyLaterEvent rows
    ∃ journey, ofSessions session = [journey] ∧
      Entry.secondsOnward session ≤ journey.elapsedSeconds ∧
      journey.elapsedSeconds ≤ Entry.secondsOnward session + ↑(rows.length - 2) ∧
      ((∀ row ∈ rows, row.enteredAt.IsWholeSecond) →
        Entry.secondsOnward session = journey.elapsedSeconds) := by
  dsimp only
  obtain ⟨first, later, journey, hperm, hordered, hsession, hjourneys, helapsed⟩ :=
    exists_journey_of_sequenceSession rows key hne hkey
  -- the journey and the times to convert are both compared with the microseconds on the way
  have hle : first.enteredAt ≤ (later.getLastD first).enteredAt :=
    (Entry.isGreatest_times_cons first hordered).2 ⟨first, List.mem_cons_self .., rfl⟩
  have hlower := Instant.secondsSince_mul_le hle
  have hupper := Instant.sub_le_secondsSince_mul hle
  have hcounted := Entry.secondsOnward_signal_mul_le none first hordered
  have hdropped := Entry.sub_le_secondsOnward_signal_mul none first hordered
  have hlength : later.length + 1 = rows.length := hperm.length_eq
  have hunit : Instant.microsPerSecond = 1000000 := rfl
  rw [← helapsed, hunit] at hlower hupper
  rw [← hsession, hunit] at hcounted hdropped
  refine ⟨journey, hjourneys, ?_, ?_, fun hwhole => ?_⟩
  · omega
  · omega
  · have hexact := Entry.secondsOnward_signal_mul_eq none first fun entry hentry =>
      hwhole entry (hperm.mem_iff.1 hentry)
    rw [← hsession, hunit] at hexact
    omega

end Journey

/-- Three entries of a session before 1970, seven tenths of a second apart, in another order. -/
def Entry.beforeEpoch : List Entry :=
  [{ user := "ann", session := "s1", stepName := "Cart", stepRank := 2, enteredAt := ⟨-800000⟩,
      dimensions := .empty },
    { user := "ann", session := "s1", stepName := "Home", stepRank := 1, enteredAt := ⟨-1500000⟩,
      dimensions := .empty },
    { user := "ann", session := "s1", stepName := "Home", stepRank := 1, enteredAt := ⟨-100000⟩,
      dimensions := .empty }]

/-- Neither step takes a whole second, and the journey takes one. -/
theorem Journey.elapsedSeconds_telescopes_beforeEpoch :
    Entry.beforeEpoch ≠ [] ∧
      (∀ row ∈ Entry.beforeEpoch, row.journeyKey = ("ann", "s1", .empty)) ∧
      let session := Entry.sequenceSession .anyLaterEvent Entry.beforeEpoch
      Entry.secondsOnward session = 0 ∧
        (Journey.ofSessions session).map Journey.elapsedSeconds = [1] ∧
        ∃ journey, Journey.ofSessions session = [journey] ∧
          Entry.secondsOnward session ≤ journey.elapsedSeconds ∧
          journey.elapsedSeconds ≤
            Entry.secondsOnward session + ↑(Entry.beforeEpoch.length - 2) := by
  have hne : Entry.beforeEpoch ≠ [] := by decide
  have hkey : ∀ row ∈ Entry.beforeEpoch, row.journeyKey = ("ann", "s1", .empty) := by decide
  refine ⟨hne, hkey, by cbv, by cbv, ?_⟩
  obtain ⟨journey, hjourney, hle, hge, -⟩ :=
    Journey.elapsedSeconds_telescopes Entry.beforeEpoch ("ann", "s1", .empty) hne hkey
  exact ⟨journey, hjourney, hle, hge⟩

end Funnel
