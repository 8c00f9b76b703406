import Funnel.Entry.Attributes
import Funnel.Proofs.Entry.Backfill
import Funnel.Proofs.Entry.Sequence
import Funnel.Proofs.NameMap

/-!
# What attaching dimensions does to entries

The map of a session is read off its entries in order, so it is the same before and after these are
put in sequence, and the same with the entries of skipped steps as without them.
-/

namespace Funnel.Entry

open Std Time

/-- An entry with another dimension map. -/
def withDimensions (entry : Entry) (dimensions : Dimensions) : Entry :=
  { entry with dimensions }

/-- The dimension map that a session of some entries gets. -/
def dimensionsOf (declared : List String) (selection : Selection) (records : List AttributeRecord)
    (entries : List Entry) (key : String × String) : Dimensions :=
  sessionDimensions declared selection records key (ofSession key entries)

/-- What a session carries for a name, and if that is nothing, what its record says. -/
def sessionValue (selection : Selection) (records : List AttributeRecord) (entries : List Entry)
    (key : String × String) (name : String) : Option String :=
  ((sortOn position (ofSession key entries)).findSome? fun entry =>
    entry.dimensions.value name).or
      ((AttributeRecord.lookup? selection records key).bind fun record =>
        record.values.value name)

/-- The map of a session, name by name. -/
theorem dimensionsOf_eq (declared : List String) (selection : Selection)
    (records : List AttributeRecord) (entries : List Entry) (key : String × String) :
    dimensionsOf declared selection records entries key =
      Dimensions.ofNames declared (sessionValue selection records entries key) := by
  unfold dimensionsOf sessionDimensions observedDimensions sessionValue
  cases AttributeRecord.lookup? selection records key with
  | none => simp only [Option.bind_none, Option.or_none]
  | some record => simp only [Dimensions.fill_ofNames, Option.bind_some]

theorem attach_eq (declared : List String) (selection : Selection)
    (records : List AttributeRecord) (entries : List Entry) :
    attach declared selection records entries = entries.map fun entry =>
      entry.withDimensions
        (dimensionsOf declared selection records entries entry.sessionKey) := by
  unfold attach
  refine List.map_congr_left fun entry hentry => ?_
  have hkey : entry.sessionKey ∈ distinct (entries.map sessionKey) :=
    mem_distinct.2 (List.mem_map_of_mem hentry)
  rw [bySession_eq, List.map_map]
  have hlookup := lookup_map_of_mem hkey
    (f := fun key => sessionDimensions declared selection records key (ofSession key entries))
  simp only [Function.comp_def, withDimensions, dimensionsOf, hlookup, Option.getD_some]

@[simp]
theorem sessionKey_withDimensions (entry : Entry) (dimensions : Dimensions) :
    (entry.withDimensions dimensions).sessionKey = entry.sessionKey := rfl

theorem dimensions_of_mem_attach {declared : List String} {selection : Selection}
    {records : List AttributeRecord} {entries : List Entry} {entry : Entry}
    (h : entry ∈ attach declared selection records entries) :
    entry.dimensions = dimensionsOf declared selection records entries entry.sessionKey := by
  rw [attach_eq] at h
  obtain ⟨origin, -, rfl⟩ := List.mem_map.1 h
  rfl

section Observed

variable {declared : List String} {session : List Entry}

theorem observedDimensions_sequenceSession (mode : ConversionMode) (session : List Entry) :
    observedDimensions declared (sequenceSession mode session) =
      observedDimensions declared session := by
  have hbare := map_bare_sequenceSession mode session
  have hpositions : (sequenceSession mode session).map position =
      (sortOn position session).map position := map_eq_of_map_bare_eq position_bare hbare
  have hsorted : sortOn position (sequenceSession mode session) =
      sequenceSession mode session := by
    have hpairwise : ((sequenceSession mode session).map position).Pairwise
        fun p q => (compare p q).isLE := by
      rw [hpositions]
      exact List.pairwise_map.2 (pairwise_sortOn position session)
    exact sortOn_eq_self (List.pairwise_map.1 hpairwise)
  have hvalues : ∀ name, (sequenceSession mode session).findSome?
      (fun entry => entry.dimensions.value name) =
        (sortOn position session).findSome? fun entry => entry.dimensions.value name := by
    intro name
    have hmap : (sequenceSession mode session).map (fun entry => entry.dimensions.value name) =
        (sortOn position session).map fun entry => entry.dimensions.value name :=
      map_eq_of_map_bare_eq (fun _ => rfl) hbare
    have hfind := congrArg (List.findSome? id) hmap
    rwa [List.findSome?_map, List.findSome?_map] at hfind
  simp only [observedDimensions, hsorted, hvalues]

/-- Dropping elements from a list leaves its first value alone if each dropped element carries what
the kept element next behind it does. -/
theorem findSome?_filter_eq {α β : Type} {f : α → Option β} {p : α → Bool} {xs : List α}
    (h : ∀ before x after, xs = before ++ x :: after → p x = false →
      ∃ y, (after.filter p).head? = some y ∧ f y = f x) :
    (xs.filter p).findSome? f = xs.findSome? f := by
  induction xs with
  | nil => rfl
  | cons x xs ih =>
    have hxs := ih fun before y after heq => h (x :: before) y after (by rw [heq]; rfl)
    by_cases hx : p x = true
    · rw [List.filter_cons_of_pos hx, List.findSome?_cons, List.findSome?_cons, hxs]
    · obtain ⟨y, hy, heq⟩ := h [] x xs rfl (Bool.eq_false_iff.2 hx)
      -- a dropped element with a value hands it on to the next kept one
      rw [List.filter_cons_of_neg hx, List.findSome?_cons]
      cases hvalue : f x with
      | none => exact hxs
      | some b =>
        obtain ⟨rest, hrest⟩ := List.head?_eq_some_iff.1 hy
        rw [hrest, List.findSome?_cons, heq, hvalue]

/-- Behind an added entry the next one that is not added is its anchor. -/
theorem exists_head?_filter_skipped {steps : List Step} (hranks : (steps.map Step.rank).Nodup)
    (hsession : (session.map stepRank).Nodup) (hplain : ∀ entry ∈ session, entry.backfilled = false)
    {before after : List Entry} {entry : Entry}
    (h : sortOn position (session ++ skipped steps session) = before ++ entry :: after)
    (hadded : entry.backfilled = true) :
    ∃ anchor, (after.filter fun other => !other.backfilled).head? = some anchor ∧
      anchor.dimensions = entry.dimensions := by
  have hasc := ascending_position (nodup_rank_append_skipped hranks hsession)
  have hmem : ∀ {other}, other ∈ before ++ entry :: after ↔
      other ∈ session ∨ FillsIn steps session other := by
    intro other
    rw [← h, mem_sortOn, List.mem_append, mem_skipped_iff hranks]
  rw [h] at hasc
  have hfills : FillsIn steps session entry := by
    refine (hmem.1 (List.mem_append_right _ (List.mem_cons_self ..))).resolve_left fun hentry => ?_
    rw [hplain entry hentry] at hadded
    cases hadded
  obtain ⟨anchor, hanchor, -, htime, hlt, hdimensions, hnext⟩ := hfills.exists_anchor hsession
  have hbehind : compare entry.position anchor.position = .lt :=
    (position_lt_iff (Std.ne_of_lt hlt)).2 (.inr ⟨htime, hlt⟩)
  have hafter : Ascending position after :=
    hasc.sublist ((List.sublist_cons_self ..).trans (List.sublist_append_right ..))
  -- the anchor is still to come, and nothing of the session comes before it
  have hanchor_mem : anchor ∈ after.filter fun other => !other.backfilled := by
    refine List.mem_filter.2 ⟨hasc.mem_tail_of_lt (hmem.2 (.inl hanchor)) hbehind, ?_⟩
    rw [hplain anchor hanchor]
    rfl
  refine ⟨anchor, Ascending.head?_eq_some (hafter.filter _) hanchor_mem fun other hother => ?_,
    hdimensions.symm⟩
  obtain ⟨hother_mem, hother_plain⟩ := List.mem_filter.1 hother
  have hother_session : other ∈ session := by
    refine (hmem.1 (List.mem_append_right _
      (List.mem_cons_of_mem _ hother_mem))).resolve_right fun hfills => ?_
    rw [hfills.backfilled_eq] at hother_plain
    cases hother_plain
  exact hnext other hother_session (hasc.lt_of_mem_tail hother_mem)

/-- A session carries the same with the entries of skipped steps as without them. -/
theorem observedDimensions_append_skipped {steps : List Step}
    (hranks : (steps.map Step.rank).Nodup) (hsession : (session.map stepRank).Nodup)
    (hplain : ∀ entry ∈ session, entry.backfilled = false) :
    observedDimensions declared (session ++ skipped steps session) =
      observedDimensions declared session := by
  have hasc := ascending_position (nodup_rank_append_skipped hranks hsession)
  have hsorted : (sortOn position (session ++ skipped steps session)).filter
      (fun entry => !entry.backfilled) = sortOn position session := by
    refine (hasc.filter _).eq_of_mem_iff (ascending_position hsession) fun entry => ?_
    rw [List.mem_filter, mem_sortOn, mem_sortOn, List.mem_append, mem_skipped_iff hranks]
    constructor
    · rintro ⟨hentry | hfills, hplain⟩
      · exact hentry
      · rw [hfills.backfilled_eq] at hplain
        cases hplain
    · intro hentry
      exact ⟨.inl hentry, by rw [hplain entry hentry]; rfl⟩
  -- an added entry has the dimensions of the next one of the session, which gives the same value
  have hvalues : ∀ name, (sortOn position (session ++ skipped steps session)).findSome?
      (fun entry => entry.dimensions.value name) =
        (sortOn position session).findSome? fun entry => entry.dimensions.value name := by
    intro name
    rw [← hsorted]
    refine (findSome?_filter_eq fun before entry after heq hadded => ?_).symm
    obtain ⟨anchor, hhead, hdimensions⟩ :=
      exists_head?_filter_skipped hranks hsession hplain heq (by simpa using hadded)
    exact ⟨anchor, hhead, by rw [hdimensions]⟩
  simp only [observedDimensions, hvalues]

end Observed

section DimensionsOf

variable {declared : List String} {selection : Selection} {records : List AttributeRecord}
  {entries : List Entry} {key : String × String}

/-- A record adds no names to the declared ones, and takes none away. -/
theorem mem_names_dimensionsOf {name : String} :
    name ∈ (dimensionsOf declared selection records entries key).names ↔ name ∈ declared := by
  rw [dimensionsOf_eq, Dimensions.mem_names_ofNames]

theorem dimensionsOf_sequence (mode : ConversionMode) :
    dimensionsOf declared selection records (sequence mode entries) key =
      dimensionsOf declared selection records entries key := by
  unfold dimensionsOf sessionDimensions
  rw [ofSession_sequence, observedDimensions_sequenceSession]

theorem dimensionsOf_backfill {steps : List Step} (hranks : (steps.map Step.rank).Nodup)
    (hcells : (entries.map cell).Nodup) (hplain : ∀ entry ∈ entries, entry.backfilled = false) :
    dimensionsOf declared selection records (backfill steps entries) key =
      dimensionsOf declared selection records entries key := by
  unfold dimensionsOf sessionDimensions
  rw [ofSession_backfill hranks, observedDimensions_append_skipped hranks
    (nodup_cell_iff.1 hcells key) fun entry hentry => hplain entry (mem_ofSession.1 hentry).1]

theorem dimensionsOf_filter {p : String × String → Bool} (h : p key = true) :
    dimensionsOf declared selection records (entries.filter fun entry => p entry.sessionKey) key =
      dimensionsOf declared selection records entries key := by
  have hsession : ofSession key (entries.filter fun entry => p entry.sessionKey) =
      ofSession key entries := by
    rw [ofSession, List.filter_filter]
    refine List.filter_congr fun entry _ => ?_
    by_cases hkey : entry.sessionKey = key
    · simp [hkey, h]
    · simp [hkey]
  unfold dimensionsOf
  rw [hsession]

/-- Where no dimension is declared, every session gets the empty map, whatever the records say. -/
theorem dimensionsOf_nil : dimensionsOf [] selection records entries key = .empty := by
  unfold dimensionsOf sessionDimensions
  split <;> rfl

end DimensionsOf

/-- Some of the sessions get their dimensions without the others. -/
theorem attach_filter (declared : List String) (selection : Selection)
    (records : List AttributeRecord) (p : String × String → Bool) (entries : List Entry) :
    attach declared selection records (entries.filter fun entry => p entry.sessionKey) =
      (attach declared selection records entries).filter fun entry => p entry.sessionKey := by
  rw [attach_eq, attach_eq, List.filter_map]
  refine List.map_congr_left fun entry hentry => ?_
  rw [dimensionsOf_filter (List.mem_filter.1 hentry).2]

end Funnel.Entry
