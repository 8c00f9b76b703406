import Mathlib
import Funnel.Proofs.Plan.Reordering
import Funnel.Proofs.RollUp

/-!
# What the number of users counts

A run counts the journeys of users, of which a user has one for each combination. So the number of
users is too great unless every user stays within one.
-/

namespace Funnel

open Std

namespace Entry

def users (entries : List Entry) : Set String :=
  { user | ∃ entry ∈ entries, entry.user = user }

def usersByCombination (entries : List Entry) : Set (String × Dimensions) :=
  { key | ∃ entry ∈ entries, (entry.user, entry.dimensions) = key }

theorem finite_usersByCombination (entries : List Entry) : (usersByCombination entries).Finite :=
  (entries.map fun entry => (entry.user, entry.dimensions)).finite_toSet.subset
    fun _ ⟨_, hentry, hkey⟩ => List.mem_map.2 ⟨_, hentry, hkey⟩

theorem image_fst_usersByCombination (entries : List Entry) :
    Prod.fst '' usersByCombination entries = users entries := by
  ext user
  constructor
  · rintro ⟨_, ⟨entry, hentry, rfl⟩, rfl⟩
    exact ⟨entry, hentry, rfl⟩
  · rintro ⟨entry, hentry, rfl⟩
    exact ⟨_, ⟨entry, hentry, rfl⟩, rfl⟩

theorem ncard_users_le (entries : List Entry) :
    (users entries).ncard ≤ (usersByCombination entries).ncard := by
  rw [← image_fst_usersByCombination]
  exact Set.ncard_image_le (finite_usersByCombination entries)

/-- There are as many users with maps as users if no user has two maps, and only then. -/
theorem ncard_users_eq_iff (entries : List Entry) :
    (usersByCombination entries).ncard = (users entries).ncard ↔
      ∀ a ∈ entries, ∀ b ∈ entries, a.user = b.user → a.dimensions = b.dimensions := by
  rw [← image_fst_usersByCombination, eq_comm,
    Set.ncard_image_iff (finite_usersByCombination entries)]
  constructor
  · intro hinj a ha b hb huser
    exact congrArg Prod.snd (hinj ⟨a, ha, rfl⟩ ⟨b, hb, rfl⟩ huser)
  · rintro hone _ ⟨a, ha, rfl⟩ _ ⟨b, hb, rfl⟩ huser
    exact Prod.ext huser (hone a ha b hb huser)

end Entry

/-- Users have one journey for each map that entries of theirs carry. -/
theorem Journey.length_ofUsers (entries : List Entry) :
    (ofUsers entries).length = (Entry.usersByCombination entries).ncard := by
  rw [length_eq_ncard (ascending_ofUsers entries).nodup_map]
  congr 1
  ext key
  constructor
  · rintro ⟨journey, hjourney, rfl⟩
    obtain ⟨entry, hentry, heq⟩ := mem_ofUsers.1 hjourney
    obtain ⟨huser, -, hdimensions, -⟩ := ofEntries?_eq_some heq
    exact ⟨entry, hentry, Prod.ext huser.symm hdimensions.symm⟩
  · rintro ⟨entry, hentry, rfl⟩
    obtain ⟨journey, hjourney, huser, hdimensions⟩ := exists_mem_ofUsers hentry
    exact ⟨journey, hjourney, Prod.ext huser hdimensions⟩

/-- The number of users that some results state counts users once for each combination. -/
structure RunOutput.CountsByCombination (output : RunOutput) : Prop where
  /-- A user counts once for each map that entries of the user carry. -/
  users_eq : output.stats.users = (Entry.usersByCombination output.entries).ncard
  /-- No user is left out. -/
  users_ge : (Entry.users output.entries).ncard ≤ output.stats.users
  /-- The number is that of the users if all entries of a user carry one map, and only then. -/
  users_eq_iff : output.stats.users = (Entry.users output.entries).ncard ↔
    ∀ a ∈ output.entries, ∀ b ∈ output.entries, a.user = b.user → a.dimensions = b.dimensions

namespace Plan

/-- A run on acceptable events counts users once for each combination. -/
theorem run_countsByCombination (plan : Plan) (events : List Event)
    (records : List AttributeRecord) (h : firstDefect? events = none) :
    ∃ output, plan.run events records = .ok output ∧ output.CountsByCombination := by
  have husers : (plan.output events records).stats.users =
      (Entry.usersByCombination (plan.output events records).entries).ncard :=
    Journey.length_ofUsers _
  refine ⟨plan.output events records, run_eq_ok_iff.2 ⟨h, rfl⟩, husers, ?_, ?_⟩
  · rw [husers]
    exact Entry.ncard_users_le _
  · rw [husers]
    exact Entry.ncard_users_eq_iff _

theorem run_checkout_countsByCombination :
    firstDefect? checkoutEvents = none ∧
      ∃ output, checkout.run checkoutEvents [] = .ok output ∧ output.CountsByCombination :=
  ⟨by decide, checkout.run_countsByCombination checkoutEvents [] (by decide)⟩

/-- Visits of one user to the first step of the shop, from two systems. -/
def twoSystemsEvents : List Event :=
  [{ user := "ann", session := "s1", eventType := "home", occurredAt := ⟨10⟩,
      dimensions := NameMap.ofList [("os", some "ios")] },
    { user := "ann", session := "s2", eventType := "home", occurredAt := ⟨20⟩,
      dimensions := NameMap.ofList [("os", some "web")] }]

/-- The one user of these events is counted as two. -/
theorem run_checkout_counts_user_twice :
    ∃ output, checkout.run twoSystemsEvents [] = .ok output ∧
      Entry.users output.entries = {"ann"} ∧ (Entry.users output.entries).ncard = 1 ∧
      output.stats.users = 2 := by
  have husers : (checkout.entries twoSystemsEvents []).map Entry.user = ["ann", "ann"] := by cbv
  have hann : Entry.users (checkout.output twoSystemsEvents []).entries = {"ann"} := by
    ext user
    have hmem : user ∈ (checkout.entries twoSystemsEvents []).map Entry.user ↔ user = "ann" := by
      simp [husers]
    exact List.mem_map.symm.trans hmem
  have htwo : (Journey.ofUsers (checkout.entries twoSystemsEvents [])).length = 2 := by cbv
  refine ⟨checkout.output twoSystemsEvents [], run_eq_ok_iff.2 ⟨by decide, rfl⟩, hann, ?_, htwo⟩
  rw [hann, Set.ncard_singleton]

end Plan

end Funnel
