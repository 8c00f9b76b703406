import Funnel.Entry.Attributes
import Funnel.Proofs.Entry.Position

/-!
# Which record counts

Records that are alike in user, session, time and values are the same record, so it does not matter
in which order they come, or how often.
-/

namespace Funnel.AttributeRecord

open Std

variable {selection : Selection} {records others : List AttributeRecord}
  {record : AttributeRecord} {user : String} {session : Option String} {key : String × String}

/-- A record counts at least as much as another one: by its time, and at the same time by its
values, it is not below it, or where the earliest counts not above it. -/
def Outranks (selection : Selection) (record other : AttributeRecord) : Prop :=
  match selection with
  | .latest =>
    (compare (other.observedAt, other.values) (record.observedAt, record.values)).isLE
  | .earliest =>
    (compare (record.observedAt, record.values) (other.observedAt, other.values)).isLE

/-- Of the records of a user with some session, or with none, the one that outranks the others. -/
structure IsSelected (selection : Selection) (records : List AttributeRecord) (user : String)
    (session : Option String) (record : AttributeRecord) : Prop where
  mem : record ∈ records
  user_eq : record.user = user
  session_eq : record.session = session
  outranks : ∀ other ∈ records, other.user = user → other.session = session →
    record.Outranks selection other

/-- The record that counts for a session: one of its own, or if there is none, one of its user that
has no session. -/
inductive CountsFor (selection : Selection) (records : List AttributeRecord)
    (key : String × String) (record : AttributeRecord) : Prop
  | ofSession (selected : IsSelected selection records key.1 (some key.2) record)
  | ofUser (absent : ∀ other ∈ records, other.user = key.1 → other.session ≠ some key.2)
      (selected : IsSelected selection records key.1 none record)

/-- The records of a user with some session, or with none. -/
def ofKey (user : String) (session : Option String) (records : List AttributeRecord) :
    List AttributeRecord :=
  records.filter fun record => record.user = user ∧ record.session = session

@[simp]
theorem mem_ofKey :
    record ∈ ofKey user session records ↔
      record ∈ records ∧ record.user = user ∧ record.session = session := by
  simp [ofKey]

/-- Records of one user and session that rank the same are the same. -/
theorem eq_of_compare_rankingKey {a b : AttributeRecord} (ha : a ∈ ofKey user session records)
    (hb : b ∈ ofKey user session records) (h : compare a.rankingKey b.rankingKey = .eq) :
    a = b := by
  obtain ⟨-, ha_user, ha_session⟩ := mem_ofKey.1 ha
  obtain ⟨-, hb_user, hb_session⟩ := mem_ofKey.1 hb
  obtain ⟨htime, hvalues⟩ := Prod.mk.inj (LawfulEqOrd.eq_of_compare h)
  cases a
  cases b
  simp_all

theorem select?_ofKey_eq_some_iff :
    select? selection (ofKey user session records) = some record ↔
      IsSelected selection records user session record := by
  have hgreatest : select? selection (ofKey user session records) = some record ↔
      record ∈ ofKey user session records ∧
        ∀ other ∈ ofKey user session records, record.Outranks selection other := by
    cases selection with
    | latest =>
      exact firstMaxOn?_eq_some_iff fun a ha b hb heq => eq_of_compare_rankingKey ha hb heq
    | earliest =>
      exact firstMinOn?_eq_some_iff fun a ha b hb heq => eq_of_compare_rankingKey ha hb heq
  rw [hgreatest]
  constructor
  · rintro ⟨hmem, houtranks⟩
    obtain ⟨hrecord, huser, hsession⟩ := mem_ofKey.1 hmem
    exact ⟨hrecord, huser, hsession, fun other hother hother_user hother_session =>
      houtranks other (mem_ofKey.2 ⟨hother, hother_user, hother_session⟩)⟩
  · rintro ⟨hrecord, huser, hsession, houtranks⟩
    refine ⟨mem_ofKey.2 ⟨hrecord, huser, hsession⟩, fun other hother => ?_⟩
    obtain ⟨hother, hother_user, hother_session⟩ := mem_ofKey.1 hother
    exact houtranks other hother hother_user hother_session

theorem select?_ofKey_eq_none_iff :
    select? selection (ofKey user session records) = none ↔
      ∀ other ∈ records, other.user = user → other.session ≠ session := by
  have hnone : ∀ records, select? selection records = none ↔ records = [] := fun records => by
    cases selection <;> cases records <;> simp [select?, firstMaxOn?, firstMinOn?]
  rw [hnone, ofKey, List.filter_eq_nil_iff]
  simp

theorem lookup?_eq (selection : Selection) (records : List AttributeRecord)
    (key : String × String) :
    lookup? selection records key =
      (select? selection (ofKey key.1 (some key.2) records)).or
        (select? selection (ofKey key.1 none records)) := by
  have hkey : ∀ (session : Option String) (p : AttributeRecord → Bool),
      (∀ record, p record = true ↔ record.session = session) →
        (records.filter fun record => record.user == key.1).filter p =
          ofKey key.1 session records := by
    intro session p hp
    rw [List.filter_filter, ofKey]
    refine List.filter_congr fun record _ => Bool.eq_iff_iff.2 ?_
    rw [Bool.and_eq_true, hp, beq_iff_eq, decide_eq_true_iff, and_comm]
  exact congrArg₂ (fun own shared => (select? selection own).or (select? selection shared))
    (hkey (some key.2) _ fun _ => beq_iff_eq) (hkey none _ fun _ => Option.isNone_iff_eq_none)

/-- Looking up a session finds the record that counts for it. -/
theorem lookup?_eq_some_iff :
    lookup? selection records key = some record ↔ record.CountsFor selection records key := by
  rw [lookup?_eq, Option.or_eq_some_iff, select?_ofKey_eq_some_iff, select?_ofKey_eq_some_iff,
    select?_ofKey_eq_none_iff]
  constructor
  · rintro (hsession | ⟨habsent, huser⟩)
    · exact .ofSession hsession
    · exact .ofUser habsent huser
  · rintro (hsession | ⟨habsent, huser⟩)
    · exact .inl hsession
    · exact .inr ⟨habsent, huser⟩

theorem lookup?_eq_none_iff :
    lookup? selection records key = none ↔
      ∀ other ∈ records, other.user = key.1 →
        other.session ≠ some key.2 ∧ other.session ≠ none := by
  rw [lookup?_eq, Option.or_eq_none_iff, select?_ofKey_eq_none_iff, select?_ofKey_eq_none_iff]
  constructor
  · rintro ⟨hsession, huser⟩ other hother heq
    exact ⟨hsession other hother heq, huser other hother heq⟩
  · intro h
    exact ⟨fun other hother heq => (h other hother heq).1,
      fun other hother heq => (h other hother heq).2⟩

theorem IsSelected.congr (h : ∀ other, other ∈ records ↔ other ∈ others)
    (hselected : IsSelected selection records user session record) :
    IsSelected selection others user session record where
  mem := (h record).1 hselected.mem
  user_eq := hselected.user_eq
  session_eq := hselected.session_eq
  outranks other hother := hselected.outranks other ((h other).2 hother)

theorem CountsFor.congr (h : ∀ other, other ∈ records ↔ other ∈ others)
    (hcounts : record.CountsFor selection records key) : record.CountsFor selection others key := by
  cases hcounts with
  | ofSession selected => exact .ofSession (selected.congr h)
  | ofUser absent selected =>
    exact .ofUser (fun other hother => absent other ((h other).2 hother)) (selected.congr h)

/-- Neither the order of the records nor their number matters to which one counts. -/
theorem lookup?_congr (h : ∀ other, other ∈ records ↔ other ∈ others) :
    lookup? selection records key = lookup? selection others key := by
  refine Option.ext fun record => ?_
  rw [lookup?_eq_some_iff, lookup?_eq_some_iff]
  exact ⟨CountsFor.congr h, CountsFor.congr fun other => (h other).symm⟩

end Funnel.AttributeRecord
