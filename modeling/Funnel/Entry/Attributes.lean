import Funnel.Entry.Basic

/-!
# Dimensions of sessions

All entries of a session get the same dimension map: what the session's entries carry first, and for
the rest what a record of the session or else of its user says.
-/

namespace Funnel

open Time

/-- Attributes observed of a session, or of a user as a whole. -/
structure AttributeRecord where
  user : String
  session : Option String
  observedAt : Instant
  values : Dimensions
deriving DecidableEq

/-- Which of several records of the same key counts. -/
inductive Selection
  | latest
  | earliest
deriving DecidableEq, Repr

def Selection.name : Selection → String
  | latest => "latest"
  | earliest => "earliest"

namespace AttributeRecord

/-- Records are ordered by time of observation, then by their values. -/
def rankingKey (record : AttributeRecord) : Instant × Dimensions :=
  (record.observedAt, record.values)

/-- The record that counts. -/
def select? (selection : Selection) (records : List AttributeRecord) : Option AttributeRecord :=
  match selection with
  | .latest => firstMaxOn? rankingKey records
  | .earliest => firstMinOn? rankingKey records

/-- The record of a session: one of the session itself if there is any, else one of its user. -/
def lookup? (selection : Selection) (records : List AttributeRecord) (key : String × String) :
    Option AttributeRecord :=
  let ofUser := records.filter fun record => record.user == key.1
  (select? selection (ofUser.filter fun record => record.session == some key.2)).or
    (select? selection (ofUser.filter fun record => record.session.isNone))

end AttributeRecord

namespace Entry

/-- The first value of each declared dimension that the entries of a session carry, in order of
their position. -/
def observedDimensions (declared : List String) (session : List Entry) : Dimensions :=
  let ordered := sortOn position session
  Dimensions.ofNames declared fun name => ordered.findSome? fun entry => entry.dimensions.value name

/-- The dimension map of a session: what its entries carry, and for the rest what its record
says. -/
def sessionDimensions (declared : List String) (selection : Selection)
    (records : List AttributeRecord) (key : String × String) (session : List Entry) :
    Dimensions :=
  let observed := observedDimensions declared session
  match AttributeRecord.lookup? selection records key with
  | none => observed
  | some record => Dimensions.fill observed record.values

/-- Entries with the dimension map of their session. -/
def attach (declared : List String) (selection : Selection) (records : List AttributeRecord)
    (entries : List Entry) : List Entry :=
  let maps := (bySession entries).map fun (key, session) =>
    (key, sessionDimensions declared selection records key session)
  entries.map fun entry =>
    { entry with
      dimensions := (maps.lookup entry.sessionKey).getD (Dimensions.unset declared) }

end Entry

end Funnel
