/-
Extended JSON: an object with the single key `$date`, `$uuid` or `$objectId`
writes a date, a UUID or an object id.
-/
import DocumentFilter.Error.Message

namespace DocumentFilter

/-- A value written by extended JSON. -/
inductive ExtendedValue where
  | date (t : Instant)
  | uuid (id : Uuid)
  | objectId (id : ObjectId)
  deriving DecidableEq

/-- The integer that a number is, if it lies within the signed 64-bit range; a float counts if it is whole. -/
def Number.exactInt64? (n : Number) : Option Int :=
  match n.toInt64? with
  | some i => some i
  | none =>
    match n.toBinary64? with
    | some x => if x.isIntegral && x.fitsInt64 then some x.truncate else none
    | none => none

namespace ExtendedValue

/-- The tag and the payload of an object that is extended JSON. -/
def wrapper? : List (String × Json) → Option (ExtendedTag × Json)
  | [(key, payload)] => (ExtendedTag.ofKey? key).map (·, payload)
  | _ => none

/-- A date from its milliseconds. -/
def date? : Json → Option Instant
  | .number n => n.exactInt64?.map Instant.mk
  | _ => none

/-- The value that a tag and its payload write. -/
def decode : ExtendedTag → Json → Except FilterError ExtendedValue
  | .date, payload =>
    match date? payload with
    | some t => .ok (.date t)
    | none => .error (.invalidExtendedJson (.notMillis payload))
  | .uuid, .string text =>
    match Uuid.parse? text with
    | some id => .ok (.uuid id)
    | none => .error (.invalidExtendedJson (.malformed .uuid text))
  | .objectId, .string text =>
    match ObjectId.parse? text with
    | some id => .ok (.objectId id)
    | none => .error (.invalidExtendedJson (.malformed .objectId text))
  | tag, payload => .error (.invalidExtendedJson (.notAString tag payload))

end ExtendedValue

end DocumentFilter
