import DottedNames.Log.Mode
import DottedNames.Log.Moment

/-!
# Log records

A record has a level, a message and bound fields. Three of the fields matter: the domain, which says
whether the record is one of this library's, and the module and the action, which make up the origin
that is shown in front of the message. When a record is written is no part of it.

The fields of a record have an order, that in which they were bound first.
-/

namespace DottedNames

/-- The bound fields of a record. -/
abbrev Bindings := List (Text × Datum)

/-- A log record. -/
structure LogRecord where
  /-- How important the record is. -/
  level : Level
  /-- The message. -/
  message : Text
  /-- The bound fields. -/
  bindings : Bindings

namespace LogRecord

/-- The name of this library's log domain. -/
def domain : Text := "fqnkit".toList

/-- The field of the domain. -/
def domainKey : Text := "_log_domain".toList

/-- The field of the module. -/
def moduleKey : Text := "module".toList

/-- The field of the action. -/
def actionKey : Text := "action".toList

/-- The fields with a field set to a value: in its place if it is there, and else at the end. -/
def bind (bs : Bindings) (key : Text) (d : Datum) : Bindings :=
  if bs.any (·.1 == key) then bs.map fun b => if b.1 == key then (key, d) else b
  else bs ++ [(key, d)]

/-- The fields of a record of this library: the module has a default, the domain is fixed
(`get_logger`). -/
def ownBindings (bs : Bindings) : Bindings :=
  let bs := if (Datum.field? bs moduleKey).isSome then bs
    else bind bs moduleKey (.text domain)
  bind bs domainKey (.text domain)

/-- Whether bound fields are those of a record of this library (`_stream_filter`). -/
def isOwn (bs : Bindings) : Bool :=
  match Datum.field? bs domainKey with
  | some (.text t) => t == domain
  | _ => false

/-- The fields of a datum that has to be a record. -/
def bindingsOf : Datum → Except Fault Bindings
  | .record fields => .ok fields
  | d => .error (.noAttribute d.kind "get".toList)

/-- Whether a datum that stands for a whole record passes as one of this library. The datum and its
field `extra`, which may be missing, have to be records. -/
def isOwnDatum (record : Datum) : Except Fault Bool := do
  let fields ← bindingsOf record
  return isOwn (← bindingsOf ((Datum.field? fields "extra".toList).getD (.record [])))

/-- Where a record comes from: its module, and its action if it has one. -/
def origin (bs : Bindings) : Text :=
  let module := ((Datum.field? bs moduleKey).getD (.text domain)).inserted
  match Datum.field? bs actionKey with
  | some action => if action.truthy then module ++ ':' :: action.inserted else module
  | none => module

end LogRecord

end DottedNames
