import LintDesk.Json.Basic

/-!
Records on the wire. A record is an object with named fields, of which unknown ones are ignored,
or an array with the fields by position. An optional field may be absent or `null`.
-/

namespace LintDesk.Json

/-- The fields of a record whose field names, in order, are `keys`. -/
def record? (keys : List String) : Json → Option (Dict Json)
  | .obj fields => some fields
  | .arr items => if items.length ≤ keys.length then some (Dict.ofPairs (keys.zip items)) else none
  | _ => none

def required? (r : Dict Json) (key : String) (decode : Json → Option α) : Option α :=
  (Dict.find? key r).bind decode

/-- A field that may be absent or `null`. -/
def optional? (r : Dict Json) (key : String) (decode : Json → Option α) : Option (Option α) :=
  match Dict.find? key r with
  | none => some none
  | some .null => some none
  | some v => (decode v).map some

/-- A field that may be absent but not `null`. -/
def withDefault? (r : Dict Json) (key : String) (default : α) (decode : Json → Option α) :
    Option α :=
  match Dict.find? key r with
  | none => some default
  | some v => decode v

/-- The fields that are present, written in the given order. -/
def ofFields (fields : List (String × Option Json)) : Json :=
  .obj (fields.filterMap fun (k, v) => v.map fun v => (k, v))

end LintDesk.Json
