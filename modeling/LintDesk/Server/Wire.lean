import LintDesk.Edit.Diagnostic

/-!
Diagnostics and edits in the form language clients exchange them.
-/

namespace LintDesk.Server

def source : String := "mdguard"

def warningSeverity : Nat := 2

def dataOf (d : Diagnostic) : DiagnosticData :=
  { rule := d.rule, ruleAlias := d.ruleAlias, fix := d.fix }

def encodeDiagnostic (d : Diagnostic) : Json :=
  .ofFields [("range", some d.range.toJson), ("severity", some (.nat warningSeverity)),
    ("code", some (.str d.rule)),
    ("codeDescription", d.information.map fun u => .mkObj [("href", .str u.text)]),
    ("source", some (.str source)), ("message", some (.str d.message)),
    ("data", some (dataOf d).toJson)]

/-- A diagnostic that a client sent back: what is looked at, and the whole of it. -/
structure ClientDiagnostic where
  range : Range
  source : Option String
  href : Option Url
  data : Option Json
  /-- The diagnostic as it is sent on. -/
  json : Json
  deriving Repr

namespace ClientDiagnostic

/-- A number or a text. -/
def code? : Json → Option Json
  | .str s => some (.str s)
  | v => v.int32?.map .int

def url? (v : Json) : Option Url :=
  v.string?.bind Url.parse?

def codeDescription? (v : Json) : Option Url := do
  let r ← v.record? ["href"]
  Json.required? r "href" url?

def location? (v : Json) : Option Json := do
  let r ← v.record? ["uri", "range"]
  let uri ← Json.required? r "uri" url?
  let range ← Json.required? r "range" Range.ofJson?
  return .mkObj [("uri", .str uri.text), ("range", range.toJson)]

def related? (v : Json) : Option Json := do
  let r ← v.record? ["location", "message"]
  let location ← Json.required? r "location" location?
  let message ← Json.required? r "message" Json.string?
  return .mkObj [("location", location), ("message", .str message)]

def relatedList? (v : Json) : Option Json :=
  v.items?.bind fun items => (items.mapM related?).map .arr

def tags? (v : Json) : Option Json :=
  v.items?.bind fun items => (items.mapM Json.int32?).map fun ns => .arr (ns.map .int)

def ofJson? (v : Json) : Option ClientDiagnostic := do
  let r ← v.record? ["range", "severity", "code", "codeDescription", "source", "message",
    "relatedInformation", "tags", "data"]
  let range ← Json.required? r "range" Range.ofJson?
  let severity ← Json.optional? r "severity" Json.int32?
  let code ← Json.optional? r "code" code?
  let href ← Json.optional? r "codeDescription" codeDescription?
  let source ← Json.optional? r "source" Json.string?
  let message ← Json.required? r "message" Json.string?
  let related ← Json.optional? r "relatedInformation" relatedList?
  let tags ← Json.optional? r "tags" tags?
  let data ← Json.optional? r "data" some
  let json := Json.ofFields [("range", some range.toJson), ("severity", severity.map .int),
    ("code", code), ("codeDescription", href.map fun u => .mkObj [("href", .str u.text)]),
    ("source", source.map .str), ("message", some (.str message)), ("relatedInformation", related),
    ("tags", tags), ("data", data)]
  return { range, source, href, data, json }

/-- The data the server attached, if it is still readable. -/
def data? (d : ClientDiagnostic) : Option DiagnosticData :=
  d.data.bind DiagnosticData.ofJson?

end ClientDiagnostic

end LintDesk.Server
