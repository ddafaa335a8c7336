import PageAudit.Report.Limits
import PageAudit.Json.Printer
import PageAudit.Json.Reader
import PageAudit.Timestamp.Printer
import PageAudit.Timestamp.Reader

/-!
# Reports as JSON

The written form of a report, and its reader. A record is read from an object, whose further members
do not matter, or from an array with the fields in order. The number of findings before cutting is not
written, so a report read back counts the findings it lists.
-/

namespace PageAudit

/-! ## Writing -/

def Json.strings (xs : List String) : Json :=
  .array (xs.map .str)

namespace Finding

def toJson (f : Finding) : Json :=
  .record [("html", .str f.html), ("target", .strings f.target),
    ("failureSummary", .str f.failureSummary)]

end Finding

namespace RuleResult

def toJson (r : RuleResult) : Json :=
  .record [("id", .str r.id), ("impact", .str r.impact.name), ("description", .str r.description),
    ("help", .str r.help), ("helpUrl", .str r.helpUrl), ("tags", .strings r.tags),
    ("nodes", .array (r.nodes.map Finding.toJson))]

end RuleResult

namespace PassResult

def toJson (p : PassResult) : Json :=
  .record [("id", .str p.id), ("description", .str p.description), ("help", .str p.help)]

end PassResult

namespace Limits

def toJson (l : Limits) : Json :=
  .record [("max_nodes_per_rule", .number (toString l.maxNodesPerRule)),
    ("max_contrast_findings", .number (toString l.maxContrastFindings))]

end Limits

namespace Report

def toJson (r : Report) : Json :=
  .record [("url", .str r.url), ("violations", .array (r.violations.map RuleResult.toJson)),
    ("passes", .array (r.passes.map PassResult.toJson)),
    ("incomplete", .array (r.incomplete.map RuleResult.toJson)),
    ("timestamp", .str r.timestamp.text)]

/-- The report as JSON text. -/
def json (r : Report) : String :=
  .ofList (r.toJson.pretty 0)

end Report

/-! ## Reading -/

namespace Json

/-- The value of a field, if the record has it. -/
abbrev FieldValue := Option Json

/-- The values of the named fields: by name from an object that repeats none of them, by position from
an array that is no longer than the list of names. -/
def fields? (names : List String) : Json → Option (List FieldValue)
  | .object members =>
    if members.any (·.1.isNone) || names.any (fun n => 1 < members.countP (·.1 == some n)) then none
    else some (names.map fun n => (members.find? (·.1 == some n)).map (·.2))
  | .array items =>
    if names.length < items.length then none
    else some (names.zipIdx.map fun (_, i) => items[i]?)
  | _ => none

/-- The items of an array, each read. -/
def list? {α : Type} (read : Json → Option α) : FieldValue → Option (List α)
  | some (.array items) => items.mapM read
  | _ => none

def text? : Json → Option String
  | .string content => content
  | _ => none

/-- A whole number of at most 64 bits. -/
def natural? : Json → Option Nat
  | .number spelling =>
    (Numeral.natural? 10 spelling.toList).filter (· ≤ 0xFFFFFFFFFFFFFFFF)
  | _ => none

end Json

namespace Impact

/-- A name, or an object with the name as its only member and null in it. -/
def ofJson? : Json → Option Impact
  | .string (some name) => ofExactName? name
  | .object [(some name, .null)] => ofExactName? name
  | _ => none

end Impact

namespace Finding

def ofJson? (v : Json) : Option Finding :=
  match v.fields? ["html", "target", "failureSummary"] with
  | some [html, target, summary] => do
    some ⟨← html >>= Json.text?, ← Json.list? Json.text? target, ← summary >>= Json.text?⟩
  | _ => none

end Finding

namespace RuleResult

def ofJson? (v : Json) : Option RuleResult :=
  match v.fields? ["id", "impact", "description", "help", "helpUrl", "tags", "nodes"] with
  | some [id, impact, description, help, helpUrl, tags, nodes] => do
    some
      { id := ← id >>= Json.text?
        impact := ← impact >>= Impact.ofJson?
        description := ← description >>= Json.text?
        help := ← help >>= Json.text?
        helpUrl := ← helpUrl >>= Json.text?
        tags := ← Json.list? Json.text? tags
        nodes := ← Json.list? Finding.ofJson? nodes
        counted := 0 }
  | _ => none

end RuleResult

namespace PassResult

def ofJson? (v : Json) : Option PassResult :=
  match v.fields? ["id", "description", "help"] with
  | some [id, description, help] => do
    some ⟨← id >>= Json.text?, ← description >>= Json.text?, ← help >>= Json.text?⟩
  | _ => none

end PassResult

namespace Limits

/-- A number, or the default where the field is missing. -/
def limit? (default : Nat) : Json.FieldValue → Option Nat
  | some v => v.natural?
  | none => some default

def ofJson? (v : Json) : Option Limits :=
  match v.fields? ["max_nodes_per_rule", "max_contrast_findings"] with
  | some [nodes, findings] => do some ⟨← limit? 5 nodes, ← limit? 10 findings⟩
  | _ => none

end Limits

namespace Report

def ofJson? (v : Json) : Option Report :=
  match v.fields? ["url", "violations", "passes", "incomplete", "timestamp"] with
  | some [url, violations, passes, incomplete, timestamp] => do
    some
      { url := ← url >>= Json.text?
        violations := ← Json.list? RuleResult.ofJson? violations
        passes := ← Json.list? PassResult.ofJson? passes
        incomplete := ← Json.list? RuleResult.ofJson? incomplete
        timestamp := ← (timestamp >>= Json.text?) >>= Timestamp.parse? }
  | _ => none

/-- The report that a JSON text spells. -/
def ofJsonText? (s : String) : Option Report :=
  (Json.parse? s).bind ofJson?

/-- The report written and read back. -/
def reload? (r : Report) : Option Report :=
  ofJsonText? r.json

end Report

end PageAudit
