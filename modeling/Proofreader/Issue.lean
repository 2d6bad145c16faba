import Proofreader.Location
import Proofreader.Match

/-!
# Issues and rule descriptors

An issue is a match bound to a location; a rule descriptor is an entry of the
catalogue of rules that spoke.  Both may be drawn up from loosely typed fields,
and then every fault of the draft is listed: the declared fields come first, in
the order of their declaration, and the unknown ones after them.
-/

namespace Proofreader

structure Issue where
  location : Location
  ruleId : Text
  message : Text
  issueType : Text
  category : Text
  offendingText : Text
  suggestions : List Text
  context : Text
  deriving DecidableEq, Repr

namespace Issue

def line (i : Issue) : Nat := i.location.line

def file (i : Issue) : Path := i.location.file

def isSpelling (i : Issue) : Bool := isSpellingRule i.ruleId i.issueType i.category

end Issue

structure RuleDescriptor where
  id : Text
  description : Text
  category : Text
  deriving DecidableEq, Repr

/-! ## Faults of a draft -/

inductive FieldFault where
  | missing
  | notText
  | blank
  | unknown
  deriving DecidableEq, Repr

structure DraftFault where
  field : Text
  fault : FieldFault
  deriving DecidableEq, Repr

namespace DraftFault

def kind (f : DraftFault) : Text :=
  match f.fault with
  | .missing => "missing"
  | .notText => "string_type"
  | .blank => "value_error"
  | .unknown => "extra_forbidden"

def message (f : DraftFault) : Text :=
  match f.fault with
  | .missing => "Field required"
  | .notText => "Input should be a valid string"
  | .blank => "Value error, " ++ f.field ++ " must not be empty".toList
  | .unknown => "Extra inputs are not permitted"

end DraftFault

/-! ## Fields -/

abbrev Fields := List (Text × Value)

namespace Fields

def get? (fields : Fields) (name : Text) : Option Value :=
  (fields.find? (·.1 == name)).map (·.2)

abbrev Rule := Option Value → Option FieldFault

def idRule : Rule
  | none => some .missing
  | some v => if (v.textOr []).trim.isEmpty then some .blank else none

def requiredRule : Rule
  | none => some .missing
  | some _ => none

def requiredTextRule : Rule
  | none => some .missing
  | some (.text _) => none
  | some _ => some .notText

def optionalTextRule : Rule
  | none => none
  | some (.text _) => none
  | some _ => some .notText

def anyRule : Rule := fun _ => none

def faults (declared : List (Text × Rule)) (fields : Fields) : List DraftFault :=
  (declared.filterMap fun (name, rule) => (rule (fields.get? name)).map (DraftFault.mk name)) ++
    (fields.filter fun f => !declared.any (·.1 == f.1)).map fun f => ⟨f.1, .unknown⟩

def textAt (fields : Fields) (name default : Text) : Text :=
  match fields.get? name with
  | some v => v.textOr []
  | none => default

def exactTextAt (fields : Fields) (name : Text) : Text :=
  match fields.get? name with
  | some (.text t) => t
  | _ => []

def suggestionsAt (fields : Fields) (name : Text) : List Text :=
  match fields.get? name with
  | none | some .null => []
  | some (.list items) => items.map Value.asText
  | some v => [v.asText]

end Fields

/-! ## Drawing up from fields -/

def RuleDescriptor.declared : List (Text × Fields.Rule) :=
  [("id", Fields.idRule), ("description", Fields.optionalTextRule),
    ("category", Fields.optionalTextRule)]

def RuleDescriptor.ofFields (fields : Fields) : Except (List DraftFault) RuleDescriptor :=
  match Fields.faults declared fields with
  | [] =>
      .ok ⟨(fields.textAt "id" []).trim, fields.exactTextAt "description",
        fields.exactTextAt "category"⟩
  | faults => .error faults

def Issue.declared : List (Text × Fields.Rule) :=
  [("rule_id", Fields.idRule), ("message", Fields.requiredRule), ("issue_type", Fields.anyRule),
    ("category", Fields.anyRule), ("offending_text", Fields.requiredTextRule),
    ("suggestions", Fields.anyRule), ("highlighted_context", Fields.optionalTextRule)]

/-- The location is drawn up on its own, before the other fields. -/
def Issue.ofFields (location : Option Location) (fields : Fields) :
    Except (List DraftFault) Issue :=
  match location, Fields.faults declared fields with
  | none, faults => .error (⟨"location", .missing⟩ :: faults)
  | some _, fault :: faults => .error (fault :: faults)
  | some location, [] =>
      .ok
        { location
          ruleId := (fields.textAt "rule_id" []).trim
          message := fields.textAt "message" []
          issueType := fields.textAt "issue_type" "unknown"
          category := fields.textAt "category" []
          offendingText := fields.exactTextAt "offending_text"
          suggestions := fields.suggestionsAt "suggestions"
          context := fields.exactTextAt "highlighted_context" }

/-! ## Drawing up from a match -/

structure BlankId where
  id : Text
  deriving DecidableEq, Repr

def RuleDescriptor.ofMatch (m : RuleMatch) : Except BlankId RuleDescriptor :=
  if m.ruleId.trim.isEmpty then .error ⟨m.ruleId⟩
  else .ok ⟨m.ruleId.trim, m.message, m.category⟩

end Proofreader
