import Triangle.Pos

/-! Positioned messages about a program, collected while it is analysed. -/
namespace Triangle
namespace Diagnostic

inductive Kind where
  | undeclaredUse | typeMismatch | arityMismatch | assignToConstant | duplicateRecordField
  | duplicateRecordTypeField | duplicateParameter | duplicateDeclaration | functionAsValue
  | integerTooLarge | invalidArgumentKind | notCallable | notAnArray | notARecord
  | unknownField | notAVariable | emptyArray | notAType | internal
  /-- A number that is no kind's. -/
  | unnamed (code : { n : Nat // 18 < n })
  deriving DecidableEq, Repr

namespace Kind

/-- The kinds by number, from 0. -/
def named : List Kind :=
  [undeclaredUse, typeMismatch, arityMismatch, assignToConstant, duplicateRecordField,
    duplicateRecordTypeField, duplicateParameter, duplicateDeclaration, functionAsValue,
    integerTooLarge, invalidArgumentKind, notCallable, notAnArray, notARecord, unknownField,
    notAVariable, emptyArray, notAType, internal]

def ofNat (n : Nat) : Kind := if h : 18 < n then unnamed ⟨n, h⟩ else named.getD n internal

def text : Kind → String
  | undeclaredUse => "undeclared use"
  | typeMismatch => "type mismatch"
  | arityMismatch => "arity mismatch"
  | assignToConstant => "assignment to constant"
  | duplicateRecordField => "duplicate record field"
  | duplicateRecordTypeField => "duplicate record type field"
  | duplicateParameter => "duplicate parameter"
  | duplicateDeclaration => "duplicate declaration"
  | functionAsValue => "function used as value"
  | integerTooLarge => "integer too large"
  | invalidArgumentKind => "invalid argument kind"
  | notCallable => "not callable"
  | notAnArray => "not an array"
  | notARecord => "not a record"
  | unknownField => "unknown field"
  | notAVariable => "not a variable"
  | emptyArray => "empty array"
  | notAType => "not a type"
  | internal => "internal error"
  | unnamed code => s!"Kind({code.val})"

end Kind
end Diagnostic

structure Diagnostic where
  kind : Diagnostic.Kind
  message : String
  pos : Pos := .none
  deriving DecidableEq, Repr

namespace Diagnostic

def text (d : Diagnostic) : String := s!"{d.pos.text}: {d.message}"

/-- A list of diagnostics as one message. -/
def listText : List Diagnostic → String
  | [] => "no errors"
  | [d] => d.text
  | ds => s!"{ds.length} errors:" ++ String.join (ds.map fun d => "\n  " ++ d.text)

end Diagnostic
end Triangle
