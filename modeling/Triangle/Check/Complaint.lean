import Triangle.Diagnostic
import Triangle.Ty

/-! What a program can do wrong, and the wording of each. -/
namespace Triangle.Check

/-- The least and the greatest integer of the language. -/
def minInt : Int := -32768
def maxInt : Int := 32767

inductive Complaint where
  | undeclared (name : String)
  | undeclaredType (name : String)
  | notAType (name : String)
  | assignMismatch (value : Ty) (target : String) (want : Ty)
  | conditionNotBoolean (test : String) (got : Ty)
  | notAProcedure (name : String)
  | functionNotProcedure (name : String)
  | notAVariable (text : String)
  | constant (name : String)
  | typeDeclaredTwice (name : String)
  | declaredTwice (name : String)
  | bodyMismatch (name : String) (want got : Ty)
  | duplicateParameter (name : String)
  | arity (name : String) (want got : Nat)
  | notAVarArgument (index : Nat) (callee : String)
  | varArgumentMismatch (index : Nat) (callee : String) (want got : Ty)
  | notARoutineArgument (index : Nat) (callee : String)
  | notARoutine (name : String)
  | notAValueArgument (index : Nat) (callee : String)
  | argumentMismatch (index : Nat) (callee : String) (want got : Ty)
  | emptyArrayType
  | arrayLength (length : Int)
  | duplicateTypeField (name : String)
  | integerLiteral (value : Int)
  | functionAsValue (name : String)
  | cannotIndex (text : String)
  | notAnArray (text : String)
  | indexNotInteger (got : Ty)
  | cannotSelect (text : String)
  | notARecord (text : String)
  | noField (record : Ty) (field : String)
  | notUnary (op : String)
  | operandMismatch (op : String) (want got : Ty)
  | notBinary (op : String)
  | operandsDiffer (op : String) (left right : Ty)
  | operandsMismatch (op : String) (wantLeft wantRight left right : Ty)
  | notAFunction (name : String)
  | procedureNotFunction (name : String)
  | branchesDiffer (yes no : Ty)
  | emptyArrayLiteral
  | elementMismatch (index : Nat) (got want : Ty)
  | duplicateField (name : String)

namespace Complaint

def kind : Complaint → Diagnostic.Kind
  | undeclared _ | undeclaredType _ => .undeclaredUse
  | notAType _ => .notAType
  | assignMismatch _ _ _ | conditionNotBoolean _ _ | bodyMismatch _ _ _
  | varArgumentMismatch _ _ _ _ | argumentMismatch _ _ _ _ | indexNotInteger _
  | operandMismatch _ _ _ | operandsDiffer _ _ _ | operandsMismatch _ _ _ _ _
  | branchesDiffer _ _ | elementMismatch _ _ _ => .typeMismatch
  | notAProcedure _ | functionNotProcedure _ | notARoutine _ | notUnary _ | notBinary _
  | notAFunction _ | procedureNotFunction _ => .notCallable
  | notAVariable _ | cannotIndex _ | cannotSelect _ => .notAVariable
  | constant _ => .assignToConstant
  | typeDeclaredTwice _ | declaredTwice _ => .duplicateDeclaration
  | duplicateParameter _ => .duplicateParameter
  | arity _ _ _ => .arityMismatch
  | notAVarArgument _ _ | notARoutineArgument _ _ | notAValueArgument _ _ => .invalidArgumentKind
  | emptyArrayType | emptyArrayLiteral => .emptyArray
  | arrayLength _ | integerLiteral _ => .integerTooLarge
  | duplicateTypeField _ => .duplicateRecordTypeField
  | functionAsValue _ => .functionAsValue
  | notAnArray _ => .notAnArray
  | notARecord _ => .notARecord
  | noField _ _ => .unknownField
  | duplicateField _ => .duplicateRecordField

def message : Complaint → String
  | undeclared name => s!"undeclared identifier {name}"
  | undeclaredType name => s!"undeclared type {name}"
  | notAType name => s!"{name} is not a type"
  | assignMismatch value target want =>
    s!"cannot assign {value.text} to {target} of type {want.text}"
  | conditionNotBoolean test got => s!"condition {test} must be Boolean, got {got.text}"
  | notAProcedure name => s!"{name} is not a procedure"
  | functionNotProcedure name => s!"{name} is a function, not a procedure"
  | notAVariable text => s!"{text} is not a variable"
  | constant name => s!"{name} is a constant"
  | typeDeclaredTwice name => s!"type {name} is declared twice"
  | declaredTwice name => s!"{name} is declared twice"
  | bodyMismatch name want got =>
    s!"function {name} returns {want.text}, body has type {got.text}"
  | duplicateParameter name => s!"duplicate parameter {name}"
  | arity name want got => s!"{name} expects {want} arguments, got {got}"
  | notAVarArgument index callee => s!"argument {index} of {callee} must be a var argument"
  | varArgumentMismatch index callee want got =>
    s!"argument {index} of {callee}: want var {want.text}, got {got.text}"
  | notARoutineArgument index callee =>
    s!"argument {index} of {callee} must name a function or procedure"
  | notARoutine name => s!"{name} is not a function or procedure"
  | notAValueArgument index callee => s!"argument {index} of {callee} must be a value"
  | argumentMismatch index callee want got =>
    s!"argument {index} of {callee}: want {want.text}, got {got.text}"
  | emptyArrayType => "array type must have at least one element"
  | arrayLength length => s!"array length {length} out of range"
  | duplicateTypeField name => s!"duplicate field {name} in record type"
  | integerLiteral value => s!"integer literal {value} out of range"
  | functionAsValue name => s!"{name} is a function and cannot be used as a value"
  | cannotIndex text => s!"cannot index {text}: not a variable or constant"
  | notAnArray text => s!"{text} is not an array"
  | indexNotInteger got => s!"array index must be Integer, got {got.text}"
  | cannotSelect text => s!"cannot select from {text}: not a variable or constant"
  | notARecord text => s!"{text} is not a record"
  | noField record field => s!"{record.text} has no field {field}"
  | notUnary op => s!"{op} is not a unary operator"
  | operandMismatch op want got => s!"operand of {op} must be {want.text}, got {got.text}"
  | notBinary op => s!"{op} is not a binary operator"
  | operandsDiffer op left right =>
    s!"operands of {op} have different types {left.text} and {right.text}"
  | operandsMismatch op wantLeft wantRight left right =>
    s!"operands of {op} must be {wantLeft.text} and {wantRight.text}, " ++
      s!"got {left.text} and {right.text}"
  | notAFunction name => s!"{name} is not a function"
  | procedureNotFunction name => s!"{name} is a procedure, not a function"
  | branchesDiffer yes no => s!"if branches have different types {yes.text} and {no.text}"
  | emptyArrayLiteral => "array literal must have at least one element"
  | elementMismatch index got want =>
    s!"array element {index} has type {got.text}, want {want.text}"
  | duplicateField name => s!"duplicate field {name} in record literal"

def located (c : Complaint) (pos : Pos) : Diagnostic := ⟨c.kind, c.message, pos⟩

end Complaint
end Triangle.Check
