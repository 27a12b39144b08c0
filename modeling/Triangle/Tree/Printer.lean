import Triangle.Tree.Basic

/-! Trees as text, on one line. -/
namespace Triangle

mutual
def Sig.text : Sig → String
  | .named _ name => name
  | .array _ length elem => s!"array {length} of {elem.text}"
  | .record _ fields => "record " ++ ", ".intercalate (Sig.fieldTexts fields) ++ " end"

def Sig.fieldTexts : List (String × Sig) → List String
  | [] => []
  | (name, sig) :: rest => s!"{name} : {sig.text}" :: Sig.fieldTexts rest
end

mutual
def Param.text : Param → String
  | .value _ name sig => s!"{name} : {sig.text}"
  | .var _ name sig => s!"var {name} : {sig.text}"
  | .func _ name params none => s!"proc {name}(" ++ ", ".intercalate (Param.texts params) ++ ")"
  | .func _ name params (some result) =>
    s!"func {name}(" ++ ", ".intercalate (Param.texts params) ++ s!") : {result.text}"

def Param.texts : List Param → List String
  | [] => []
  | p :: ps => p.text :: Param.texts ps
end

mutual
def Expr.text : Expr → String
  | .int _ value => toString value
  | .char _ value => "'" ++ String.singleton value ++ "'"
  | .bool _ value => if value then "true" else "false"
  | .ident _ _ name => name
  | .subscript _ array index => s!"{array.text}[{index.text}]"
  | .select _ record field => s!"{record.text}.{field}"
  | .unary _ _ op operand => s!"({op}{operand.text})"
  | .binary _ _ op left right => s!"({left.text} {op} {right.text})"
  | .call _ _ name args => s!"{name}(" ++ ", ".intercalate (Arg.texts args) ++ ")"
  | .cond _ test yes no => s!"if {test.text} then {yes.text} else {no.text}"
  | .letIn _ decls body => "let " ++ "; ".intercalate (Decl.texts decls) ++ s!" in {body.text}"
  | .array _ elems => "[" ++ ", ".intercalate (Expr.texts elems) ++ "]"
  | .record _ fields => "\x7b" ++ ", ".intercalate (Expr.fieldTexts fields) ++ "\x7d"

def Expr.texts : List Expr → List String
  | [] => []
  | e :: es => e.text :: Expr.texts es

def Expr.fieldTexts : List (String × Expr) → List String
  | [] => []
  | (name, value) :: rest => s!"{name} ~ {value.text}" :: Expr.fieldTexts rest

def Stmt.text : Stmt → String
  | .assign _ target value => s!"{target.text} := {value.text}"
  | .call _ _ name args => s!"{name}(" ++ ", ".intercalate (Arg.texts args) ++ ")"
  | .seq _ stmts => "begin " ++ "; ".intercalate (Stmt.texts stmts) ++ " end"
  | .letIn _ decls body => "let " ++ "; ".intercalate (Decl.texts decls) ++ s!" in {body.text}"
  | .ifThen _ test yes => s!"if {test.text} then {yes.text}"
  | .ifElse _ test yes no => s!"if {test.text} then {yes.text} else {no.text}"
  | .whileDo _ test body => s!"while {test.text} do {body.text}"
  | .repeatUntil _ body test => s!"repeat {body.text} until {test.text}"
  | .repeatWhile _ body test => s!"repeat {body.text} while {test.text}"
  | .loopWhile _ pre test post => s!"loop {pre.text} while {test.text} do {post.text}"
  | .forever _ body => s!"forever {body.text}"
  | .skip _ => "skip"

def Stmt.texts : List Stmt → List String
  | [] => []
  | s :: ss => s.text :: Stmt.texts ss

def Decl.text : Decl → String
  | .const _ name value => s!"const {name} ~ {value.text}"
  | .var _ name sig => s!"var {name} : {sig.text}"
  | .func _ name params result body =>
    s!"func {name}(" ++ ", ".intercalate (Param.texts params) ++
      s!") : {result.text} ~ {body.text}"
  | .proc _ name params body =>
    s!"proc {name}(" ++ ", ".intercalate (Param.texts params) ++ s!") ~ {body.text}"
  | .type _ name sig => s!"type {name} ~ {sig.text}"

def Decl.texts : List Decl → List String
  | [] => []
  | d :: ds => d.text :: Decl.texts ds

def Arg.text : Arg → String
  | .value _ value => value.text
  | .var _ target => "var " ++ target.text
  | .func _ _ name => name

def Arg.texts : List Arg → List String
  | [] => []
  | a :: as => a.text :: Arg.texts as
end

def Program.text (p : Program) : String := p.body.text

end Triangle
