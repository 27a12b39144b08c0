import Triangle.Optimize.Tally
import Triangle.Scope
import Triangle.Tree.Literal
import Triangle.Tree.Printer
import Triangle.Tree.Slots
import Triangle.Word

/-! Constant folding. An operator over literals is replaced by its value, and a name that stands
for a literal by that literal. Where the machine would overflow the tree is left as it is and the
overflow reported; a division by zero is left for the machine. -/
namespace Triangle.Optimize.Fold

/-- What is known of names: a literal, or that a name stands for something else. -/
abbrev Consts := Scope.Table (Option Literal)

def Consts.standard : Consts :=
  (((Scope.Table.new 0).addConst "true" (some (.bool true))).addConst "false"
    (some (.bool false))).addConst "maxint" (some (.int Word.greatest))

def Consts.literal? (consts : Consts) (name : String) : Option Literal := (consts.lookup? name).join

/-- Binds a name that is no literal, hiding any literal of that name. -/
def Consts.hide (consts : Consts) (name : String) : Consts := consts.add name none

def Consts.bind (consts : Consts) (name : String) (value : Expr) : Consts :=
  match value.literal? with
  | some l => consts.addConst name (some l)
  | none => consts.hide name

/-- The scope of a routine's body. -/
def Consts.inside (consts : Consts) (params : List Param) : Consts :=
  params.foldl (fun t p => t.hide p.name) (consts.enterScope 0)

/-! ## Operators -/

/-- The value of an operator over literals. -/
inductive Value where
  | unknown
  | overflow
  | literal (l : Literal)
  deriving DecidableEq, Repr

def ofWord? : Option Word → Value
  | some w => .literal (.int w.toInt)
  | none => .overflow

/-- Arithmetic is that of machine words. -/
def arithmetic? : String → Option (Word → Word → Option Word)
  | "+" => some Word.add?
  | "-" => some Word.sub?
  | "*" => some Word.mul?
  | "/" => some fun a b => (Word.divide? a b).map (·.1)
  | "//" => some fun a b => (Word.divide? a b).map (·.2)
  | _ => none

def ofInts (op : String) (a b : Int) : Value :=
  match arithmetic? op with
  | some f =>
    if b = 0 ∧ (op = "/" ∨ op = "//") then .unknown else ofWord? (f (.truncate a) (.truncate b))
  | none =>
    match op with
    | "<" => .literal (.bool (a < b))
    | "<=" => .literal (.bool (a ≤ b))
    | ">" => .literal (.bool (a > b))
    | ">=" => .literal (.bool (a ≥ b))
    | "=" => .literal (.bool (a = b))
    | "\\=" => .literal (.bool (a ≠ b))
    | _ => .unknown

def ofBools (op : String) (a b : Bool) : Value :=
  match op with
  | "/\\" => .literal (.bool (a && b))
  | "\\/" => .literal (.bool (a || b))
  | "=" => .literal (.bool (a == b))
  | "\\=" => .literal (.bool (a != b))
  | _ => .unknown

def ofChars (op : String) (a b : Char) : Value :=
  match op with
  | "=" => .literal (.bool (a == b))
  | "\\=" => .literal (.bool (a != b))
  | _ => .unknown

def ofUnary (op : String) (operand : Literal) : Value :=
  match op, operand with
  | "-", .int a => ofWord? (Word.sub? 0 (.truncate a))
  | "\\", .bool b => .literal (.bool !b)
  | _, _ => .unknown

def ofBinary (op : String) (left right : Literal) : Value :=
  match left, right with
  | .int a, .int b => ofInts op a b
  | .bool a, .bool b => ofBools op a b
  | .char a, .char b => ofChars op a b
  | _, _ => .unknown

/-- The conversions between characters and integers. -/
def ofCall (name : String) (arg : Literal) : Value :=
  match name, arg with
  | "chr", .int n =>
    if 0 ≤ n ∧ n ≤ Word.greatest then .literal (.char (Char.ofNat n.toNat)) else .unknown
  | "ord", .char c => if (c.toNat : Int) ≤ Word.greatest then .literal (.int c.toNat) else .unknown
  | _, _ => .unknown

/-- Puts a value in the place of a node. -/
def Value.replace (e : Expr) : Value → Tally Expr
  | unknown => pure e
  | overflow => .reported e ⟨.integerTooLarge, s!"{e.text} overflows", e.pos⟩
  | literal l => .changed (l.toExpr e.info)

/-- Only a standard operator has a value that is known here. -/
def valueIf (decl : Option Binding) (value : Option Value) : Value :=
  if decl.any Binding.isStandard then value.getD .unknown else .unknown

def foldUnary (i : Info) (decl : Option Binding) (op : String) (operand : Expr) : Tally Expr :=
  (valueIf decl (operand.literal?.map (ofUnary op))).replace (.unary i decl op operand)

def foldBinary (i : Info) (decl : Option Binding) (op : String) (left right : Expr) : Tally Expr :=
  let value := do return ofBinary op (← left.literal?) (← right.literal?)
  (valueIf decl value).replace (.binary i decl op left right)

def foldCall (i : Info) (decl : Option Binding) (name : String) (args : List Arg) : Tally Expr :=
  let value := match args with
    | [.value _ e] => e.literal?.map (ofCall name)
    | _ => none
  (valueIf decl value).replace (.call i decl name args)

/-! ## The tree -/

mutual
def expr (consts : Consts) : Expr → Tally Expr
  | .int i value => pure (.int i.alone value)
  | .char i value => pure (.char i.alone value)
  | .bool i value => pure (.bool i.alone value)
  | .ident i decl name =>
    match consts.literal? name with
    | some l => .changed (l.toExpr i.alone)
    | none => pure (.ident i decl name)
  | .subscript i array index =>
    return .subscript i.alone (← expr consts array) (← expr consts index)
  | .select i record field => return .select i.alone (← expr consts record) field
  | .unary i decl op operand => do foldUnary i.alone decl op (← expr consts operand)
  | .binary i decl op left right => do
    foldBinary i.alone decl op (← expr consts left) (← expr consts right)
  | .call i decl name as => do foldCall i.alone decl name (← args consts as)
  | .cond i test yes no =>
    return .cond i.alone (← expr consts test) (← expr consts yes) (← expr consts no)
  | .letIn i ds body => do
    let (inner, ds) ← decls consts.enterBlock ds
    let body ← expr inner body
    if body.isLiteral then .changed body else pure (.letIn i.alone ds body)
  | .array i elems => return .array i.alone (← exprs consts elems)
  | .record i fields => return .record i.alone (← fieldExprs consts fields)

def exprs (consts : Consts) : List Expr → Tally (List Expr)
  | [] => pure []
  | e :: es => return (← expr consts e) :: (← exprs consts es)

def fieldExprs (consts : Consts) : List (String × Expr) → Tally (List (String × Expr))
  | [] => pure []
  | (name, e) :: rest => return (name, ← expr consts e) :: (← fieldExprs consts rest)

def args (consts : Consts) : List Arg → Tally (List Arg)
  | [] => pure []
  | a :: as => return (← arg consts a) :: (← args consts as)

def arg (consts : Consts) : Arg → Tally Arg
  | .value i value => return .value i.alone (← expr consts value)
  | .var i target => return .var i.alone (← expr consts target)
  | .func i decl name => pure (.func i.alone decl name)

/-- Later declarations see the constants of earlier ones. -/
def decls (consts : Consts) : List Decl → Tally (Consts × List Decl)
  | [] => pure (consts, [])
  | d :: ds => do
    let (next, d) ← decl consts d
    let (final, ds) ← decls next ds
    return (final, d :: ds)

def decl (consts : Consts) : Decl → Tally (Consts × Decl)
  | .const i name value => do
    let value ← expr consts value
    return (consts.bind name value, .const i.alone name value)
  | .var i name sig => pure (consts.hide name, .var i name sig)
  | .func i name params result body => do
    let outer := consts.hide name
    let body ← expr (outer.inside params) body
    return (outer, .func i.alone name params result body)
  | .proc i name params body => do
    let outer := consts.hide name
    let body ← stmt (outer.inside params) body
    return (outer, .proc i.alone name params body)
  | .type i name sig => pure (consts, .type i name sig)

def stmt (consts : Consts) : Stmt → Tally Stmt
  | .assign i target value => return .assign i.alone (← expr consts target) (← expr consts value)
  | .call i decl name as => return .call i.alone decl name (← args consts as)
  | .seq i ss => return .seq i.alone (← stmts consts ss)
  | .letIn i ds body => do
    let (inner, ds) ← decls consts.enterBlock ds
    return .letIn i.alone ds (← stmt inner body)
  | .ifThen i test yes => return .ifThen i.alone (← expr consts test) (← stmt consts yes)
  | .ifElse i test yes no =>
    return .ifElse i.alone (← expr consts test) (← stmt consts yes) (← stmt consts no)
  | .whileDo i test body => return .whileDo i.alone (← expr consts test) (← stmt consts body)
  | .repeatUntil i body test =>
    return .repeatUntil i.alone (← stmt consts body) (← expr consts test)
  | .repeatWhile i body test =>
    return .repeatWhile i.alone (← stmt consts body) (← expr consts test)
  | .loopWhile i pre test post =>
    return .loopWhile i.alone (← stmt consts pre) (← expr consts test) (← stmt consts post)
  | .forever i body => return .forever i.alone (← stmt consts body)
  | .skip i => pure (.skip i.alone)

def stmts (consts : Consts) : List Stmt → Tally (List Stmt)
  | [] => pure []
  | s :: ss => return (← stmt consts s) :: (← stmts consts ss)
end

end Triangle.Optimize.Fold

namespace Triangle

/-- When folding stops: after a pass with no more than `threshold` folds, or after `cap` folds. -/
structure FoldConfig where
  threshold : Int := 0
  cap : Int := 10000
  deriving Repr

/-- A cap that is not positive stands for the default. -/
def FoldConfig.limit (cfg : FoldConfig) : Int := if cfg.cap ≤ 0 then 10000 else cfg.cap

namespace Optimize.Fold

def pass (p : Program) : Tally Program := return ⟨← stmt .standard p.body⟩

/-- Repeats passes, at most `fuel` of them; `total` folds were done before. -/
def repeatPass (cfg : FoldConfig) (total : Int) : Nat → Program → Option (Tally Program)
  | 0, _ => none
  | fuel + 1, p =>
    let once := pass p
    let done := total + once.count
    if once.count ≤ cfg.threshold ∨ cfg.limit ≤ done then some once
    else (repeatPass cfg done fuel once.value).map fun rest => do let _ ← once; rest

end Optimize.Fold

/-- The folded program, the number of folds, and the overflows found, each once. Each pass but the
last folds more than the threshold, so `limit` passes are enough unless the threshold is negative;
there is no result if folding would never stop. -/
def Program.fold? (p : Program) (cfg : FoldConfig) : Option (Optimize.Tally Program) :=
  (Optimize.Fold.repeatPass cfg 0 cfg.limit.toNat p).map fun folded =>
    { folded with reports := folded.reports.eraseDups }

end Triangle
