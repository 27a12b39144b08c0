import Triangle.Generate.Emit
import Triangle.Tree.Literal
import Triangle.Tree.Printer

/-! From checked trees to symbolic code. Each function returns the code of its node; run from a
stack that reaches `offset`, that code leaves the stack where the offset is afterwards. -/
namespace Triangle.Generate

/-- The link data at the base of a routine's frame: static link, dynamic link, return address. -/
def frameHeader : Int := 3

/-- A frame or block has an offset of its own, and leaves the one around it as it was. -/
def within (inner : Int) (body : Gen Code) : Gen Code := do
  let outer ← offset
  setOffset inner
  let code ← body
  setOffset outer
  return code

/-! ## Routines -/

def invoke (env : Env) (name : String) : Gen Code := do
  match ← callable env name with
  | (.routine label, r) => emit (.call r label)
  | (.closure offset, r) =>
    let closure ← emit (.load 2 r offset)
    return closure ++ (← emit .callI)
  | (.primitive p, _) => emit (.callPrim p)
  | (.conversion, _) => return []

/-- Makes a routine out of a conversion, of the type under which it is passed, and returns its
entry label. -/
def thunk (i : Info) (name : String) : Gen (Code × String) := do
  match ← typeOf i with
  | .func params result =>
    let size := params.foldl (fun n t => wrap64 (n + t.size)) 0
    let outer ← offset
    let entry ← routineLabel name
    let skip ← newLabel "skip"
    let past ← emit (.jump skip)
    let start ← emit (.label entry)
    let value ← emit (.load size .LB (wrap64 (-size)))
    let back ← emit (.ret result.size size)
    let finish ← emit (.label skip)
    setOffset outer
    return (past ++ start ++ value ++ back ++ finish, entry)
  | ty => fail (.malformed (.notARoutineArgument name ty))

/-- Pushes the static link and the code address of a routine that is passed. -/
def closure (env : Env) (i : Info) (name : String) : Gen Code := do
  match ← callable env name with
  | (.routine label, r) =>
    let link ← emit (.loadA r 0)
    return link ++ (← emit (.loadLabel label))
  | (.closure offset, r) => emit (.load 2 r offset)
  | (.primitive p, _) =>
    let link ← emit (.loadA .SB 0)
    return link ++ (← emit (.loadA .PB p.displacement))
  | (.conversion, _) =>
    let link ← emit (.loadA .SB 0)
    let (body, entry) ← thunk i name
    return link ++ body ++ (← emit (.loadLabel entry))

/-- The words of the arguments of a routine. -/
def paramsSize (size : Int) : List Param → Gen Int
  | [] => return size
  | p :: ps => do paramsSize (wrap64 (size + (← typeOf p.info).size)) ps

/-- Binds the parameters from `start` on, where the caller pushes the arguments in order. -/
def bindParams (env : Env) (start : Int) : List Param → Gen Env
  | [] => return env
  | p :: ps => do
    let bound := match p with
      | .value _ name _ => env.addConst name (.stored start)
      | .var _ name _ => env.addVar name (.indirect start)
      | .func _ name _ _ => env.addCallable name (.closure start)
    bindParams bound (wrap64 (start + (← typeOf p.info).size)) ps

/-- The code of a routine stands where it is declared and is jumped over. Its name is bound before
its body, so that it can call itself. -/
def routine (env : Env) (name : String) (params : List Param) (result : Int)
    (body : Env → Gen Code) : Gen (Env × Code) := do
  let entry ← routineLabel name
  let skip ← newLabel "skip"
  let past ← emit (.jump skip)
  let bound := env.addCallable name (.routine entry)
  let start ← emit (.label entry)
  let inside ← within frameHeader do
    let size ← paramsSize 0 params
    let inner ← bindParams bound.enterFrame (wrap64 (-size)) params
    let code ← body inner
    return code ++ (← emit (.ret result size))
  let finish ← emit (.label skip)
  return (bound, past ++ start ++ inside ++ finish)

/-! ## Variables -/

def locateName (env : Env) (name : String) : Gen (Code × Location) := do
  match ← entity env name with
  | (.known _, _) => fail (.malformed (.noStorage name))
  | (.stored offset, depth) => return ([], .inFrame (← register env depth) offset)
  | (.indirect offset, depth) =>
    let r ← register env depth
    return (← emit (.load 1 r offset), .onStack 0)

/-- The same place, with its base address on the stack. -/
def toStack : Location → Gen (Code × Location)
  | .inFrame r disp => do
    let base ← emit (.loadA r disp)
    return (base, .onStack 0)
  | .onStack disp => return ([], .onStack disp)

/-- Turns an index into a distance in words. -/
def scaleIndex (elem : Int) : Gen Code :=
  if elem = 1 then return []
  else do
    let first ← emit (.loadL elem)
    return first ++ (← emitBinary .mult)

/-- An element of a located array. A literal index only shifts the location. -/
def locateElement (i : Info) (index : Expr) (array : Gen (Code × Location))
    (indexCode : Gen Code) : Gen (Code × Location) := do
  let (base, loc) ← array
  let elem ← sizeOf i
  match index with
  | .int _ value => return (base, loc.shift (wrap64 (value * elem)))
  | _ =>
    let (start, loc) ← toStack loc
    let count ← indexCode
    let scale ← scaleIndex elem
    let sum ← emitBinary .add
    return (base ++ start ++ count ++ scale ++ sum, loc)

/-- A field of a located record. -/
def locateField (record : Expr) (field : String) (located : Gen (Code × Location)) :
    Gen (Code × Location) := do
  let (base, loc) ← located
  match (← typeOf record.info).deref with
  | .record fields =>
    match Ty.field? field 0 fields with
    | some (_, disp) => return (base, loc.shift disp)
    | none => fail (.malformed (.noField (.record fields) field))
  | _ => fail (.malformed (.notARecord record.text))

/-- Runs the initializers of a record literal in the order of its type's fields. -/
def fieldValues (values : List (String × Gen Code)) : List (String × Ty) → Gen Code
  | [] => return []
  | (name, _) :: rest => do
    match values.reverse.lookup name with
    | none => fail (.malformed (.missingField name))
    | some value =>
      let first ← value
      return first ++ (← fieldValues values rest)

/-- The equality primitives also take the size of their operands. -/
def comparedSize (env : Env) (op : String) (operand : Info) : Gen Code := do
  match ← callable env op with
  | (.primitive .eq, _) | (.primitive .ne, _) => emit (.loadL (← sizeOf operand))
  | _ => return []

/-! ## The tree -/

mutual
/-- Pushes the value of an expression. -/
def expr (env : Env) : Expr → Gen Code
  | .int i value => do
    moveTo i.pos
    emit (.loadL value)
  | .char i value => do
    moveTo i.pos
    emit (.loadL value.toNat)
  | .bool i value => do
    moveTo i.pos
    emit (.loadL (if value then 1 else 0))
  | .ident i _ name => do
    moveTo i.pos
    match ← entity env name with
    | (.known value, _) => emit (.loadL value)
    | _ =>
      let (base, loc) ← locateName env name
      return base ++ (← load loc (← sizeOf i))
  | .subscript i array index => do
    moveTo i.pos
    let (base, loc) ← locateElement i index (locate env array) (expr env index)
    return base ++ (← load loc (← sizeOf i))
  | .select i record field => do
    moveTo i.pos
    let (base, loc) ← locateField record field (locate env record)
    return base ++ (← load loc (← sizeOf i))
  | .unary i decl op operand => do
    moveTo i.pos
    let start ← offset
    let value ← expr env operand
    let name := if decl.any Binding.isStandard then Check.unaryKey op else op
    let call ← invoke env name
    setOffset (start + (← sizeOf i))
    return value ++ call
  | .binary i _ op left right => do
    moveTo i.pos
    let start ← offset
    let first ← expr env left
    let second ← expr env right
    let size ← comparedSize env op left.info
    let call ← invoke env op
    setOffset (start + (← sizeOf i))
    return first ++ second ++ size ++ call
  | .call i _ name as => do
    moveTo i.pos
    let start ← offset
    let pushed ← args env as
    let call ← invoke env name
    setOffset (start + (← sizeOf i))
    return pushed ++ call
  | .cond i test yes no => do
    moveTo i.pos
    let start ← offset
    let other ← newLabel "else"
    let done ← newLabel "end"
    let decision ← expr env test
    let branch ← emit (.jumpIf 0 other)
    let first ← expr env yes
    let past ← emit (.jump done)
    let middle ← emit (.label other)
    setOffset start
    let second ← expr env no
    let finish ← emit (.label done)
    setOffset (start + (← sizeOf i))
    return decision ++ branch ++ first ++ past ++ middle ++ second ++ finish
  | .letIn i ds body => do
    moveTo i.pos
    let start ← offset
    let code ← within start do
      let (inner, storage) ← decls env.enterBlock ds
      let allocated := wrap64 ((← offset) - start)
      let value ← expr inner body
      return storage ++ value ++ (← emit (.pop (← sizeOf i) allocated))
    setOffset (start + (← sizeOf i))
    return code
  | .array i elems => do
    moveTo i.pos
    exprs env elems
  | .record i fields => do
    moveTo i.pos
    let ty ← typeOf i
    match ty.deref with
    | .record types => fieldValues (initializers env fields) types
    | _ => fail (.malformed (.notARecordLiteral ty))

def exprs (env : Env) : List Expr → Gen Code
  | [] => return []
  | e :: es => do
    let first ← expr env e
    return first ++ (← exprs env es)

/-- How to push the value of each field, in the order of the literal. -/
def initializers (env : Env) : List (String × Expr) → List (String × Gen Code)
  | [] => []
  | (name, e) :: rest => (name, expr env e) :: initializers env rest

/-- Finds the storage of a variable, pushing a base address where it is not known in advance. -/
def locate (env : Env) : Expr → Gen (Code × Location)
  | .ident i _ name => do
    moveTo i.pos
    locateName env name
  | .subscript i array index => do
    moveTo i.pos
    locateElement i index (locate env array) (expr env index)
  | .select i record field => do
    moveTo i.pos
    locateField record field (locate env record)
  | e => do
    moveTo e.pos
    fail (.malformed (.notAVariable e.text))

def args (env : Env) : List Arg → Gen Code
  | [] => return []
  | a :: as => do
    let first ← arg env a
    return first ++ (← args env as)

def arg (env : Env) : Arg → Gen Code
  | .value i value => do
    moveTo i.pos
    expr env value
  | .var i target => do
    moveTo i.pos
    let (base, loc) ← locate env target
    return base ++ (← address loc)
  | .func i _ name => do
    moveTo i.pos
    closure env i name

def decls (env : Env) : List Decl → Gen (Env × Code)
  | [] => return (env, [])
  | d :: ds => do
    let (next, first) ← decl env d
    let (final, rest) ← decls next ds
    return (final, first ++ rest)

def decl (env : Env) : Decl → Gen (Env × Code)
  | .const i name value => do
    moveTo i.pos
    match value.literal? with
    | some l => return (env.addConst name (.known l.word), [])
    | none =>
      let start ← offset
      let code ← expr env value
      return (env.addConst name (.stored start), code)
  | .var i name _ => do
    moveTo i.pos
    let start ← offset
    let code ← emit (.push (← typeOf i).size)
    return (env.addVar name (.stored start), code)
  | .func i name params _ body => do
    moveTo i.pos
    match ← typeOf i with
    | .func _ result => routine env name params result.size fun inner => expr inner body
    | ty => fail (.malformed (.notAFunction name ty))
  | .proc i name params body => do
    moveTo i.pos
    routine env name params 0 fun inner => stmt inner body
  | .type i _ _ => do
    moveTo i.pos
    return (env, [])

def stmt (env : Env) : Stmt → Gen Code
  | .assign i target value => do
    moveTo i.pos
    let pushed ← expr env value
    let (base, loc) ← locate env target
    return pushed ++ base ++ (← store loc (← sizeOf value.info))
  | .call i _ name as => do
    moveTo i.pos
    let start ← offset
    let pushed ← args env as
    let call ← invoke env name
    setOffset start
    return pushed ++ call
  | .seq i ss => do
    moveTo i.pos
    stmts env ss
  | .letIn i ds body => do
    moveTo i.pos
    let start ← offset
    within start do
      let (inner, storage) ← decls env.enterBlock ds
      let allocated := wrap64 ((← offset) - start)
      let code ← stmt inner body
      return storage ++ code ++ (← emit (.pop 0 allocated))
  | .ifThen i test yes => do
    moveTo i.pos
    let other ← newLabel "else"
    let done ← newLabel "end"
    let decision ← expr env test
    let branch ← emit (.jumpIf 0 other)
    let first ← stmt env yes
    let past ← emit (.jump done)
    let middle ← emit (.label other)
    let finish ← emit (.label done)
    return decision ++ branch ++ first ++ past ++ middle ++ finish
  | .ifElse i test yes no => do
    moveTo i.pos
    let other ← newLabel "else"
    let done ← newLabel "end"
    let decision ← expr env test
    let branch ← emit (.jumpIf 0 other)
    let first ← stmt env yes
    let past ← emit (.jump done)
    let middle ← emit (.label other)
    let second ← stmt env no
    let finish ← emit (.label done)
    return decision ++ branch ++ first ++ past ++ middle ++ second ++ finish
  | .whileDo i test body => do
    moveTo i.pos
    let top ← newLabel "body"
    let check ← newLabel "test"
    let enter ← emit (.jump check)
    let start ← emit (.label top)
    let code ← stmt env body
    let middle ← emit (.label check)
    let decision ← expr env test
    let back ← emit (.jumpIf 1 top)
    return enter ++ start ++ code ++ middle ++ decision ++ back
  | .repeatUntil i body test => do
    moveTo i.pos
    let top ← newLabel "repeat"
    let start ← emit (.label top)
    let code ← stmt env body
    let decision ← expr env test
    let back ← emit (.jumpIf 0 top)
    return start ++ code ++ decision ++ back
  | .repeatWhile i body test => do
    moveTo i.pos
    let top ← newLabel "repeat"
    let start ← emit (.label top)
    let code ← stmt env body
    let decision ← expr env test
    let back ← emit (.jumpIf 1 top)
    return start ++ code ++ decision ++ back
  | .loopWhile i pre test post => do
    moveTo i.pos
    let top ← newLabel "loop"
    let done ← newLabel "end"
    let start ← emit (.label top)
    let first ← stmt env pre
    let decision ← expr env test
    let leave ← emit (.jumpIf 0 done)
    let second ← stmt env post
    let back ← emit (.jump top)
    let finish ← emit (.label done)
    return start ++ first ++ decision ++ leave ++ second ++ back ++ finish
  | .forever i body => do
    moveTo i.pos
    let top ← newLabel "loop"
    let start ← emit (.label top)
    let code ← stmt env body
    let back ← emit (.jump top)
    return start ++ code ++ back
  | .skip i => do
    moveTo i.pos
    return []

def stmts (env : Env) : List Stmt → Gen Code
  | [] => return []
  | s :: ss => do
    let first ← stmt env s
    return first ++ (← stmts env ss)
end

end Triangle.Generate

namespace Triangle

/-- The code of a program, which ends in HALT. -/
def Program.generate (p : Program) : Except Generate.Fault (List Code.Item) :=
  let whole : Generate.Gen (List Code.Item) := do
    let code ← Generate.stmt .standard p.body
    return code ++ (← Generate.emit .halt)
  match whole.run {} with
  | .ok code _ => .ok code
  | .error fault _ => .error fault

end Triangle
