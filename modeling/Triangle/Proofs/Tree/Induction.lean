import Triangle.Tree.Nodes

/-! Induction over trees. Expressions, commands, declarations, arguments and the lists of them stand
inside each other, so a property is proved of all of them at once. -/
namespace Triangle

/-- A property for each kind of tree and of list, which all such trees and lists have. -/
structure Everywhere (E : Expr → Prop) (F : List (String × Expr) → Prop) (Es : List Expr → Prop)
    (Ds : List Decl → Prop) (D : Decl → Prop) (S : Stmt → Prop) (Ss : List Stmt → Prop)
    (As : List Arg → Prop) (A : Arg → Prop) : Prop where
  expr : ∀ e, E e
  fields : ∀ fields, F fields
  exprs : ∀ es, Es es
  decls : ∀ ds, Ds ds
  decl : ∀ d, D d
  stmt : ∀ s, S s
  stmts : ∀ ss, Ss ss
  args : ∀ as, As as
  arg : ∀ a, A a

/-- A property of trees is proved from that of their parts, constructor by constructor. -/
theorem tree_induction {E : Expr → Prop} {F : List (String × Expr) → Prop} {Es : List Expr → Prop}
    {Ds : List Decl → Prop} {D : Decl → Prop} {S : Stmt → Prop} {Ss : List Stmt → Prop}
    {As : List Arg → Prop} {A : Arg → Prop}
    (int : ∀ i value, E (.int i value)) (char : ∀ i value, E (.char i value))
    (bool : ∀ i value, E (.bool i value)) (ident : ∀ i decl name, E (.ident i decl name))
    (subscript : ∀ i array index, E array → E index → E (.subscript i array index))
    (select : ∀ i record field, E record → E (.select i record field))
    (unary : ∀ i decl op operand, E operand → E (.unary i decl op operand))
    (binary : ∀ i decl op left right, E left → E right → E (.binary i decl op left right))
    (call : ∀ i decl name as, As as → E (.call i decl name as))
    (cond : ∀ i test yes no, E test → E yes → E no → E (.cond i test yes no))
    (letIn : ∀ i ds body, Ds ds → E body → E (.letIn i ds body))
    (array : ∀ i elems, Es elems → E (.array i elems))
    (record : ∀ i fields, F fields → E (.record i fields))
    (assign : ∀ i target value, E target → E value → S (.assign i target value))
    (callStmt : ∀ i decl name as, As as → S (.call i decl name as))
    (seq : ∀ i ss, Ss ss → S (.seq i ss))
    (letStmt : ∀ i ds body, Ds ds → S body → S (.letIn i ds body))
    (ifThen : ∀ i test yes, E test → S yes → S (.ifThen i test yes))
    (ifElse : ∀ i test yes no, E test → S yes → S no → S (.ifElse i test yes no))
    (whileDo : ∀ i test body, E test → S body → S (.whileDo i test body))
    (repeatUntil : ∀ i body test, S body → E test → S (.repeatUntil i body test))
    (repeatWhile : ∀ i body test, S body → E test → S (.repeatWhile i body test))
    (loopWhile : ∀ i pre test post, S pre → E test → S post → S (.loopWhile i pre test post))
    (forever : ∀ i body, S body → S (.forever i body)) (skip : ∀ i, S (.skip i))
    (const : ∀ i name value, E value → D (.const i name value))
    (var : ∀ i name sig, D (.var i name sig))
    (func : ∀ i name params result body, E body → D (.func i name params result body))
    (proc : ∀ i name params body, S body → D (.proc i name params body))
    (type : ∀ i name sig, D (.type i name sig))
    (valueArg : ∀ i value, E value → A (.value i value))
    (varArg : ∀ i target, E target → A (.var i target))
    (funcArg : ∀ i decl name, A (.func i decl name))
    (noArgs : As []) (args : ∀ a as, A a → As as → As (a :: as))
    (noDecls : Ds []) (decls : ∀ d ds, D d → Ds ds → Ds (d :: ds))
    (noExprs : Es []) (exprs : ∀ e es, E e → Es es → Es (e :: es))
    (noFields : F []) (fields : ∀ name e rest, E e → F rest → F ((name, e) :: rest))
    (noStmts : Ss []) (stmts : ∀ s ss, S s → Ss ss → Ss (s :: ss)) :
    Everywhere E F Es Ds D S Ss As A := by
  obtain ⟨expr, fields, exprs, decls, decl, stmt, stmts, args, arg⟩ :=
    Expr.nodes.mutual_induct E F Es Ds D S Ss As A int char bool ident subscript select unary binary
      call cond letIn array record assign callStmt seq letStmt ifThen ifElse whileDo repeatUntil
      repeatWhile loopWhile forever skip const var func proc type valueArg varArg funcArg noArgs args
      noDecls decls noExprs exprs noFields fields noStmts stmts
  exact ⟨expr, fields, exprs, decls, decl, stmt, stmts, args, arg⟩

/-- The same for parameters. -/
theorem param_induction (P : Param → Prop) (Ps : List Param → Prop)
    (value : ∀ i name sig, P (.value i name sig)) (var : ∀ i name sig, P (.var i name sig))
    (func : ∀ i name ps result, Ps ps → P (.func i name ps result))
    (nil : Ps []) (cons : ∀ p ps, P p → Ps ps → Ps (p :: ps)) : ∀ ps, Ps ps :=
  Param.listNodes.induct P Ps value var func nil cons

end Triangle
