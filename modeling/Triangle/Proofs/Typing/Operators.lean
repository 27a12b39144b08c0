import Mathlib
import Triangle.Proofs.Typing.Nodes

/-! What the standard operators take and give, wherever they are in scope. -/
namespace Triangle.Check

variable {env env' : Env} {n k : Node} {m : Meaning} {op : String} {u v t : Ty}

/-- What the program declares is not standard, wherever it is in scope. -/
theorem Within.genuine (within : Within env n env' k) (genuine : env.Genuine) : env'.Genuine := by
  intro x e found isStandard
  rcases within.entry found with before | ⟨d, -, enters⟩
  · exact genuine x e before isStandard
  · cases d with
    | decl d =>
      obtain ⟨-, -, t, rfl⟩ := enters
      cases isStandard
    | param p =>
      obtain ⟨-, t, rfl⟩ := enters
      cases isStandard
    | expr | stmt | arg | sig => exact enters.elim

/-- The types of a standard operator between operands. -/
inductive Infix : String → Ty → Ty → Ty → Prop where
  | logical {op : String} (member : op ∈ ["/\\", "\\/"]) : Infix op .boolean .boolean .boolean
  | arithmetic {op : String} (member : op ∈ ["+", "-", "*", "/", "//"]) :
    Infix op .integer .integer .integer
  | comparison {op : String} (member : op ∈ ["<", "<=", ">", ">="]) :
    Infix op .integer .integer .boolean
  | equality {op : String} {t : Ty} (member : op ∈ ["=", "\\="]) : Infix op t t .boolean

/-- The types of a standard operator in front of an operand. -/
inductive Prefixed : String → Ty → Prop where
  | minus : Prefixed "-" .integer
  | not : Prefixed "\\" .boolean

theorem infix_of_joins (known : standardTerms.lookup op = some m) (joins : m.Joins u v t) :
    Infix op u.deref v.deref t := by
  have member := Scope.mem_of_lookup known
  simp only [standardTerms, standardConstants, standardRoutines, equalities,
    List.map_cons, List.map_nil, List.cons_append, List.nil_append] at member
  fin_cases member
  all_goals
    first
    | obtain ⟨p, q, same, left, right⟩ := joins
      cases same
      rw [left, right]
      first
      | exact .logical (by decide)
      | exact .arithmetic (by decide)
      | exact .comparison (by decide)
    | obtain ⟨same, rfl⟩ := joins
      rw [same]
      exact .equality (by decide)
    | obtain ⟨p, q, same, left, right⟩ := joins
      cases same

theorem prefixed_of_signature {want : Ty} (genuine : env.Genuine) (found : env.unary? op = some m)
    (isStandard : m.decl.isStandard = true) (signature : m.signature? = some ([want], t))
    (named : op = "-" ∨ op = "\\") : Prefixed op want ∧ t = want := by
  obtain ⟨b, rfl⟩ := Meaning.signature?_ok.mp signature
  have known := (Env.unary?_found found).imp (genuine.lookup · isStandard)
    (genuine.lookup · isStandard)
  rcases named with rfl | rfl
  · rcases known with other | own
    · cases other
    · cases own
      exact ⟨.minus, rfl⟩
  · rcases known with other | own
    · cases other
    · cases own
      exact ⟨.not, rfl⟩

end Triangle.Check
