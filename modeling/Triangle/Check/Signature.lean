import Triangle.Check.Complaint
import Triangle.Check.Environment
import Triangle.Check.Result

/-! Type signatures and parameters. -/
namespace Triangle.Check
open Checked

/-- The type that a name stands for. -/
def namedType (env : Env) (pos : Pos) (name : String) : Except Diagnostic Ty :=
  match env.types.lookup? name with
  | some t => .ok t
  | none =>
    match env.terms.lookup? name with
    | some _ => .error ((Complaint.notAType name).located pos)
    | none => .error ((Complaint.undeclaredType name).located pos)

mutual
def sig (env : Env) : Sig → Checked Sig Ty
  | .named i name => settle (.named · name) i (namedType env i.pos name)
  | .array i length elem =>
    if length ≤ 0 then fail (.array i length elem) (Complaint.emptyArrayType.located i.pos)
    else if maxInt < length then
      fail (.array i length elem) ((Complaint.arrayLength length).located i.pos)
    else
      (sig env elem).andThen (.array i length ·) fun elem t =>
        settle (.array · length elem) i (.ok (.array length t))
  | .record i fields =>
    (sigFields env i.pos [] fields).andThen (.record i ·) fun fields ts =>
      settle (.record · fields) i (.ok (.ofFields ts))

/-- The fields of a record signature at `pos`, after those called `seen`. -/
def sigFields (env : Env) (pos : Pos) (seen : List String) :
    List (String × Sig) → Checked (List (String × Sig)) (List (String × Ty))
  | [] => pass [] []
  | (name, s) :: rest =>
    if name ∈ seen then fail ((name, s) :: rest) ((Complaint.duplicateTypeField name).located pos)
    else
      (sig env s).andThen (fun s => (name, s) :: rest) fun s t =>
        (sigFields env pos (name :: seen) rest).andThen (fun rest => (name, s) :: rest)
          fun rest ts => pass ((name, s) :: rest) ((name, t) :: ts)
end

/-- The result of a routine; a procedure has none. -/
def resultSig (env : Env) : Option Sig → Checked (Option Sig) Ty
  | none => pass none .void
  | some s => (sig env s).andThen some fun s t => pass (some s) t

mutual
def param (env : Env) : Param → Checked Param Ty
  | .value i name s =>
    (sig env s).andThen (.value i name ·) fun s t => settle (.value · name s) i (.ok t)
  | .var i name s =>
    (sig env s).andThen (.var i name ·) fun s t => settle (.var · name s) i (.ok t.refOf)
  | .func i name ps result =>
    (params env [] ps).andThen (.func i name · result) fun ps ts =>
      (resultSig env result).andThen (.func i name ps ·) fun result t =>
        settle (.func · name ps result) i (.ok (.func ts t))

/-- Parameters in order, after those called `seen`. -/
def params (env : Env) (seen : List String) : List Param → Checked (List Param) (List Ty)
  | [] => pass [] []
  | p :: ps =>
    if p.name ∈ seen then fail (p :: ps) ((Complaint.duplicateParameter p.name).located p.pos)
    else
      (param env p).andThen (· :: ps) fun p t =>
        (params env (p.name :: seen) ps).andThen (p :: ·) fun ps ts => pass (p :: ps) (t :: ts)
end

end Triangle.Check
