import Mathlib
import Triangle.Proofs.Typing.Rules

/-! Accepted trees follow the rules of typing: what checking makes of a tree without a mistake is
typed, in the environment in which it was checked. -/
namespace Triangle.Check
open Checked List

variable {env : Env} {t r want got left right base elem : Ty} {ps : List Ty} {m : Meaning}
  {name op field callee : String} {pos : Pos} {i : Info} {index : Nat} {e' : Expr}

/-! ## Types of expressions -/

theorem propagate_data (base : Ty) {elem : Ty} (data : elem.IsData) :
    (propagate base elem).deref.IsData := by
  unfold propagate
  split
  · cases elem with
    | ref inner => simp [Ty.IsData] at data
    | _ => exact data
  · rw [data.deref]
    exact data

theorem field?_data {fields : List (String × Ty)} {offset : Int} (data : Ty.FieldsAreData fields)
    (found : Ty.field? field offset fields = some (t, k)) : t.IsData := by
  induction fields generalizing offset with
  | nil => simp [Ty.field?] at found
  | cons f fields ih =>
    obtain ⟨name, u⟩ := f
    simp only [Ty.field?] at found
    split at found
    · cases found
      exact data.1
    · exact ih data.2 found

theorem Meaning.IsSound.result (sound : m.IsSound) (found : m.signature? = some (ps, r)) :
    r.IsData := by
  obtain ⟨b, rfl⟩ := Meaning.signature?_ok.mp found
  exact sound

theorem Meaning.IsSound.joined (sound : m.IsSound) (joins : m.Joins left right t) : t.IsData := by
  cases m with
  | equality b => exact joins.2 ▸ trivial
  | typed u b =>
    obtain ⟨p, q, rfl, _⟩ := joins
    exact sound

/-! ## The tree -/

mutual
theorem expr_typed {env : Env} (sound : env.IsSound) : ∀ {e e' : Expr} {t : Ty},
    expr env e = ⟨e', .ok t, []⟩ →
      ExprTyped env e' t ∧ t.deref.IsData ∧ e'.root? = e.root?
  | .int _ _, _, _, accepted => by
    obtain ⟨least, greatest, rfl, rfl⟩ := expr_int.mp accepted
    exact ⟨⟨rfl, rfl, least, greatest⟩, trivial, rfl⟩
  | .char _ _, _, _, accepted => by
    obtain ⟨rfl, rfl⟩ := expr_char.mp accepted
    exact ⟨⟨rfl, rfl⟩, trivial, rfl⟩
  | .bool _ _, _, _, accepted => by
    obtain ⟨rfl, rfl⟩ := expr_bool.mp accepted
    exact ⟨⟨rfl, rfl⟩, trivial, rfl⟩
  | .ident _ _ _, _, t, accepted => by
    obtain ⟨plain, b, found, rfl⟩ := expr_ident.mp accepted
    have data := sound.terms _ _ found
    refine ⟨⟨rfl, plain, b, rfl, found⟩, ?_, rfl⟩
    cases t with
    | func => simp [Ty.isFunc, Ty.deref] at plain
    | _ => exact data
  | .subscript _ _ _, _, _, accepted => by
    obtain ⟨rooted, array', base, length, elem, index', k, first, isArray, second, integer, rfl,
      rfl⟩ := expr_subscript.mp accepted
    obtain ⟨typed, data, root⟩ := expr_typed sound first
    rw [isArray] at data
    exact ⟨⟨rfl, root ▸ rooted, base, length, elem, k, typed, isArray, (expr_typed sound second).1,
      integer, rfl⟩, propagate_data base data, root⟩
  | .select _ _ _, _, _, accepted => by
    obtain ⟨rooted, record', base, fields, inner, k, first, isRecord, entry, rfl, rfl⟩ :=
      expr_select.mp accepted
    obtain ⟨typed, data, root⟩ := expr_typed sound first
    rw [isRecord] at data
    exact ⟨⟨rfl, root ▸ rooted, base, fields, inner, k, typed, isRecord, entry, rfl⟩,
      propagate_data base (field?_data data entry), root⟩
  | .unary _ _ _ _, _, _, accepted => by
    obtain ⟨m, want, operand', got, found, signature, first, same, rfl⟩ := expr_unary.mp accepted
    have data := (sound.unary found).result signature
    exact ⟨⟨rfl, m, want, got, found, rfl, signature, (expr_typed sound first).1, same⟩,
      data.deref_isData, rfl⟩
  | .binary _ _ _ _ _, _, _, accepted => by
    obtain ⟨m, left', u, right', v, found, first, second, joins, rfl⟩ := expr_binary.mp accepted
    have data := (sound.terms _ _ found).joined joins
    exact ⟨⟨rfl, m, u, v, found, rfl, (expr_typed sound first).1, (expr_typed sound second).1,
      joins⟩, data.deref_isData, rfl⟩
  | .call _ _ _ _, _, _, accepted => by
    obtain ⟨valued, wants, b, as', found, count, inner, rfl⟩ := expr_call.mp accepted
    have data : Ty.IsData _ := sound.terms _ _ found
    exact ⟨⟨rfl, valued, wants, b, rfl, found, args_typed sound count inner⟩, data.deref_isData, rfl⟩
  | .cond _ _ _ _, _, _, accepted => by
    obtain ⟨test', u, yes', v, no', w, first, boolean, second, third, same, rfl, rfl⟩ :=
      expr_cond.mp accepted
    obtain ⟨typed, data, _⟩ := expr_typed sound second
    exact ⟨⟨rfl, u, v, w, (expr_typed sound first).1, boolean, typed, (expr_typed sound third).1,
      same, rfl⟩, data.deref_isData, rfl⟩
  | .letIn _ _ _, _, _, accepted => by
    obtain ⟨ds', inner, body', u, first, second, rfl, rfl⟩ := expr_letIn.mp accepted
    obtain ⟨typed, sound'⟩ := decls_typed sound.enterBlock first
    obtain ⟨typedBody, data, _⟩ := expr_typed sound' second
    exact ⟨⟨rfl, inner, u, typed, typedBody, rfl⟩, data.deref_isData, rfl⟩
  | .array _ [], _, _, accepted => by simp [expr] at accepted
  | .array _ (_ :: _), _, _, accepted => by
    obtain ⟨first', u, es', first, rest, rfl, rfl⟩ := expr_array.mp accepted
    obtain ⟨typed, data, _⟩ := expr_typed sound first
    obtain ⟨others, count⟩ := elements_typed sound data rest
    exact ⟨⟨rfl, u.deref, by simp, ⟨⟨u, typed, rfl⟩, others⟩, by simp [count]⟩, data, rfl⟩
  | .record _ _, _, _, accepted => by
    obtain ⟨fields', ts, inner, rfl, rfl⟩ := expr_record.mp accepted
    obtain ⟨typed, data, distinct, _⟩ := recordFields_typed sound inner
    refine ⟨⟨rfl, distinct, ts, typed, rfl⟩, ?_, rfl⟩
    simp only [Ty.ofFields, Ty.deref, Ty.IsData, Ty.fieldsAreData_iff, mem_mergeSort]
    exact Ty.fieldsAreData_iff.mp data
termination_by structural e => e

theorem elements_typed {env : Env} (sound : env.IsSound) {es es' : List Expr} {want : Ty}
    {index : Nat} (wanted : want.IsData) (accepted : elements env want index es = ⟨es', .ok (), []⟩)
    : ElemsTyped env want es' ∧ es'.length = es.length := by
  cases es with
  | nil =>
    rw [(pass_ok.mp accepted).1]
    exact ⟨trivial, rfl⟩
  | cons _ _ =>
    obtain ⟨e', t, rest', first, fits, rest, rfl⟩ := elements_cons.mp accepted
    obtain ⟨others, count⟩ := elements_typed sound wanted rest
    obtain ⟨typed, data, _⟩ := expr_typed sound first
    rw [data.deref, wanted.deref] at fits
    exact ⟨⟨⟨t, typed, fits⟩, others⟩, by simp [count]⟩
termination_by structural es

theorem recordFields_typed {env : Env} (sound : env.IsSound) {pos : Pos} :
    ∀ {fields fields' : List (String × Expr)} {ts : List (String × Ty)} {seen : List String},
      recordFields env pos seen fields = ⟨fields', .ok ts, []⟩ →
        FieldsTyped env fields' ts ∧ Ty.FieldsAreData ts ∧ (fields'.map Prod.fst).Nodup ∧
          ∀ f ∈ fields', f.1 ∉ seen
  | [], _, _, _, accepted => by
    obtain ⟨rfl, rfl⟩ := pass_ok.mp accepted
    exact ⟨rfl, trivial, by simp, by simp⟩
  | (_, _) :: _, _, _, _, accepted => by
    obtain ⟨fresh, e', t, rest', us, first, others, rfl, rfl⟩ := recordFields_cons.mp accepted
    obtain ⟨typed, data, _⟩ := expr_typed sound first
    obtain ⟨typedRest, dataRest, distinct, apart⟩ := recordFields_typed sound others
    refine ⟨⟨t, us, typed, typedRest, rfl⟩, ⟨data, dataRest⟩, ?_, ?_⟩
    · simp only [map_cons, nodup_cons, mem_map]
      refine ⟨?_, distinct⟩
      rintro ⟨f, member, same⟩
      exact apart f member (by simp [same])
    · intro f member
      rcases mem_cons.mp member with rfl | later
      · exact fresh
      · exact fun old => apart f later (mem_cons_of_mem _ old)
termination_by structural fields => fields

theorem args_typed {env : Env} (sound : env.IsSound) : ∀ {as as' : List Arg} {callee : String}
    {index : Nat} {wants : List Ty}, as.length = wants.length →
      args env callee index wants as = ⟨as', .ok (), []⟩ → ArgsTyped env as' wants
  | [], _, _, _, _, count, accepted => by
    simp only [args, pass_ok] at accepted
    rw [accepted.1]
    exact eq_nil_of_length_eq_zero count.symm
  | _ :: _, _, _, _, [], count, _ => by simp at count
  | _ :: _, _, _, _, want :: wants, count, accepted => by
    obtain ⟨a', rest', first, rest, rfl⟩ := args_cons.mp accepted
    exact ⟨want, wants, arg_typed sound first, args_typed sound (by simpa using count) rest, rfl⟩
termination_by structural as => as

theorem arg_typed {env : Env} (sound : env.IsSound) {a a' : Arg} {callee : String} {index : Nat}
    {want : Ty} (accepted : arg env callee index want a = ⟨a', .ok (), []⟩) :
    ArgTyped env a' want := by
  cases a with
  | value =>
    obtain ⟨noRef, noFunc, value', got, inner, same, rfl⟩ := arg_value.mp accepted
    exact ⟨noRef, noFunc, got, (expr_typed sound inner).1, same⟩
  | var =>
    obtain ⟨inner, target', t, root, rfl, checked, same, found, assignable, rfl⟩ :=
      arg_var.mp accepted
    obtain ⟨typed, _, roots⟩ := expr_typed sound checked
    exact ⟨inner, t, root, rfl, typed, same, roots.trans found, assignable⟩
  | func =>
    obtain ⟨ps, r, b, rfl, found, rfl⟩ := arg_func.mp accepted
    exact ⟨rfl, ps, r, b, rfl, rfl, found⟩
termination_by structural a

theorem decls_typed {env : Env} (sound : env.IsSound) {ds ds' : List Decl} {final : Env}
    (accepted : decls env ds = ⟨ds', .ok final, []⟩) :
    DeclsTyped env ds' final ∧ final.IsSound := by
  cases ds with
  | nil =>
    obtain ⟨rfl, rfl⟩ := pass_ok.mp accepted
    exact ⟨rfl, sound⟩
  | cons _ _ =>
    obtain ⟨d', next, ds', first, rest, rfl⟩ := decls_cons.mp accepted
    obtain ⟨typed, sound'⟩ := decl_typed sound first
    obtain ⟨others, sound''⟩ := decls_typed sound' rest
    exact ⟨⟨next, typed, others⟩, sound''⟩
termination_by structural ds

theorem decl_typed {env : Env} (sound : env.IsSound) {d d' : Decl} {next : Env}
    (accepted : decl env d = ⟨d', next, .ok (), []⟩) : DeclTyped env d' next ∧ next.IsSound := by
  cases d with
  | const =>
    obtain ⟨_, value', t, inner, rfl, rfl⟩ := decl_const.mp accepted
    obtain ⟨typed, data, _⟩ := expr_typed sound inner
    exact ⟨⟨t, typed, data, rfl, rfl⟩, sound.addConst _ (Meaning.isSound_of_data data _)⟩
  | var =>
    obtain ⟨_, s', t, inner, rfl, rfl⟩ := decl_var.mp accepted
    have value := sig_value sound inner
    exact ⟨⟨t, value, rfl, rfl⟩, sound.addVar _ (Meaning.isSound_of_data value.data _)⟩
  | type _ name _ =>
    obtain ⟨_, s', t, inner, rfl, rfl⟩ := decl_type.mp accepted
    exact ⟨⟨t, rfl⟩, sound.addType name (sig_value sound inner)⟩
  | func i name _ _ _ =>
    obtain ⟨_, ps', ts, result', r, body', t, formals, returned, rfl, rfl, inner, same⟩ :=
      decl_func.mp accepted
    have typedParams := params_typed sound formals
    have value := sig_value sound returned
    have bound := sound.addConst name (m := .typed (.func ts r)
      (.declared .func name i.pos)) value.data
    obtain ⟨typed, _, _⟩ := expr_typed (bound.enterRoutine.bindParams typedParams) inner
    exact ⟨⟨ts, r, t, rfl, typedParams, value, rfl, typed, same.trans value.deref⟩, bound⟩
  | proc i name _ _ =>
    obtain ⟨_, ps', ts, body', formals, rfl, rfl, inner⟩ := decl_proc.mp accepted
    have typedParams := params_typed sound formals
    have bound := sound.addConst name (m := .typed (.func ts .void)
      (.declared .proc name i.pos)) trivial
    have typed := stmt_typed (bound.enterRoutine.bindParams typedParams) inner
    exact ⟨⟨ts, rfl, typedParams, rfl, typed⟩, bound⟩
termination_by structural d

theorem stmt_typed {env : Env} (sound : env.IsSound) {s s' : Stmt}
    (accepted : stmt env s = (s', [])) : StmtTyped env s' := by
  cases s with
  | assign =>
    obtain ⟨target', t, value', u, root, first, second, same, found, assignable, rfl⟩ :=
      stmt_assign.mp accepted
    obtain ⟨typed, _, roots⟩ := expr_typed sound first
    exact ⟨t, u, root, typed, (expr_typed sound second).1, same, roots.trans found, assignable⟩
  | call =>
    obtain ⟨wants, b, as', found, count, inner, rfl⟩ := stmt_call.mp accepted
    exact ⟨wants, b, rfl, found, args_typed sound count inner⟩
  | seq =>
    obtain ⟨ss', inner, rfl⟩ := stmt_seq.mp accepted
    exact stmts_typed sound inner
  | letIn =>
    obtain ⟨ds', inner, body', first, second, rfl⟩ := stmt_letIn.mp accepted
    obtain ⟨typed, sound'⟩ := decls_typed sound.enterBlock first
    exact ⟨_, typed, stmt_typed sound' second⟩
  | ifThen =>
    obtain ⟨test', t, yes', checked, boolean, second, rfl⟩ := stmt_ifThen.mp accepted
    exact ⟨⟨t, (expr_typed sound checked).1, boolean⟩, stmt_typed sound second⟩
  | ifElse =>
    obtain ⟨test', t, yes', no', checked, boolean, second, third, rfl⟩ := stmt_ifElse.mp accepted
    exact ⟨⟨t, (expr_typed sound checked).1, boolean⟩, stmt_typed sound second,
      stmt_typed sound third⟩
  | whileDo =>
    obtain ⟨test', t, body', checked, boolean, second, rfl⟩ := stmt_whileDo.mp accepted
    exact ⟨⟨t, (expr_typed sound checked).1, boolean⟩, stmt_typed sound second⟩
  | repeatUntil =>
    obtain ⟨body', test', t, first, checked, boolean, rfl⟩ := stmt_repeatUntil.mp accepted
    exact ⟨stmt_typed sound first, t, (expr_typed sound checked).1, boolean⟩
  | repeatWhile =>
    obtain ⟨body', test', t, first, checked, boolean, rfl⟩ := stmt_repeatWhile.mp accepted
    exact ⟨stmt_typed sound first, t, (expr_typed sound checked).1, boolean⟩
  | loopWhile =>
    obtain ⟨pre', test', t, post', first, checked, boolean, third, rfl⟩ :=
      stmt_loopWhile.mp accepted
    exact ⟨stmt_typed sound first, ⟨t, (expr_typed sound checked).1, boolean⟩,
      stmt_typed sound third⟩
  | forever =>
    obtain ⟨body', inner, rfl⟩ := stmt_forever.mp accepted
    have typed := stmt_typed sound inner
    exact typed
  | skip =>
    cases accepted
    trivial
termination_by structural s

theorem stmts_typed {env : Env} (sound : env.IsSound) {ss ss' : List Stmt}
    (accepted : stmts env ss = (ss', [])) : StmtsTyped env ss' := by
  cases ss with
  | nil =>
    cases accepted
    trivial
  | cons _ _ =>
    obtain ⟨first, rest, head, tail, rfl⟩ := stmts_cons.mp accepted
    exact ⟨stmt_typed sound head, stmts_typed sound tail⟩
termination_by structural ss
end

end Triangle.Check

namespace Triangle

/-- An accepted program is typed. -/
theorem Program.check_typed {p q : Program} (accepted : p.check = (q, [])) :
    Check.StmtTyped .standard q.body := by
  simp only [Program.check, Prod.mk.injEq] at accepted
  obtain ⟨rfl, clean⟩ := accepted
  exact Check.stmt_typed .standard (Prod.ext rfl clean)

end Triangle
