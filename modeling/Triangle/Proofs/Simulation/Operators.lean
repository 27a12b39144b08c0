import Mathlib
import Triangle.Proofs.Simulation.Calls
import Triangle.Proofs.Typing.Signatures

/-! Standard operators. -/
namespace Triangle
open List

open Generate (bind_ok moveTo_ok offset_ok setOffset_ok pure_ok invoke_ok)
open Machine Semantics Code

namespace Check

/-- Scalar types, which all operands of standard operators have. -/
def isScalar : Ty → Bool
  | .boolean | .integer | .char => true
  | _ => false

theorem isValue_of_scalar {t : Ty} (scalar : isScalar t = true) : t.IsValue := by
  cases t <;> trivial

theorem ne_void_of_scalar {t : Ty} (scalar : isScalar t = true) : t ≠ .void := by
  rintro rfl
  simp [isScalar] at scalar

theorem standard_infix {p q r : Ty} {b : Binding}
    (found : standardTerms.lookup x = some (.typed (.func [p, q] r) b)) :
    p.IsValue ∧ q.IsValue ∧ r ≠ .void := by
  have table : ∀ entry ∈ standardTerms, ∀ signature ∈ entry.2.signature?,
      signature.1.length = 2 → (∀ t ∈ signature.1, isScalar t) ∧ isScalar signature.2 := by decide
  obtain ⟨operands, result⟩ := table _ (Scope.mem_of_lookup found) _ rfl rfl
  simp only [forall_mem_cons] at operands
  exact ⟨isValue_of_scalar operands.1, isValue_of_scalar operands.2.1, ne_void_of_scalar result⟩

theorem standard_unary {p r : Ty} {b : Binding}
    (found : standardTerms.lookup (unaryKey op) = some (.typed (.func [p] r) b)) :
    p.IsValue ∧ r ≠ .void := by
  -- the keys of other routines start differently
  have table : ∀ entry ∈ standardTerms, entry.1.toList.head? = some 'u' →
      ∀ signature ∈ entry.2.signature?, (∀ t ∈ signature.1, isScalar t) ∧ isScalar signature.2 := by
    decide
  obtain ⟨operand, result⟩ := table _ (Scope.mem_of_lookup found) (by simp [unaryKey]) _ rfl
  exact ⟨isValue_of_scalar (operand p mem_cons_self), ne_void_of_scalar result⟩

end Check

namespace Setting

variable {S : Setting} {n a : Nat} {sc : Scene S n} {s : Semantics.State}

theorem argsRel_one {w : World} {v : Value} {p : Ty} (kind : v.HasTy p) :
    S.ArgsRel n w [p] [.value v] [v.words] := by
  exact ⟨_, _, _, _, rfl, rfl, (argRel_value kind.isValue).mpr ⟨v, rfl, kind, rfl⟩, rfl, rfl⟩

theorem argsRel_two {w : World} {u v : Value} {p q : Ty} (left : u.HasTy p) (right : v.HasTy q) :
    S.ArgsRel n w [p, q] [.value u, .value v] [u.words, v.words] := by
  exact ⟨_, _, _, _, rfl, rfl, (argRel_value left.isValue).mpr ⟨u, rfl, left, rfl⟩, _, _, _, _, rfl,
    rfl, (argRel_value right.isValue).mpr ⟨v, rfl, right, rfl⟩, rfl, rfl⟩

/-- Where there are no routines every operator is a standard one. -/
theorem standard_of_allowed {types : Check.Env} {env : Generate.Env} {names : Semantics.Env}
    {w : World} {bases : List Nat} {ps : List Ty} {r : Ty} {b : Binding} {x : String}
    (related : S.Related n w bases types env names)
    (allowed : S.routines → ∀ c, some b = some c → c.isStandard = true)
    (found : types.terms.lookup? x = some (.typed (.func ps r) b)) : b.isStandard = true := by
  by_cases routines : S.routines
  · exact allowed routines b rfl
  · exact related.plain routines found rfl

theorem ExprRuns.unary {operand : Expr} (runs : S.ExprRuns operand) (i : Info)
    (decl : Option Binding) (op : String) : S.ExprRuns (.unary i decl op operand) := by
  intro n sc t st st' items a s typed clean aligned done placed stored
  obtain ⟨-, m, want, got, found, rfl, signature, operandTyped, same⟩ := typed
  simp only [Expr.nodes, clean_cons] at clean
  obtain ⟨⟨-, allowed⟩, clean⟩ := clean
  obtain ⟨b, rfl⟩ : ∃ b, m = .typed (.func [want] t) b := by
    cases m with
    | equality => simp [Check.Meaning.signature?] at signature
    | typed ty b =>
      cases ty <;> simp [Check.Meaning.signature?] at signature
      obtain ⟨rfl, rfl⟩ := signature
      exact ⟨b, rfl⟩
  have standard : b.isStandard = true := by
    rcases Check.Env.unary?_found found with bound | bound
    · exact standard_of_allowed sc.related allowed bound
    · exact standard_of_allowed sc.related allowed bound
  simp only [Generate.expr, bind_ok, moveTo_ok, offset_ok, setOffset_ok, pure_ok] at done
  obtain ⟨_, _, rfl, _, _, ⟨rfl, rfl⟩, code, _, operandDone, call, _, invoked, -, -, -, -, -, -, rfl,
    -⟩ := done
  simp only [Check.Meaning.decl, Option.any_some, standard, ↓reduceIte] at invoked
  -- under no other key is there code for a prefix operator
  have bound : sc.types.terms.lookup? (Check.unaryKey op) = some (.typed (.func [want] t) b) := by
    rcases Check.Env.unary?_standard found standard with bound | none
    · exact bound
    · obtain ⟨c, reg, ⟨depth, known, -⟩, -⟩ := invoke_ok invoked
      rw [sc.related.hidden none] at known
      cases known
  obtain ⟨inTable, known, named, meaning⟩ := sc.related.standard bound standard
  obtain ⟨-, m, c, depth, meaning', callable, rel⟩ := sc.related.routine bound
  obtain rfl : .standard known = m := Option.some.inj (meaning.symm.trans meaning')
  obtain ⟨wantValue, value⟩ := Check.standard_unary inTable
  have prefixed : Standard.prefixed? op = some known := by rw [Standard.prefixed?, named]
  obtain ⟨operandPlaced, callPlaced⟩ := placed_append.mp placed
  rw [Semantics.expr, prefixed]
  refine (runs sc operandTyped clean (by simpa using aligned) operandDone operandPlaced stored).bind ?_
  rintro v s' _ ⟨kind, stored', rfl⟩
  rw [same, wantValue.deref] at kind
  rw [Check.Meaning.decl, Result.bind_ok (callee_standard standard), Scene.view_push stored',
    span_append, ← Nat.add_assoc]
  have called := invoke_runs rel callable invoked callPlaced stored' (argsRel_one kind)
  rw [flatten_singleton] at called
  exact called.bind fun result s'' view returned => valued_runs returned value

/-- The size of its operands is on top of the operands of an equality. -/
theorem equality_runs {u v : Value} {t : Ty} {p : Primitive} {known : Standard}
    (left : u.HasTy t) (right : v.HasTy t) (small : t.trueSize < 0x8000)
    (kind : p = .eq ∧ known = .eq ∨ p = .ne ∧ known = .ne) (stored : sc.world.Stored s.store)
    (placed : S.At a ([.loadL t.size] ++ [.callPrim p])) :
    S.Follows n (((sc.push u.words).push v.words).view s a)
      ((call n (.standard known) [.value u, .value v] >>= valued) s)
      (sc.Pushed (a + 2) .boolean) := by
  obtain ⟨loads, calls⟩ := placed_append.mp placed
  obtain ⟨target, aimed⟩ := p.exists_target
  rw [Scene.view_push_push stored, Scene.view_push stored, ← append_assoc]
  refine S.loadL loads ?_
  rw [Ty.size_eq left.isValue small]
  have site := @callPrim_site S _ _ sc.lb s
    (sc.world.content s.store ++ u.words ++ v.words ++ [.truncate t.trueSize]) p calls aimed
  -- both primitives differ only in what they expect
  obtain ⟨expected, primitive, applied⟩ : ∃ expected, Machine.primitive p = equality expected ∧
      call n (.standard known) [.value u, .value v] =
        Standard.truthValue (u.same v == expected) := by
    rcases kind with ⟨rfl, rfl⟩ | ⟨rfl, rfl⟩
    · refine ⟨true, by simp only [Machine.primitive], ?_⟩
      rw [call]
      exact congrArg Standard.truthValue (beq_true _).symm
    · refine ⟨false, by simp only [Machine.primitive], ?_⟩
      rw [call]
      exact congrArg Standard.truthValue (beq_false _).symm
  rw [applied]
  have compares := (site.primitive aimed : _ → Machine.Follows S.code S.leaves n _ _ _) fun m shows => by
    rw [primitive]
    exact Matches.equality left right small shows expected
  refine compares.bind ?_
  rintro result s' _ ⟨_, ⟨rfl, x, rfl, kind, rfl⟩, rfl⟩
  exact .done ⟨kind, stored, (Scene.view_push stored _).symm⟩

theorem ExprRuns.binary {left right : Expr} (first : S.ExprRuns left) (second : S.ExprRuns right)
    (i : Info) (decl : Option Binding) (op : String) : S.ExprRuns (.binary i decl op left right) := by
  intro n sc t st st' items a s typed clean aligned done placed stored
  obtain ⟨-, m, u, v, bound, rfl, leftTyped, rightTyped, joins⟩ := typed
  simp only [Expr.nodes, cons_append, clean_cons, clean_append] at clean
  obtain ⟨⟨-, allowed⟩, cleanLeft, cleanRight⟩ := clean
  simp only [Generate.expr, bind_ok, moveTo_ok, offset_ok, setOffset_ok, pure_ok] at done
  obtain ⟨_, _, rfl, _, _, ⟨rfl, rfl⟩, leftCode, _, leftDone, rightCode, _, rightDone, size, _, sized,
    call, _, invoked, -, -, -, -, -, -, rfl, -⟩ := done
  simp only [placed_append, span_append, ← Nat.add_assoc] at placed ⊢
  obtain ⟨⟨⟨leftPlaced, rightPlaced⟩, sizePlaced⟩, callPlaced⟩ := placed
  have aligned' : sc.Aligned (st.moved i.pos) := by simpa using aligned
  refine (first sc leftTyped cleanLeft aligned' leftDone leftPlaced stored).bind ?_
  rintro x s' _ ⟨kind, stored', rfl⟩
  have aligned'' := aligned'.expr leftTyped (cleanLeft.small leftTyped) leftDone kind
  refine (second (sc.push x.words) rightTyped cleanRight aligned'' rightDone rightPlaced
    (by simpa using stored')).bind ?_
  rintro y s'' _ ⟨kind', stored'', rfl⟩
  have stored'' : sc.world.Stored s''.store := by simpa using stored''
  obtain ⟨c, reg, ⟨depth, callable, -⟩, compared⟩ := Generate.comparedSize_ok sized
  cases m with
  | equality b =>
    obtain ⟨same, rfl⟩ := joins
    obtain ⟨standard, p, known, depth', callable', named, kinds⟩ := sc.related.equality bound
    rw [callable] at callable'
    cases callable'
    obtain ⟨c', reg', ⟨depth'', callable', -⟩, rfl⟩ := invoke_ok invoked
    rw [callable] at callable'
    cases callable'
    obtain ⟨t', slot, rfl⟩ : ∃ t, left.info.ty = some t ∧ size = [.loadL t.deref.size] := by
      rcases compared with ⟨-, sized⟩ | ⟨notEq, notNe, -⟩
      · exact sized
      · rcases kinds with ⟨rfl, -⟩ | ⟨rfl, -⟩
        · exact absurd rfl notEq
        · exact absurd rfl notNe
    obtain rfl : u = t' := Option.some.inj (leftTyped.slot.symm.trans slot)
    rw [← same] at kind'
    rw [named, Check.Meaning.decl, Result.bind_ok (callee_standard standard)]
    exact equality_runs kind kind' (cleanLeft.small leftTyped) kinds stored''
      (placed_append.mpr ⟨sizePlaced, callPlaced⟩)
  | typed ty b =>
    obtain ⟨p, q, rfl, leftSame, rightSame⟩ := joins
    have standard : b.isStandard = true := standard_of_allowed sc.related allowed bound
    obtain ⟨inTable, known, named, meaning⟩ := sc.related.standard bound standard
    obtain ⟨-, m, c', depth', meaning', callable', rel⟩ := sc.related.routine bound
    obtain rfl : .standard known = m := Option.some.inj (meaning.symm.trans meaning')
    obtain ⟨leftValue, rightValue, value⟩ := Check.standard_infix inTable
    rw [callable] at callable'
    cases callable'
    obtain rfl : size = [] := by
      rcases compared with ⟨rfl | rfl, -⟩ | ⟨-, -, none⟩
      · exact absurd rfl rel.1
      · exact absurd rfl rel.2.1
      · exact none
    rw [leftSame, leftValue.deref] at kind
    rw [rightSame, rightValue.deref] at kind'
    rw [named, Check.Meaning.decl, Result.bind_ok (callee_standard standard),
      Scene.view_push_push stored'', Scene.view_push stored'']
    have called := invoke_runs rel callable invoked callPlaced stored'' (argsRel_two kind kind')
    rw [flatten_cons, flatten_singleton] at called
    exact called.bind fun result s'' view returned => valued_runs returned value

end Setting
end Triangle
