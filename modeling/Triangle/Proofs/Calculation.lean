import Mathlib
import Triangle.Proofs.Generate.Naming
import Triangle.Proofs.Optimize.Calculation

/-! Folding and the machine calculate alike. Where an expression without names folds to a literal, its
code leaves the word of that literal on the stack, whatever is on it, and where folding reports an
overflow the code fails. -/
namespace Triangle
open Code Machine Optimize List

/-- A scalar expression without names: literals under standard operators and conversions. Its
calculation takes up `n` words of the stack. -/
inductive Expr.Closed : Expr → (n : Nat) → Prop where
  | int (i : Info) (value : Int) : Closed (.int i value) 1
  | char (i : Info) {value : Char} (small : value.toNat ≤ 32767) : Closed (.char i value) 1
  | bool (i : Info) (value : Bool) : Closed (.bool i value) 1
  | unary (i : Info) {b : Binding} {op : String} {operand : Expr} (standard : b.isStandard = true)
      (named : op = "-" ∨ op = "\\") (inner : Closed operand n) :
      Closed (.unary i (some b) op operand) n
  /-- The left operand waits below the right one, and the size of both lies on those of an
  equality. -/
  | binary (i : Info) {b : Binding} (op : String) {left right : Expr} (standard : b.isStandard = true)
      (first : Closed left n) (second : Closed right k) : Closed (.binary i (some b) op left right)
        (max (max n (k + 1)) (if op ∈ Check.equalities then 3 else 0))
  | convert (i j : Info) {b : Binding} {name : String} {value : Expr} (standard : b.isStandard = true)
      (named : name ∈ Generate.conversions) (inner : Closed value n) :
      Closed (.call i (some b) name [.value j value]) n

namespace Generate

variable {allowed : Fault → Prop} {types : Check.Env} {env env' : Env} {t : Ty} {x : String}
  {p : Primitive} {c : Callable} {depth : Nat}

/-! ## Standard routines -/

/-- The standard routines that the checker finds are those of the generator. -/
def Serves (types : Check.Env) (env : Env) : Prop :=
  ∀ {x m c}, types.terms.lookup? x = some m → m.decl.isStandard = true →
    standardObject? x = some (.routine c) →
    ∃ depth, env.callables.lookupWithDepth? x = some (c, depth)

/-- What counts as standard on the trail is so by its name. -/
def Sterling (trail : List Mark) : Prop :=
  ∀ m, .made m ∈ trail → m.binding.isStandard = true → standardObject? m.name = some m.object

namespace Sterling

variable {trail trail' : List Mark}

theorem add {m : Made} (sterling : Sterling trail) (declared : m.binding.isStandard = false) :
    Sterling (.made m :: trail) := by
  intro m' member standard
  rcases mem_cons.mp member with same | before
  · cases same
    simp [declared] at standard
  · exact sterling m' before standard

theorem declares {ds : List Decl} (sterling : Sterling trail)
    (declares : Declares env trail ds env' trail') : Sterling trail' := by
  induction declares with
  | nil => exact sterling
  | cons first _ ih =>
    cases first with
    | type => exact ih sterling
    | term => exact ih (sterling.add rfl)

theorem binds {ps : List Param} (sterling : Sterling trail)
    (binds : Binds env trail ps env' trail') : Sterling trail' := by
  induction binds with
  | nil => exact sterling
  | cons _ _ ih => exact ih (sterling.add rfl)

theorem body (sterling : Sterling trail) : Sterling (.body :: trail) := by
  intro m member
  exact sterling m ((mem_cons.mp member).resolve_left (by simp))

theorem of_visits {whole : Stmt} {n : Node} (visits : Visits whole env trail n) : Sterling trail := by
  induction visits with
  | whole =>
    intro m member _
    obtain ⟨row, inside, written⟩ := mem_filterMap.mp member
    obtain ⟨object, known, same⟩ := Option.map_eq_some_iff.mp written
    cases same
    exact known
  | part _ _ _ ih => exact ih
  | declared _ _ passed _ ih => exact ih.declares passed
  | body _ _ passed _ ih => exact ih.declares passed
  | routine _ _ itself _ _ passed _ ih =>
    exact (ih.declares (.cons itself .nil)).body.binds passed

end Sterling

theorem Visits.serves {whole : Stmt} {trail : List Mark} {n : Node}
    (visits : Visits whole env trail n) (agree : Matches types trail) : Serves types env := by
  intro x m c found standard known
  obtain ⟨made, depth, nearest, binding, -⟩ := agree.found found
  obtain ⟨member, named⟩ := nearest?_mem nearest
  have object := Sterling.of_visits visits made member (binding ▸ standard)
  rw [named, known, Option.some.injEq] at object
  have held := visits.traced.held nearest
  rw [← object] at held
  obtain ⟨⟨c', depth'⟩, callable, same⟩ := Option.map_eq_some_iff.mp held
  cases same
  exact ⟨_, callable⟩

/-! ## Code -/

theorem makes_loadL (d : Int) : Makes allowed (emit (.loadL d)) (· = [.loadL d]) := fun _ => rfl

theorem makes_primitive (known : env.callables.lookupWithDepth? x = some (.primitive p, depth)) :
    Makes allowed (callable env x) (· = (.primitive p, .SB)) := by
  unfold callable
  rw [known]
  exact makes_pure rfl

theorem invoke_primitive (known : env.callables.lookupWithDepth? x = some (.primitive p, depth)) :
    Makes allowed (invoke env x) (· = [.callPrim p]) := by
  refine (makes_primitive known).bind fun _ same => ?_
  subst same
  exact fun _ => rfl

theorem invoke_conversion (known : env.callables.lookupWithDepth? x = some (.conversion, depth)) :
    Makes allowed (invoke env x) (· = []) := by
  intro st
  simp [invoke, callable, known]

/-- Equalities are told the size of their operands. -/
theorem comparedSize_scalar {i : Info} (scalar : IsScalar t) (slot : i.ty = some t)
    (known : env.callables.lookupWithDepth? x = some (.primitive p, depth)) :
    Makes allowed (comparedSize env x i) (· = Fold.sizeCode p) := by
  refine (makes_primitive known).bind fun _ same => ?_
  subst same
  have one : t.deref.size = 1 := by cases t <;> first | rfl | exact scalar.elim
  have size : Makes allowed (sizeOf i) (· = 1) :=
    (makes_typeOf slot).bind fun _ same => makes_pure (by rw [same, one])
  cases p
  case eq | ne =>
    refine size.bind fun _ same => ?_
    subst same
    exact makes_loadL 1
  all_goals exact makes_pure rfl

/-- The code of a closed expression is the same wherever it is made, and leaves what folding has
found. -/
theorem calculates (genuine : types.Genuine) (serves : Serves types env) {e : Expr} {n : Nat}
    (closed : e.Closed n) : ∀ {t}, Check.ExprTyped types e t → IsScalar t ∧ ∃ items r,
      Makes (fun _ => False) (expr env e) (· = items) ∧ Takes items n [] r ∧
        ∀ consts, Fold.Folded t (Fold.expr consts e) r := by
  have scalar_deref : ∀ {t : Ty}, IsScalar t → t.deref = t := by
    intro t scalar
    cases t <;> first | rfl | exact scalar.elim
  induction closed with
  | int i value =>
    intro t typed
    simp only [Check.ExprTyped, Check.minInt, Check.maxInt] at typed
    obtain ⟨-, rfl, lower, upper⟩ := typed
    refine ⟨trivial, _, _, ?_, .loadL value, fun consts => ?_⟩
    · exact (works_moveTo _).then fun _ => makes_loadL value
    · exact .of_literal rfl (.int ⟨by omega, by omega⟩)
  | char i small =>
    rename_i value
    intro t typed
    obtain ⟨-, rfl⟩ := typed
    refine ⟨trivial, _, _, ?_, .loadL value.toNat, fun consts => ?_⟩
    · exact (works_moveTo _).then fun _ => makes_loadL _
    · exact .of_literal rfl (.char small)
  | bool i value =>
    intro t typed
    obtain ⟨-, rfl⟩ := typed
    refine ⟨trivial, _, _, ?_, .loadL (if value then 1 else 0), fun consts => ?_⟩
    · exact (works_moveTo _).then fun _ => makes_loadL _
    · have means := Literal.Means.bool value
      cases value <;> exact .of_literal rfl means
  | @unary _ i _ op _ standard named _ ih =>
    intro t typed
    obtain ⟨slot, m, want, got, found, same, signature, operandTyped, alike⟩ := typed
    cases same
    obtain ⟨scalar, items, r, made, takes, folded⟩ := ih operandTyped
    obtain ⟨typing, rfl⟩ := Check.prefixed_of_signature genuine found standard signature named
    obtain ⟨p, f, turns⟩ := Fold.Turns.of_prefixed typing
    rw [scalar_deref scalar, scalar_deref turns.scalar] at alike
    subst alike
    -- what has the name itself takes two operands, if anything
    have bound : types.terms.lookup? (Check.unaryKey op) = some m := by
      refine (Check.Env.unary?_found found).resolve_left fun own => ?_
      have known := genuine.lookup own standard
      rcases named with rfl | rfl
      · cases known
        cases signature
      · cases known
    obtain ⟨depth, known⟩ := serves bound standard turns.known
    refine ⟨scalar, items ++ [.callPrim p], r >>= f, ?_, ?_, fun consts => ?_⟩
    · simp only [expr, Option.any_some, standard, ↓reduceIte]
      exact (works_moveTo _).then fun _ => works_offset.then fun _ => made.bind fun _ value =>
        (invoke_primitive known).bind fun _ call => (works_sizeOf slot).then fun _ =>
        (works_setOffset _).then fun _ => makes_pure (by rw [value, call])
    · exact takes.bind (fun x _ => turns.takes x _) (by simp)
    · exact .unary standard (folded consts) turns
  | binary i op standard _ _ left right =>
    intro t typed
    obtain ⟨slot, m, u, v, found, same, leftTyped, rightTyped, joins⟩ := typed
    cases same
    obtain ⟨leftScalar, leftItems, rl, leftMade, leftTakes, leftFolded⟩ := left leftTyped
    obtain ⟨rightScalar, rightItems, rr, rightMade, rightTakes, rightFolded⟩ := right rightTyped
    have typing := Check.infix_of_joins (genuine.lookup found standard) joins
    rw [scalar_deref leftScalar, scalar_deref rightScalar] at typing
    obtain ⟨p, f, combines⟩ := Fold.Combines.of_infix typing
    obtain ⟨depth, known⟩ := serves found standard combines.known
    refine ⟨combines.scalar, leftItems ++ rightItems ++ Fold.sizeCode p ++ [.callPrim p],
      rl >>= fun x => rr >>= fun y => f x y, ?_, ?_, fun consts => ?_⟩
    · exact (works_moveTo _).then fun _ => works_offset.then fun _ => leftMade.bind fun _ first =>
        rightMade.bind fun _ second =>
        (comparedSize_scalar leftScalar leftTyped.slot known).bind fun _ size =>
        (invoke_primitive known).bind fun _ call => (works_sizeOf slot).then fun _ =>
        (works_setOffset _).then fun _ => makes_pure (by rw [first, second, size, call])
    · rw [append_assoc, append_assoc]
      refine leftTakes.bind (fun x _ => rightTakes.bind (fun y _ => combines.takes x y _ ?_) ?_) ?_
      · intro equality
        simp [equality]
      · simp only [nil_append, length_singleton]
        omega
      · simp
    · exact .binary standard (leftFolded consts) (rightFolded consts) combines
  | @convert _ i j _ name value standard named _ ih =>
    intro t typed
    obtain ⟨slot, -, _, _, same, found, want, _, ⟨-, -, got, valueTyped, alike⟩, rfl, rfl⟩ := typed
    cases same
    obtain ⟨scalar, items, r, made, takes, folded⟩ := ih valueTyped
    rw [scalar_deref scalar] at alike
    have known := genuine.lookup found standard
    obtain ⟨result, conversion, agrees⟩ : IsScalar t ∧
        standardObject? name = some (.routine .conversion) ∧ ∀ {l w}, l.Means got w →
          (Fold.ofCall name l).Agrees t (.ok w) := by
      rcases mem_pair.mp named with rfl | rfl
      · cases known
        subst alike
        exact ⟨trivial, by decide, Fold.agrees_chr⟩
      · cases known
        subst alike
        exact ⟨trivial, by decide, Fold.agrees_ord⟩
    obtain ⟨depth, callable⟩ := serves found standard conversion
    refine ⟨result, items, r, ?_, takes, fun consts => ?_⟩
    · have pushes : Makes (fun _ => False) (args env [.value j value]) (· = items) := by
        exact ((works_moveTo _).then fun _ => made).bind fun _ pushed =>
          makes_pure (by rw [pushed, append_nil])
      exact (works_moveTo _).then fun _ => works_offset.then fun _ => pushes.bind fun _ pushed =>
        (invoke_conversion callable).bind fun _ call => (works_sizeOf slot).then fun _ =>
        (works_setOffset _).then fun _ => makes_pure (by rw [pushed, call, append_nil])
    · have reports : (Fold.args consts [.value j value]).reports = (Fold.expr consts value).reports := by
        exact (append_nil _).trans (append_nil _)
      exact .convert standard (folded consts) rfl reports agrees

end Generate

/-! ## Programs -/

/-- Where a closed expression of an accepted program folds to a literal, its code pushes the value of
the literal on the stack of any machine with room for the calculation; where folding reports an
overflow, the code fails with an overflow or a division by zero. -/
theorem Program.folding_calculates {p q : Program} (accepted : p.check = (q, []))
    {env : Generate.Env} {trail : List Generate.Mark} {e : Expr} {n : Nat}
    (visits : Generate.Visits q.body env trail (.expr e)) (closed : e.Closed n) :
    ∃ items, (∀ st, ∃ st', Generate.expr env e st = .ok items st') ∧
      ∀ consts labels (m : Machine) (a : Nat), Placed labels m.code.toList a items → m.cp = a →
        m.halted = false → 0 ≤ m.st → m.st + n ≤ dataSize →
          (∀ l, (Fold.expr consts e).value.literal? = some l → (Fold.expr consts e).reports = [] →
            ∃ k m', m.Reaches k m' ∧ m.Pushed (a + span items) l.word m') ∧
          ((Fold.expr consts e).reports ≠ [] → ∃ cause bytes,
            (cause = .overflow ∨ cause = .divisionByZero) ∧ m.Fails cause bytes) := by
  have stable := Program.check_stable accepted
  obtain ⟨types, within, sound, agree⟩ := visits.matches stable
  obtain ⟨t, here⟩ := within.stable (n := .stmt q.body) stable
  obtain ⟨-, items, r, made, takes, folded⟩ := Generate.calculates (within.genuine .standard)
    (visits.serves agree) closed (Check.expr_typed sound here).1
  refine ⟨items, fun st => ?_, fun consts labels m a placed cp running least room => ?_⟩
  · have made := made st
    cases done : Generate.expr env e st with
    | ok code st' =>
      rw [done] at made
      exact ⟨st', by rw [made]⟩
    | error fault st' =>
      rw [done] at made
      exact made.elim
  · obtain ⟨stack, holds⟩ := m.holds_self cp least (by omega)
    have height := holds.st
    have ends := takes (by simp) running placed (by simpa using holds) (by omega)
    refine ⟨fun l literal _ => ?_, fun reported => ?_⟩
    · obtain ⟨w, rfl, means⟩ := (folded consts).literal literal
      obtain ⟨k, m', reaches, after⟩ := ends
      exact ⟨k, m', reaches, by simpa [means.word] using holds.pushed after⟩
    · obtain ⟨cause, rfl⟩ := (folded consts).reported reported
      obtain ⟨bytes, fails⟩ := ends
      exact ⟨cause, bytes, (folded consts).arithmetical cause rfl, fails⟩

/-- Prints the sum of a number and of the code of a character. -/
def Program.sum : Program :=
  ⟨.call {} none "putint" [.value {} (.binary {} none "+" (.int {} 2)
    (.call {} none "ord" [.value {} (.char {} 'a')]))]⟩

theorem Program.sum_calculates : ∃ e items,
    Generate.Visits sum.check.1.body .standard Generate.standardTrail (.expr e) ∧ ∀ labels (m : Machine)
      (a : Nat), Placed labels m.code.toList a items → m.cp = a → m.halted = false → 0 ≤ m.st →
        m.st + 2 ≤ dataSize → ∃ k m', m.Reaches k m' ∧ m.Pushed (a + span items) 99 m' := by
  have accepted : sum.check = (sum.check.1, []) := rfl
  have whole : Generate.Visits sum.check.1.body .standard Generate.standardTrail
      (.stmt sum.check.1.body) := .whole ⟨_, {}, _, rfl⟩
  have argument := whole.part mem_cons_self ⟨_, {}, _, rfl⟩
  have visits := argument.part mem_cons_self (.inl ⟨_, {}, _, rfl⟩)
  obtain ⟨items, -, calculates⟩ := folding_calculates accepted visits
    (.binary _ "+" rfl (.int _ 2) (.convert _ _ rfl (by decide) (.char _ (by decide))))
  refine ⟨_, items, visits, fun labels m a placed here running least room => ?_⟩
  exact (calculates (.standard) labels m a placed here running least room).1 (.int 99) rfl rfl

end Triangle
