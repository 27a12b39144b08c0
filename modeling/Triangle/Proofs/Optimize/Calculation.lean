import Mathlib
import Triangle.Proofs.Generate.Trail
import Triangle.Proofs.Machine.Calculation
import Triangle.Proofs.Optimize.Operators
import Triangle.Proofs.Typing.Operators

/-! The operators in folding and in the machine: both come to the same word, or the machine fails where
folding reports an overflow. -/
namespace Triangle
open Code Machine

/-! ## Words of literals -/

/-- The literal is of type `t`, and the word is its value. -/
inductive Literal.Means : Literal → Ty → Word → Prop where
  | int {n : Int} (fits : (Literal.int n).Fits) : Means (.int n) .integer (.truncate n)
  | char {c : Char} (small : c.toNat ≤ 32767) : Means (.char c) .char (.truncate c.toNat)
  | bool (b : Bool) : Means (.bool b) .boolean (.ofBool b)

theorem Literal.Means.word {l : Literal} {t : Ty} {w : Word} (means : l.Means t w) :
    w.toInt = l.word := by
  cases means with
  | int fits => exact Word.toInt_truncate fits.1 fits.2
  | char small => exact Word.toInt_truncate (by omega) (by omega)
  | bool b => cases b <;> rfl

namespace Machine

/-- The failures of arithmetic. -/
def Arithmetical (r : Except Cause Word) : Prop :=
  ∀ cause, r = .error cause → cause = .overflow ∨ cause = .divisionByZero

variable {r : Except Cause Word} {f : Word → Except Cause Word} {w : Word}

theorem arithmetical_ok : Arithmetical (.ok w) := by simp [Arithmetical]

theorem arithmetical_exactly (result : Option Word) : Arithmetical (exactly result) := by
  cases result <;> simp [Arithmetical, exactly]

theorem arithmetical_quotient {part : Word × Word → Word} {x y : Word} :
    Arithmetical (quotient part x y) := by
  unfold quotient
  split
  · simp [Arithmetical]
  · exact arithmetical_exactly _

theorem Arithmetical.bind (first : Arithmetical r) (second : ∀ w, Arithmetical (f w)) :
    Arithmetical (r >>= f) := by
  cases r with
  | ok w => exact second w
  | error cause => exact first

theorem error_bind (failed : ∃ cause, r = .error cause) : ∃ cause, (r >>= f) = .error cause := by
  obtain ⟨cause, rfl⟩ := failed
  exact ⟨cause, rfl⟩

end Machine

/-! ## Operators -/

namespace Optimize.Fold

variable {t u v : Ty} {r rl rr : Except Cause Word} {l : Literal} {x y w : Word} {op : String}
  {p : Primitive}

/-- A literal is what the machine makes, and an overflow is its failure. Of a value that is not known
nothing is said. -/
def Value.Agrees (t : Ty) (r : Except Cause Word) : Value → Prop
  | .literal l => ∃ w, r = .ok w ∧ l.Means t w
  | .overflow => r = .error .overflow
  | .unknown => True

theorem agrees_ofWord? (result : Option Word) : (ofWord? result).Agrees .integer (exactly result) := by
  cases result with
  | none => rfl
  | some w =>
    have fits : (Literal.int w.toInt).Fits := ⟨Int16.le_toInt w, Int16.toInt_lt w⟩
    have means := Literal.Means.int fits
    rw [Word.truncate_toInt] at means
    exact ⟨w, rfl, means⟩

theorem agrees_bool {a b : Bool} (same : a = b) :
    (Value.literal (.bool a)).Agrees .boolean (.ok (.ofBool b)) :=
  ⟨_, rfl, same ▸ .bool a⟩

/-- What stands on the stack between the operands and the call of a primitive. -/
def sizeCode : Primitive → List Item
  | .eq | .ne => [.loadL 1]
  | _ => []

/-- The operator is the primitive `p`, which combines words as `f` says, and folding has the same
values. -/
structure Combines (op : String) (u v t : Ty) (p : Primitive) (f : Word → Word → Except Cause Word) :
    Prop where
  known : Generate.standardObject? op = some (.routine (.primitive p))
  takes : ∀ x y n, (op ∈ Check.equalities → 3 ≤ n) →
    Takes (sizeCode p ++ [.callPrim p]) n [x, y] (f x y)
  arithmetical : ∀ x y, Arithmetical (f x y)
  agrees : ∀ {l l' x y}, l.Means u x → l'.Means v y → (ofBinary op l l').Agrees t (f x y)
  scalar : Generate.IsScalar t

theorem takes_plain {taken : List Word} {n : Nat} (plain : sizeCode p = [])
    (leaves : Leaves (Machine.primitive p) taken r) :
    Takes (sizeCode p ++ [.callPrim p]) n taken r := by
  rw [plain]
  exact .callPrim leaves

namespace Combines

theorem arithmetic (g : Word → Word → Option Word)
    (known : Generate.standardObject? op = some (.routine (.primitive p)))
    (primitive : Machine.primitive p = Machine.arithmetic g) (plain : sizeCode p = [])
    (table : arithmetic? op = some g) (exact : op ≠ "/" ∧ op ≠ "//") :
    Combines op .integer .integer .integer p fun x y => exactly (g x y) where
  known := known
  takes _ _ _ _ := takes_plain plain (primitive ▸ .arithmetic g)
  arithmetical _ _ := arithmetical_exactly _
  agrees left right := by
    cases left
    cases right
    simp only [ofBinary, ofInts, table, exact, or_self, and_false, ↓reduceIte]
    exact agrees_ofWord? _
  scalar := trivial

theorem division (part : Word × Word → Word)
    (known : Generate.standardObject? op = some (.routine (.primitive p)))
    (primitive : Machine.primitive p = Machine.division part) (plain : sizeCode p = [])
    (table : arithmetic? op = some fun x y => (Word.divide? x y).map part)
    (named : op = "/" ∨ op = "//") :
    Combines op .integer .integer .integer p (quotient part) where
  known := known
  takes _ _ _ _ := takes_plain plain (primitive ▸ .division part)
  arithmetical _ _ := arithmetical_quotient
  agrees left right := by
    cases left
    cases right with
    | @int b fits =>
      simp only [ofBinary, ofInts, table, named, and_true]
      split
      · trivial
      · rename_i nonzero
        have other : Word.truncate b ≠ 0 := by
          intro zero
          have value := Word.toInt_truncate fits.1 fits.2
          rw [zero] at value
          exact nonzero value.symm
        rw [quotient, if_neg other]
        exact agrees_ofWord? _
  scalar := trivial

theorem comparison (test : Word → Word → Bool)
    (known : Generate.standardObject? op = some (.routine (.primitive p)))
    (primitive : Machine.primitive p = Machine.comparison test) (plain : sizeCode p = [])
    (agrees : ∀ {l l' x y}, l.Means u x → l'.Means u y →
      (ofBinary op l l').Agrees .boolean (.ok (.ofBool (test x y)))) :
    Combines op u u .boolean p fun x y => .ok (.ofBool (test x y)) where
  known := known
  takes _ _ _ _ := takes_plain plain (primitive ▸ .comparison test)
  arithmetical _ _ := arithmetical_ok
  agrees := agrees
  scalar := trivial

theorem equality (expected : Bool)
    (known : Generate.standardObject? op = some (.routine (.primitive p)))
    (primitive : Machine.primitive p = Machine.equality expected) (sized : sizeCode p = [.loadL 1])
    (named : op ∈ Check.equalities)
    (agrees : ∀ {l l' x y}, l.Means u x → l'.Means u y →
      (ofBinary op l l').Agrees .boolean (.ok (.ofBool ((x == y) == expected)))) :
    Combines op u u .boolean p fun x y => .ok (.ofBool ((x == y) == expected)) where
  known := known
  takes x y n room := by
    rw [sized]
    change Takes _ n [x, y] (Except.ok (Word.truncate 1) >>= fun _ => .ok _)
    refine (Takes.loadL 1).bind (fun w same => ?_) (room named)
    cases same
    exact .callPrim (primitive ▸ .equality expected)
  arithmetical _ _ := arithmetical_ok
  agrees := agrees
  scalar := trivial

/-- Equal words are those of equal literals. -/
theorem same_word {l l' : Literal} (left : l.Means u x) (right : l'.Means u y) :
    ∃ truth, ofBinary "=" l l' = .literal (.bool truth) ∧
      ofBinary "\\=" l l' = .literal (.bool !truth) ∧ truth = (x == y) := by
  cases left with
  | @int a leftFits =>
    cases right with
    | @int b rightFits =>
      refine ⟨decide (a = b), rfl, by simp [ofBinary, ofInts, arithmetic?], ?_⟩
      rw [Bool.eq_iff_iff, beq_iff_eq, decide_eq_true_iff, truncate_eq leftFits rightFits]
  | @char c leftSmall =>
    cases right with
    | @char d rightSmall =>
      refine ⟨c == d, rfl, rfl, ?_⟩
      have fits : ∀ c : Char, c.toNat ≤ 32767 → (Literal.int c.toNat).Fits :=
        fun c small => ⟨by omega, by omega⟩
      rw [Bool.eq_iff_iff, beq_iff_eq, beq_iff_eq, truncate_eq (fits c leftSmall) (fits d rightSmall),
        Int.natCast_inj, Char.toNat_inj]
  | bool b =>
    cases right with
    | bool c => exact ⟨b == c, rfl, rfl, by cases b <;> cases c <;> rfl⟩

theorem of_infix (typing : Check.Infix op u v t) : ∃ p f, Combines op u v t p f := by
  cases typing with
  | logical member =>
    fin_cases member
    · refine ⟨.and, _, .comparison (fun x y => x != 0 && y != 0) (by decide) rfl rfl ?_⟩
      rintro _ _ _ _ ⟨⟩ ⟨⟩
      rename_i b c
      exact agrees_bool (by cases b <;> cases c <;> rfl)
    · refine ⟨.or, _, .comparison (fun x y => x != 0 || y != 0) (by decide) rfl rfl ?_⟩
      rintro _ _ _ _ ⟨⟩ ⟨⟩
      rename_i b c
      exact agrees_bool (by cases b <;> cases c <;> rfl)
  | arithmetic member =>
    fin_cases member
    · exact ⟨.add, _, .arithmetic Word.add? (by decide) rfl rfl rfl (by decide)⟩
    · exact ⟨.sub, _, .arithmetic Word.sub? (by decide) rfl rfl rfl (by decide)⟩
    · exact ⟨.mult, _, .arithmetic Word.mul? (by decide) rfl rfl rfl (by decide)⟩
    · exact ⟨.div, _, .division Prod.fst (by decide) rfl rfl rfl (.inl rfl)⟩
    · exact ⟨.mod, _, .division Prod.snd (by decide) rfl rfl rfl (.inr rfl)⟩
  | comparison member =>
    fin_cases member
    · refine ⟨.lt, _, .comparison (fun x y => x < y) (by decide) rfl rfl ?_⟩
      rintro _ _ _ _ ⟨first⟩ ⟨second⟩
      exact agrees_bool (by simp [truncate_lt first second])
    · refine ⟨.le, _, .comparison (fun x y => x ≤ y) (by decide) rfl rfl ?_⟩
      rintro _ _ _ _ ⟨first⟩ ⟨second⟩
      exact agrees_bool (by simp [← Int16.not_lt, truncate_lt second first])
    · refine ⟨.gt, _, .comparison (fun x y => y < x) (by decide) rfl rfl ?_⟩
      rintro _ _ _ _ ⟨first⟩ ⟨second⟩
      exact agrees_bool (by simp [truncate_lt second first])
    · refine ⟨.ge, _, .comparison (fun x y => y ≤ x) (by decide) rfl rfl ?_⟩
      rintro _ _ _ _ ⟨first⟩ ⟨second⟩
      exact agrees_bool (by simp [← Int16.not_lt, truncate_lt first second])
  | equality member =>
    fin_cases member
    · refine ⟨.eq, _, .equality true (by decide) rfl rfl (by decide) fun left right => ?_⟩
      obtain ⟨truth, equal, -, same⟩ := same_word left right
      rw [equal]
      exact agrees_bool (by simp [same])
    · refine ⟨.ne, _, .equality false (by decide) rfl rfl (by decide) fun left right => ?_⟩
      obtain ⟨truth, -, unequal, same⟩ := same_word left right
      rw [unequal]
      exact agrees_bool (by simp [same])

end Combines

/-- The operator in front of an operand is the primitive `p`, which turns a word into what `f` says, and
folding has the same values. -/
structure Turns (op : String) (t : Ty) (p : Primitive) (f : Word → Except Cause Word) : Prop where
  known : Generate.standardObject? (Check.unaryKey op) = some (.routine (.primitive p))
  takes : ∀ x n, Takes [.callPrim p] n [x] (f x)
  arithmetical : ∀ x, Arithmetical (f x)
  agrees : ∀ {l x}, l.Means t x → (ofUnary op l).Agrees t (f x)
  scalar : Generate.IsScalar t

theorem Turns.of_prefixed (typing : Check.Prefixed op t) : ∃ p f, Turns op t p f := by
  cases typing with
  | minus =>
    refine ⟨.neg, fun x => exactly (Word.sub? 0 x), by decide, fun _ _ => .callPrim (.stepping _),
      fun _ => arithmetical_exactly _, ?_, trivial⟩
    rintro _ _ ⟨_⟩
    exact agrees_ofWord? _
  | not =>
    refine ⟨.not, fun x => .ok (.ofBool (x == 0)), by decide, fun _ _ => .callPrim .not,
      fun _ => arithmetical_ok, ?_, trivial⟩
    rintro _ _ ⟨⟩
    rename_i b
    exact agrees_bool (by cases b <;> rfl)

/-- A conversion changes the type of a word and nothing else. -/
theorem agrees_chr (means : l.Means .integer w) : (ofCall "chr" l).Agrees .char (.ok w) := by
  cases means with
  | @int n fits =>
    by_cases range : 0 ≤ n ∧ n ≤ Word.greatest
    · have code : (Char.ofNat n.toNat).toNat = n.toNat := by
        simp only [Word.greatest] at range
        rw [Char.toNat_ofNat, if_pos (.inl (by omega))]
      have means := Literal.Means.char (c := Char.ofNat n.toNat) (by
        simp only [Word.greatest] at range
        omega)
      rw [code, Int.toNat_of_nonneg range.1] at means
      rw [ofCall, if_pos range]
      exact ⟨_, rfl, means⟩
    · rw [ofCall, if_neg range]
      trivial

theorem agrees_ord (means : l.Means .char w) : (ofCall "ord" l).Agrees .integer (.ok w) := by
  cases means with
  | @char c small =>
    rw [ofCall, if_pos (by simp only [Word.greatest]; omega)]
    exact ⟨_, rfl, .int ⟨by omega, by omega⟩⟩

/-! ## Expressions -/

/-- The folded expression is a literal only if the machine makes its word, and only a calculation that
fails has reports. -/
structure Folded (t : Ty) (folded : Tally Expr) (r : Except Cause Word) : Prop where
  literal : ∀ {l}, folded.value.literal? = some l → ∃ w, r = .ok w ∧ l.Means t w
  reported : folded.reports ≠ [] → ∃ cause, r = .error cause
  arithmetical : Arithmetical r

namespace Folded

variable {α : Type} {i : Info} {b : Binding}

theorem of_literal {e : Expr} (found : e.literal? = some l) (means : l.Means t w) :
    Folded t (pure e) (.ok w) where
  arithmetical := arithmetical_ok
  literal found' := by
    cases found.symm.trans found'
    exact ⟨w, rfl, means⟩
  reported some := absurd rfl some

theorem replace {e : Expr} {value : Value} (plain : e.literal? = none) (agrees : value.Agrees t r)
    (arithmetical : Arithmetical r) : Folded t (value.replace e) r where
  arithmetical := arithmetical
  literal {l} found := by
    cases value with
    | literal l' =>
      obtain rfl : l' = l := by cases l' <;> simpa [Value.replace, Tally.changed, Literal.toExpr,
        Expr.literal?] using found
      exact agrees
    | overflow | unknown => exact absurd (plain.symm.trans found) (by simp)
  reported some := by
    cases value with
    | overflow => exact ⟨_, agrees⟩
    | literal | unknown => exact absurd rfl some

/-- What is reported earlier is of a calculation that fails. -/
theorem after {x : Tally α} {f : α → Tally Expr} (folded : Folded t (f x.value) r)
    (earlier : x.reports ≠ [] → ∃ cause, r = .error cause) : Folded t (x >>= f) r where
  arithmetical := folded.arithmetical
  literal := folded.literal
  reported some := by
    by_cases none : x.reports = []
    · refine folded.reported fun rest => some ?_
      change x.reports ++ (f x.value).reports = []
      rw [none, rest, List.append_nil]
    · exact earlier none

theorem agrees_valueIf {value : Option Value} (standard : b.isStandard = true)
    (agrees : ∀ v, value = some v → v.Agrees t r) : (valueIf (some b) value).Agrees t r := by
  simp only [valueIf, Option.any_some, standard, ↓reduceIte]
  cases value with
  | none => trivial
  | some v => exact agrees v rfl

theorem unary {f : Word → Except Cause Word} {folded : Tally Expr} (standard : b.isStandard = true)
    (inner : Folded t folded r) (turns : Turns op t p f) :
    Folded t (folded >>= fun e => foldUnary i (some b) op e) (r >>= f) := by
  refine after (replace rfl (agrees_valueIf standard fun v same => ?_)
    (inner.arithmetical.bind turns.arithmetical)) fun some => error_bind (inner.reported some)
  obtain ⟨l, found, rfl⟩ := Option.map_eq_some_iff.mp same
  obtain ⟨w, rfl, means⟩ := inner.literal found
  exact turns.agrees means

theorem binary {f : Word → Word → Except Cause Word} {first second : Tally Expr}
    (standard : b.isStandard = true) (left : Folded u first rl) (right : Folded v second rr)
    (combines : Combines op u v t p f) :
    Folded t (first >>= fun l => second >>= fun r => foldBinary i (some b) op l r)
      (rl >>= fun x => rr >>= fun y => f x y) := by
  refine after (after (replace rfl (agrees_valueIf standard fun v same => ?_)
    (left.arithmetical.bind fun x => right.arithmetical.bind (combines.arithmetical x)))
    fun some => ?_) fun some => error_bind (left.reported some)
  · obtain ⟨l, found, rest⟩ := Option.bind_eq_some_iff.mp same
    obtain ⟨l', found', same⟩ := Option.bind_eq_some_iff.mp rest
    cases same
    obtain ⟨x, rfl, means⟩ := left.literal found
    obtain ⟨y, rfl, means'⟩ := right.literal found'
    exact combines.agrees means means'
  · cases rl with
    | error cause => exact ⟨cause, rfl⟩
    | ok x =>
      obtain ⟨cause, rfl⟩ := right.reported some
      exact ⟨cause, rfl⟩

theorem convert {name : String} {folded : Tally Expr} {j : Info} {wrapped : Tally (List Arg)}
    (standard : b.isStandard = true) (inner : Folded u folded r)
    (same : wrapped.value = [.value j folded.value]) (reports : wrapped.reports = folded.reports)
    (agrees : ∀ {l w}, l.Means u w → (ofCall name l).Agrees t (.ok w)) :
    Folded t (wrapped >>= fun as => foldCall i (some b) name as) r := by
  refine after (replace rfl (agrees_valueIf standard fun v same' => ?_) inner.arithmetical)
    fun some => inner.reported (reports ▸ some)
  rw [same] at same'
  obtain ⟨l, found, rfl⟩ := Option.map_eq_some_iff.mp same'
  obtain ⟨w, rfl, means⟩ := inner.literal found
  exact agrees means

end Folded

end Optimize.Fold
end Triangle
