import Mathlib
import Triangle.Proofs.Simulation.Relation
import Triangle.Tree.Nodes

/-! A point of a run: a world, the frames that are open and the names that are known there. What it
means for the code of a tree to do what the tree says is stated over all such points. -/
namespace Triangle
open Machine Semantics Code

/-! ## Trees -/

namespace Setting

/-- The conditions on a node: its values are not too large, only a routine that the setting has is
declared, and an operator is a standard one where there are routines. -/
def Allows (S : Setting) (node : Node) : Prop :=
  (∀ t, node.info.ty = some t → t.deref.trueSize < 0x8000) ∧
    match node with
    | .expr (.subscript _ _ _) => S.leaves
    | .expr (.unary _ decl _ _) => S.routines → ∀ b, decl = some b → b.isStandard = true
    | .expr (.binary _ decl _ _ _) => S.routines → ∀ b, decl = some b → b.isStandard = true
    | .decl (.func _ _ _ _ _) => S.routines
    | .decl (.proc _ _ _ _) => S.routines
    | _ => True

def Clean (S : Setting) (nodes : List Node) : Prop := ∀ node ∈ nodes, S.Allows node

@[simp] theorem clean_cons {S : Setting} {node : Node} {nodes : List Node} :
    S.Clean (node :: nodes) ↔ S.Allows node ∧ S.Clean nodes := by
  simp [Clean]

@[simp] theorem clean_append {S : Setting} {nodes more : List Node} :
    S.Clean (nodes ++ more) ↔ S.Clean nodes ∧ S.Clean more := by
  simp only [Clean, List.mem_append, or_imp, forall_and]

end Setting

/-! ## Points -/

/-- A point of a run with at most `n` nested calls to go. -/
structure Scene (S : Setting) (n : Nat) where
  world : World
  lb : Nat
  bases : List Nat
  types : Check.Env
  env : Generate.Env
  names : Semantics.Env
  frames : Setting.Frames world env lb bases
  related : S.Related n world bases types env names

namespace Scene

variable {S : Setting} {n k : Nat} {s : Semantics.State} {st st' : Generate.State} {ws : List Word}

/-- What shows of a machine that runs at address `a`. -/
def view (sc : Scene S n) (s : Semantics.State) (a : Nat) : View :=
  s.view a sc.lb (sc.world.content s.store)

def extend (sc : Scene S n) (x : World) : Scene S n :=
  { sc with
    world := sc.world ++ x
    frames := sc.frames.extend x
    related := sc.related.extend x }

/-- With words on top that do not change. -/
def push (sc : Scene S n) (ws : List Word) : Scene S n := sc.extend [.fixed ws]

def fewer (sc : Scene S n) (less : k ≤ n) : Scene S k :=
  { sc with related := sc.related.fewer less }

@[simp] theorem stored_push {sc : Scene S n} {store : Semantics.Store} :
    (sc.push ws).world.Stored store ↔ sc.world.Stored store := by
  simp [push, extend, World.Stored, World.cells]

theorem view_push {sc : Scene S n} (stored : sc.world.Stored s.store) (a : Nat) :
    (sc.push ws).view s a = s.view a sc.lb (sc.world.content s.store ++ ws) := by
  simp [Scene.view, push, extend, World.content_fixed stored]

/-- The generator knows how far the stack reaches. -/
def Aligned (sc : Scene S n) (st : Generate.State) : Prop :=
  st.offset = wrap64 (sc.world.size - sc.lb)

theorem Aligned.settled {sc : Scene S n} (aligned : sc.Aligned st) : st.Settled := by
  rw [Generate.State.Settled, aligned, wrap64_wrap64]

@[simp] theorem aligned_moved {sc : Scene S n} {p : Pos} :
    sc.Aligned (st.moved p) ↔ sc.Aligned st := by
  simp [Aligned]

@[simp] theorem aligned_numbered {sc : Scene S n} : sc.Aligned st.numbered ↔ sc.Aligned st := Iff.rfl

theorem Aligned.extend {sc : Scene S n} {x : World} (aligned : sc.Aligned st)
    (shifts : st.Shifts j st') (length : j = x.size) : (sc.extend x).Aligned st' := by
  unfold Aligned at aligned ⊢
  rw [shifts, aligned, wrap64_add_left, length]
  congr 1
  simp [Scene.extend]
  omega

theorem Aligned.push {sc : Scene S n} (aligned : sc.Aligned st) (shifts : st.Shifts j st')
    (length : j = ws.length) : (sc.push ws).Aligned st' :=
  aligned.extend shifts length

theorem Aligned.same {sc : Scene S n} (aligned : sc.Aligned st) (shifts : st.Shifts 0 st') :
    sc.Aligned st' := by
  unfold Aligned at aligned ⊢
  rw [shifts, aligned, wrap64_add_left, Int.add_zero]

theorem Aligned.reset {sc : Scene S n} (aligned : sc.Aligned st) :
    sc.Aligned (st'.reset st.offset) := by
  unfold Aligned at aligned ⊢
  rw [Generate.State.offset_reset, aligned, wrap64_wrap64]

theorem knownFit (sc : Scene S n) : Generate.KnownFit sc.types sc.env := by
  intro name value depth t b known bound plain
  obtain ⟨m, e, depth', meaning, found, rel, -⟩ := sc.related.value bound plain
  rw [known] at found
  cases found
  obtain ⟨v, -, value, length, -⟩ := rel
  rw [Ty.size_eq value (by omega), length]
  rfl

/-- A value on top of the world. -/
def Pushed (sc : Scene S n) (a : Nat) (t : Ty) (v : Value) (s : Semantics.State) (v' : View) :
    Prop :=
  v.HasTy t ∧ sc.world.Stored s.store ∧ v' = (sc.push v.words).view s a

theorem size_eq {t : Ty} {v : Value} (typed : v.HasTy t) (small : t.trueSize < 0x8000) :
    t.size = v.words.length := by
  rw [Ty.size_eq typed.isValue small, typed.length]

theorem Aligned.expr {sc : Scene S n} {e : Expr} {t : Ty} {v : Value} (aligned : sc.Aligned st)
    (exprTyped : Check.ExprTyped sc.types e t) (small : t.deref.trueSize < 0x8000)
    (done : Generate.expr sc.env e st = .ok items st') (typed : v.HasTy t.deref) :
    (sc.push v.words).Aligned st' :=
  aligned.push (Generate.expr_shifts sc.knownFit exprTyped aligned.settled done)
    (size_eq typed small)

theorem Aligned.stmt {sc : Scene S n} {c : Stmt} (aligned : sc.Aligned st)
    (typed : Check.StmtTyped sc.types c) (done : Generate.stmt sc.env c st = .ok items st') :
    sc.Aligned st' :=
  aligned.same (Generate.stmt_shifts sc.knownFit typed aligned.settled done)

/-- A location stands for an address, with words on top of the world. -/
def LocatedAt (sc : Scene S n) : Generate.Location → Nat → List Word → Prop
  | .inFrame r disp, addr, ws => ws = [] ∧ ∃ (b depth : Nat), Generate.RegisterOf sc.env depth r ∧
      sc.bases[depth]? = some b ∧ (b : Int) + disp = addr
  | .onStack disp, addr, ws => ∃ base : Nat, ws = [.truncate base] ∧ base ≤ addr ∧
      (base : Int) + disp = addr

/-- The second point comes after the first, in the same frame and with these names. -/
structure Grown (sc sc' : Scene S n) (types : Check.Env) (env : Generate.Env)
    (names : Semantics.Env) : Prop where
  world : ∃ x, sc'.world = sc.world ++ x
  lb : sc'.lb = sc.lb
  types : sc'.types = types
  env : sc'.env = env
  names : sc'.names = names

def enterBlock (sc : Scene S n) : Scene S n :=
  { sc with
    types := sc.types.enterBlock
    env := sc.env.enterBlock
    frames := { sc.frames with
      locals := by simpa [Generate.Env.enterBlock] using sc.frames.locals
      callables := by simpa [Generate.Env.enterBlock] using sc.frames.callables }
    related := sc.related.enterBlock }

end Scene

/-! ## What trees do -/

namespace Setting

/-- The code of an expression pushes its value. -/
def ExprRuns (S : Setting) (e : Expr) : Prop :=
  ∀ {n : Nat} (sc : Scene S n) {t st st' items a s}, Check.ExprTyped sc.types e t →
    S.Clean e.nodes → sc.Aligned st → Generate.expr sc.env e st = .ok items st' → S.At a items →
    sc.world.Stored s.store →
      S.Follows n (sc.view s a) (Semantics.expr (call n) sc.names e s)
        (sc.Pushed (a + span items) t.deref)

/-- The code of a statement changes variables only. -/
def StmtRuns (S : Setting) (c : Stmt) : Prop :=
  ∀ {n : Nat} (sc : Scene S n) {st st' items a s}, Check.StmtTyped sc.types c →
    S.Clean c.nodes → sc.Aligned st → Generate.stmt sc.env c st = .ok items st' → S.At a items →
    sc.world.Stored s.store →
      S.Follows n (sc.view s a) (Semantics.stmt (call n) n sc.names c s)
        fun _ s' view => sc.world.Stored s'.store ∧ view = sc.view s' (a + span items)

/-- The code of a variable finds its address. -/
def LocateRuns (S : Setting) (e : Expr) : Prop :=
  ∀ {n : Nat} (sc : Scene S n) {t st st' items loc a s}, Check.ExprTyped sc.types e t →
    S.Clean e.nodes → sc.Aligned st → Generate.locate sc.env e st = .ok (items, loc) st' →
    S.At a items → sc.world.Stored s.store →
      S.Follows n (sc.view s a) (Semantics.locate (call n) sc.names e s)
        fun m s' view => ∃ addr ws, sc.world.Holds m t.deref addr ∧ sc.LocatedAt loc addr ws ∧
          (∀ x, e.root? = some x → sc.types.terms.isConst x = false → ∃ p, m = .place p) ∧
          sc.world.Stored s'.store ∧ view = (sc.push ws).view s' (a + span items)

/-- The code of an argument pushes the words that are passed for it. -/
def ArgRuns (S : Setting) (arg : Arg) : Prop :=
  ∀ {n : Nat} (sc : Scene S n) {want st st' items a s}, Check.ArgTyped sc.types arg want →
    want.Proper → S.Clean arg.nodes → sc.Aligned st →
    Generate.arg sc.env arg st = .ok items st' → S.At a items → sc.world.Stored s.store →
      S.Follows n (sc.view s a) (Semantics.arg (call n) sc.names arg s)
        fun m s' view => ∃ ws, S.ArgRel n (sc.push ws).world want m ws ∧
          (sc.push ws).Aligned st' ∧ sc.world.Stored s'.store ∧
          view = (sc.push ws).view s' (a + span items)

/-- The code of a declaration makes room for what it declares. -/
def DeclRuns (S : Setting) (d : Decl) : Prop :=
  ∀ {n : Nat} (sc : Scene S n) {next env' st st' items a s}, Check.DeclTyped sc.types d next →
    S.Clean d.nodes → sc.Aligned st → Generate.decl sc.env d st = .ok (env', items) st' →
    S.At a items → sc.world.Stored s.store →
      S.Follows n (sc.view s a) (Semantics.decl (call n) sc.names d s)
        fun names s' view => ∃ sc' : Scene S n, sc.Grown sc' next env' names ∧ sc'.Aligned st' ∧
          sc'.world.Stored s'.store ∧ view = sc'.view s' (a + span items)

end Setting
end Triangle
