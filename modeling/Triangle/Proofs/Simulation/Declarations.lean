import Mathlib
import Triangle.Proofs.Simulation.Expressions

/-! Declarations of constants, variables and types, and the blocks they open. -/
namespace Triangle
open List

open Generate (bind_ok moveTo_ok pure_ok offset_ok emit_ok within_ok)
open Machine Semantics Code

namespace Scene

variable {S : Setting} {n a : Nat} {sc : Scene S n} {s : Semantics.State}
  {st : Generate.State} {α : Type}

/-- A new name for a value or a variable. -/
def bindValue (sc : Scene S n) (x : String) (t : Ty) (b : Binding) (e : Generate.Entity)
    (m : Semantics.Meaning) (constant : Bool) (plain : t.isFunc = false)
    (rel : Setting.EntityRel sc.world sc.bases t.deref e 0 m)
    (assignable : constant = false → ∃ p, m = .place p) : Scene S n :=
  { sc with
    types := { sc.types with terms := sc.types.terms.insert x ⟨.typed t b, constant⟩ }
    env := { sc.env with locals := sc.env.locals.insert x ⟨e, constant⟩ }
    names := (x, m) :: sc.names
    frames := { sc.frames with locals := by simpa using sc.frames.locals }
    related := sc.related.bindValue x plain rel assignable }

def bindType (sc : Scene S n) (x : String) (t : Ty) : Scene S n :=
  { sc with types := sc.types.addType x t, related := { sc.related with } }

/-- The offset of the next word from the base of the frame. -/
theorem Aligned.exact (aligned : sc.Aligned st) (fits : sc.world.size ≤ dataSize) :
    (sc.lb : Int) + st.offset = sc.world.size := by
  have base := sc.frames.base_le
  rw [dataSize] at fits
  rw [aligned, wrap64_eq (by omega) (by omega)]
  omega

theorem base_found (sc : Scene S n) : sc.bases[0]? = some sc.lb := by
  rw [← head?_eq_getElem?]
  exact sc.frames.first

end Scene

theorem Ty.IsValue.isFunc {t : Ty} (value : t.IsValue) : t.isFunc = false := by
  rw [Ty.isFunc, value.deref]
  cases t with
  | func => simp [Ty.IsValue] at value
  | _ => rfl

namespace Setting

variable {S : Setting} {n a : Nat} {sc : Scene S n} {s : Semantics.State}
  {st st' : Generate.State}

/-! ## Constants, variables and types -/

theorem literal_value {types : Check.Env} {value : Expr} {t : Ty} {l : Literal}
    (typed : Check.ExprTyped types value t) (found : value.literal? = some l) :
    ∃ v : Value, (∀ calls names s, Semantics.expr calls names value s = .ok v s) ∧
      t.deref.IsValue ∧ t.deref.trueSize = 1 ∧
      (-0x8000 ≤ l.word → l.word < 0x8000 → v.HasTy t.deref ∧ v.words = [.truncate l.word]) := by
  cases value with
  | int i k =>
    obtain ⟨-, rfl, -⟩ := typed
    cases found
    exact ⟨.int (.truncate k), fun _ _ _ => rfl, trivial, rfl, fun _ _ => ⟨trivial, rfl⟩⟩
  | char i c =>
    obtain ⟨-, rfl⟩ := typed
    cases found
    exact ⟨.char c.toNat, fun _ _ _ => rfl, trivial, rfl, fun lower upper => ⟨⟨lower, upper⟩, rfl⟩⟩
  | bool i b =>
    obtain ⟨-, rfl⟩ := typed
    cases found
    exact ⟨.bool b, fun _ _ _ => rfl, trivial, rfl, fun _ _ => ⟨trivial, by cases b <;> rfl⟩⟩
  | _ =>
    simp [Expr.literal?] at found

theorem DeclRuns.const {value : Expr} (runs : S.ExprRuns value) (i : Info) (name : String) :
    S.DeclRuns (.const i name value) := by
  intro n sc next env' st st' items a s typed clean aligned done placed stored
  obtain ⟨t, typed, -, -, rfl⟩ := typed
  simp only [Decl.nodes, clean_cons] at clean
  simp only [Generate.decl, bind_ok, moveTo_ok] at done
  obtain ⟨_, _, rfl, done⟩ := done
  have aligned : sc.Aligned (st.moved i.pos) := by simpa using aligned
  rw [Semantics.decl]
  cases literal : value.literal? with
  | some l =>
    simp only [literal, pure_ok, Prod.mk.injEq] at done
    obtain ⟨⟨rfl, rfl⟩, rfl⟩ := done
    obtain ⟨v, evaluated, value, one, fits⟩ := literal_value typed literal
    rw [Result.bind_ok (evaluated _ _ _)]
    have rel : EntityRel sc.world sc.bases t.deref.deref (.known l.word) 0 (.value v) := by
      rw [value.deref]
      exact ⟨v, rfl, value, one, fits⟩
    exact .done ⟨sc.bindValue name t.deref _ _ _ true value.isFunc rel (by simp),
      ⟨⟨[], (append_nil _).symm⟩, rfl, rfl, rfl, rfl⟩, aligned, stored, rfl⟩
  | none =>
    simp only [literal, bind_ok, offset_ok, pure_ok, Prod.mk.injEq] at done
    obtain ⟨_, _, ⟨rfl, rfl⟩, code, _, made, ⟨rfl, rfl⟩, rfl⟩ := done
    refine Scene.fitting stored fun fits => ?_
    refine (runs sc typed clean.2 aligned made placed stored).bind ?_
    rintro v s' _ ⟨kind, stored', rfl⟩
    have rel : EntityRel (sc.push v.words).world (sc.push v.words).bases t.deref.deref
        (.stored (st.moved i.pos).offset) 0 (.value v) :=
      ⟨sc.lb, sc.world.size, sc.base_found, aligned.exact fits, by rwa [kind.isValue.deref],
        .pushed _ _⟩
    exact .done ⟨(sc.push v.words).bindValue name t.deref _ _ _ true kind.isValue.isFunc rel (by simp),
      ⟨⟨[.fixed v.words], rfl⟩, rfl, rfl, rfl, rfl⟩,
      aligned.expr typed (clean.2.small typed) made kind, Scene.stored_push.mpr stored', rfl⟩

/-- A new variable lies on top of the world. -/
theorem allocate_runs {t : Ty} {p : Place} {s' : Semantics.State} (value : t.IsValue)
    (stored : sc.world.Stored s.store) (created : allocate (.zero t) s = .ok p s') :
    World.PlaceAt (sc.world ++ [.cell t]) p t sc.world.size ∧
      World.Stored (sc.world ++ [.cell t]) s'.store ∧
      (sc.extend [.cell t]).view s' a =
        s.view a sc.lb (sc.world.content s.store ++ replicate t.trueSize 0) := by
  obtain ⟨typed, words⟩ := Value.zero_layout value
  cases created
  refine ⟨?_, stored.append (.cons typed .nil), ?_⟩
  · rw [stored.length]
    exact .created _ _
  · simp only [Scene.view, Scene.extend, State.view, World.content_append stored, World.content,
      words, append_nil]

theorem DeclRuns.var (i : Info) (name : String) (sig : Sig) : S.DeclRuns (.var i name sig) := by
  intro n sc next env' st st' items a s typed clean aligned done placed stored
  obtain ⟨t, value, slot, rfl⟩ := typed
  simp only [Decl.nodes, clean_cons] at clean
  have small : t.trueSize < 0x8000 := by
    have bound := clean.1.1 t slot
    rwa [value.deref] at bound
  simp only [Generate.decl, bind_ok, moveTo_ok, offset_ok,
    Generate.typeOf_ok, slot, Option.some.injEq, pure_ok, Prod.mk.injEq] at done
  obtain ⟨_, _, rfl, _, _, ⟨rfl, rfl⟩, _, _, ⟨rfl, rfl⟩, code, _, made, ⟨rfl, rfl⟩, rfl⟩ := done
  have aligned : sc.Aligned (st.moved i.pos) := by simpa using aligned
  rw [Ty.size_eq value small] at made
  have shifts := Generate.emit_shifts aligned.settled made
  obtain ⟨rfl, -⟩ := emit_ok made
  obtain ⟨p, s', created⟩ : ∃ p s', allocate (.zero t) s = .ok p s' := ⟨_, _, rfl⟩
  obtain ⟨placeAt, stored', view⟩ :=
    @allocate_runs S n (a + span [.push t.trueSize]) sc s t p s' value stored created
  rw [Semantics.decl]
  simp only [slot]
  rw [Result.bind_ok created]
  refine Scene.fitting stored fun fits => S.push placed (.done ?_)
  have rel : EntityRel (sc.extend [.cell t]).world (sc.extend [.cell t]).bases t.deref
      (.stored (st.moved i.pos).offset) 0 (.place p) :=
    ⟨sc.lb, sc.world.size, sc.base_found, aligned.exact fits, by rwa [value.deref]⟩
  refine ⟨(sc.extend [.cell t]).bindValue name t _ _ _ false value.isFunc rel fun _ => ⟨p, rfl⟩,
    ⟨⟨[.cell t], rfl⟩, rfl, rfl, rfl, rfl⟩, aligned.extend shifts rfl, stored', view.symm⟩

theorem DeclRuns.type (i : Info) (name : String) (sig : Sig) : S.DeclRuns (.type i name sig) := by
  intro n sc next env' st st' items a s typed clean aligned done placed stored
  obtain ⟨t, rfl⟩ := typed
  simp only [Generate.decl, bind_ok, moveTo_ok, pure_ok, Prod.mk.injEq] at done
  obtain ⟨_, _, rfl, ⟨rfl, rfl⟩, rfl⟩ := done
  exact .done ⟨sc.bindType name t, ⟨⟨[], (append_nil _).symm⟩, rfl, rfl, rfl, rfl⟩,
    Scene.aligned_moved.mpr aligned, stored, rfl⟩

/-! ## Blocks -/

theorem decls_run {ds : List Decl} {final : Check.Env} {env' : Generate.Env} {items : List Item}
    (each : ∀ d ∈ ds, S.DeclRuns d) (typed : Check.DeclsTyped sc.types ds final)
    (clean : S.Clean (Decl.listNodes ds)) (aligned : sc.Aligned st)
    (done : Generate.decls sc.env ds st = .ok (env', items) st') (placed : S.At a items)
    (stored : sc.world.Stored s.store) :
    S.Follows n (sc.view s a) (Semantics.decls (call n) sc.names ds s)
      fun names s' view => ∃ sc' : Scene S n, sc.Grown sc' final env' names ∧ sc'.Aligned st' ∧
        sc'.world.Stored s'.store ∧ view = sc'.view s' (a + span items) := by
  induction ds generalizing sc st items a s with
  | nil =>
    subst typed
    obtain ⟨⟨rfl, rfl⟩, rfl⟩ := done
    exact .done ⟨sc, ⟨⟨[], (append_nil _).symm⟩, rfl, rfl, rfl, rfl⟩, aligned, stored, rfl⟩
  | cons d ds ih =>
    obtain ⟨next, headTyped, tailTyped⟩ := typed
    simp only [Decl.listNodes, clean_append] at clean
    simp only [Generate.decls, bind_ok, pure_ok, Prod.mk.injEq] at done
    obtain ⟨⟨env, first⟩, _, headDone, ⟨_, rest⟩, _, tailDone, ⟨rfl, rfl⟩, rfl⟩ := done
    obtain ⟨headPlaced, tailPlaced⟩ := placed_append.mp placed
    refine (each d mem_cons_self sc headTyped clean.1 aligned headDone headPlaced stored).bind ?_
    rintro names s' _ ⟨sc', grown, aligned', stored', rfl⟩
    obtain ⟨⟨x, world⟩, lb, rfl, rfl, rfl⟩ := grown
    refine (ih (fun d member => each d (mem_cons_of_mem _ member)) tailTyped clean.2 aligned'
      tailDone tailPlaced stored').mono ?_
    rintro names s'' _ ⟨sc'', ⟨⟨y, world'⟩, lb', types, env, names'⟩, aligned'', stored'', rfl⟩
    refine ⟨sc'', ⟨⟨x ++ y, ?_⟩, lb'.trans lb, types, env, names'⟩, aligned'', stored'', ?_⟩
    · rw [world', world, append_assoc]
    · rw [span_append, Nat.add_assoc]

/-- How far the stack grows inside a block. -/
theorem allocated_eq {sc' : Scene S n} {x : World} (before : sc.Aligned st) (after : sc'.Aligned st')
    (world : sc'.world = sc.world ++ x) (lb : sc'.lb = sc.lb) (fits : sc'.world.size ≤ dataSize) :
    wrap64 (st'.offset - st.offset) = x.size := by
  have size : sc'.world.size = sc.world.size + x.size := by rw [world, World.size_append]
  have first := before.exact (by omega)
  have last := after.exact fits
  rw [dataSize] at fits
  rw [wrap64_eq (by omega) (by omega)]
  omega

/-- At the end of a block the variables declared in it are gone from under the result. -/
theorem leave_runs {α : Type} {sc' : Scene S n} {x : World} {ws : List Word} {k d : Int}
    {s' : Semantics.State} {result : EStateM.Result Stop Semantics.State α}
    {after : α → Semantics.State → View → Prop} (world : sc'.world = sc.world ++ x)
    (lb : sc'.lb = sc.lb) (stored : sc.world.Stored s.store) (stored' : sc'.world.Stored s'.store)
    (placed : S.At a [.pop k d]) (count : k = ws.length) (depth : d = x.size)
    (rest : ∀ left, left = { s' with store := s'.store.take s.store.length } →
      sc.world.Stored left.store →
      S.Follows n ((sc.push ws).view left (a + span [.pop k d])) result after) :
    S.Follows n ((sc'.push ws).view s' a) result after := by
  rw [Scene.view_push stored', world, lb]
  rw [world] at stored'
  obtain ⟨older, gone, length, split⟩ := stored'.older
  rw [← stored.length] at older split
  have follows := rest _ rfl older
  rw [Scene.view_push older] at follows
  rw [split]
  exact S.pop placed count (by rw [depth, length]) follows

theorem inScope_eq {α : Type} (x : Run α) (s : Semantics.State) :
    inScope x s = (x >>= fun v => do
      modify fun s' => { s' with store := s'.store.take s.store.length }
      return v) s := rfl

theorem ExprRuns.letIn {ds : List Decl} {body : Expr} (each : ∀ d ∈ ds, S.DeclRuns d)
    (runs : S.ExprRuns body) (i : Info) : S.ExprRuns (.letIn i ds body) := by
  intro n sc t st st' items a s typed clean aligned done placed stored
  have small := clean.small typed
  obtain ⟨slot, inner, u, declsTyped, bodyTyped, rfl⟩ := typed
  simp only [Expr.nodes, cons_append, clean_cons, clean_append] at clean
  simp only [Generate.expr, bind_ok, moveTo_ok, offset_ok, Generate.setOffset_ok, pure_ok] at done
  obtain ⟨_, _, rfl, _, _, ⟨rfl, rfl⟩, code, _, block, -, -, -, -, -, -, rfl, -⟩ := done
  obtain ⟨final, filled, -⟩ := within_ok block
  simp only [bind_ok, offset_ok, Generate.sizeOf_ok, slot, Option.some.injEq, pure_ok] at filled
  obtain ⟨⟨env', storage⟩, middle, declared, _, _, ⟨rfl, rfl⟩, value, _, made, _, _,
    ⟨_, rfl, rfl, rfl⟩, drop, _, dropped, rfl, rfl⟩ := filled
  obtain ⟨rfl, -⟩ := emit_ok dropped
  simp only [placed_append, span_append, ← Nat.add_assoc] at placed ⊢
  obtain ⟨⟨storagePlaced, valuePlaced⟩, dropPlaced⟩ := placed
  have aligned : sc.Aligned (st.moved i.pos) := by simpa using aligned
  have entered : sc.enterBlock.Aligned ((st.moved i.pos).reset (st.moved i.pos).offset) :=
    aligned.reset
  rw [Semantics.expr, inScope_eq, bind_assoc]
  refine (decls_run each declsTyped clean.2.1 entered declared storagePlaced stored).bind ?_
  rintro names s' _ ⟨sc', ⟨⟨x, world⟩, lb, rfl, rfl, rfl⟩, aligned', stored', rfl⟩
  refine Scene.fitting stored' fun fits => ?_
  refine (runs sc' bodyTyped clean.2.2 aligned' made valuePlaced stored').bind ?_
  rintro v s'' _ ⟨kind, stored'', rfl⟩
  have itself := kind.isValue.deref
  refine leave_runs world lb stored stored'' dropPlaced ?_ (allocated_eq aligned aligned' world lb fits)
    ?_
  · rw [itself]
    exact Scene.size_eq kind (by rwa [itself] at small)
  · rintro _ rfl older
    exact .done ⟨by rwa [itself], older, rfl⟩

theorem StmtRuns.letIn {ds : List Decl} {body : Stmt} (each : ∀ d ∈ ds, S.DeclRuns d)
    (runs : S.StmtRuns body) (i : Info) : S.StmtRuns (.letIn i ds body) := by
  intro n sc st st' items a s typed clean aligned done placed stored
  obtain ⟨inner, declsTyped, bodyTyped⟩ := typed
  simp only [Stmt.nodes, cons_append, clean_cons, clean_append] at clean
  simp only [Generate.stmt, bind_ok, moveTo_ok, offset_ok] at done
  obtain ⟨_, _, rfl, _, _, ⟨rfl, rfl⟩, block⟩ := done
  obtain ⟨final, filled, -⟩ := within_ok block
  simp only [bind_ok, offset_ok, pure_ok] at filled
  obtain ⟨⟨env', storage⟩, middle, declared, _, _, ⟨rfl, rfl⟩, code, _, made, drop, _, dropped, rfl,
    rfl⟩ := filled
  obtain ⟨rfl, -⟩ := emit_ok dropped
  simp only [placed_append, span_append, ← Nat.add_assoc] at placed ⊢
  obtain ⟨⟨storagePlaced, codePlaced⟩, dropPlaced⟩ := placed
  have aligned : sc.Aligned (st.moved i.pos) := by simpa using aligned
  have entered : sc.enterBlock.Aligned ((st.moved i.pos).reset (st.moved i.pos).offset) :=
    aligned.reset
  rw [Semantics.stmt, inScope_eq, bind_assoc]
  refine (decls_run each declsTyped clean.2.1 entered declared storagePlaced stored).bind ?_
  rintro names s' _ ⟨sc', ⟨⟨x, world⟩, lb, rfl, rfl, rfl⟩, aligned', stored', rfl⟩
  refine Scene.fitting stored' fun fits => ?_
  refine (runs sc' bodyTyped clean.2.2 aligned' made codePlaced stored').bind ?_
  rintro _ s'' _ ⟨stored'', rfl⟩
  rw [← Scene.view_push_nil stored'']
  refine leave_runs world lb stored stored'' dropPlaced rfl (allocated_eq aligned aligned' world lb fits)
    ?_
  rintro _ rfl older
  exact .done ⟨older, Scene.view_push_nil older⟩

end Setting
end Triangle
