import Mathlib
import Triangle.Proofs.Json.ReadBack
import Triangle.Proofs.Text.Utf8
import Triangle.Proofs.Tree.Induction
import Triangle.Proofs.Tree.Reading

/-! Decoding undoes encoding: the text of a program is read as the program. -/
namespace Triangle

namespace Encoding
open Json (Shaped)
open List (cons_append forall_mem_cons forall_mem_append)

/-! ## The shapes of written trees -/

/-- Members of the shapes that go with their keys, which are among `keys` in their order. -/
structure Written (part : Part) (keys : List String) (ms : List (String × Json)) : Prop where
  each : ∀ m ∈ ms, ∃ shape, part.shape? m.1 = some shape ∧ Shaped shape m.2
  order : (ms.map Prod.fst).Sublist keys

namespace Written

variable {part : Part} {keys : List String} {ms : List (String × Json)} {key : String}

theorem nil : Written part [] [] := ⟨by simp, .slnil⟩

theorem cons {shape : Shape} {j : Json} (known : part.shape? key = some shape)
    (shaped : Shaped shape j) (rest : Written part keys ms) :
    Written part (key :: keys) ((key, j) :: ms) :=
  ⟨forall_mem_cons.mpr ⟨⟨shape, known, shaped⟩, rest.each⟩, rest.order.cons_cons key⟩

/-- A member may be left out. -/
theorem skip (rest : Written part keys ms) : Written part (key :: keys) ms :=
  ⟨rest.each, rest.order.cons key⟩

theorem text (known : part.shape? key = some .text) (value : String) (rest : Written part keys ms) :
    Written part (key :: keys) (textMember key value ++ ms) := by
  unfold textMember
  split
  · exact rest.skip
  · exact rest.cons known (.text value)

theorem coordinate {n : Int} (known : part.shape? key = some .coordinate)
    (fits : Text.Numeral.Fits 64 n) (rest : Written part keys ms) :
    Written part (key :: keys) (coordinate key n ++ ms) := by
  unfold Encoding.coordinate
  split
  · exact rest.skip
  · exact rest.cons known (.coordinate fits)

theorem list {inner : Part} {items : List Json} (known : part.shape? key = some (.list inner))
    (each : ∀ x ∈ items, Shaped (.object inner) x) (rest : Written part keys ms) :
    Written part (key :: keys) (listMember key items ++ ms) := by
  unfold listMember
  split
  · exact rest.skip
  · exact rest.cons known (.list each)

theorem lastText (known : part.shape? key = some .text) (value : String) :
    Written part [key] (textMember key value) :=
  List.append_nil (textMember key value) ▸ text known value nil

theorem lastList {inner : Part} {items : List Json} (known : part.shape? key = some (.list inner))
    (each : ∀ x ∈ items, Shaped (.object inner) x) : Written part [key] (listMember key items) :=
  List.append_nil (listMember key items) ▸ list known each nil

theorem shaped (written : Written part keys ms) (distinct : keys.Nodup := by decide) :
    Shaped (.object part) (.obj ms) := by
  refine .object (fun m member => ?_) (fun m member shape known => ?_)
    (written.order.nodup distinct)
  · obtain ⟨shape, known, -⟩ := written.each m member
    rw [known]
    rfl
  · obtain ⟨_, known', shaped⟩ := written.each m member
    rw [known] at known'
    cases known'
    exact shaped

/-- A node with its kind and position in front. -/
theorem node {n : Node} (written : Written .node keys ms) (writable : n.Writable) {kind : String}
    (distinct : ("kind" :: "line" :: "column" :: keys).Nodup := by decide) :
    Shaped (.object .node) (node kind n.info.pos ms) := by
  rw [Encoding.node, List.append_assoc, cons_append]
  exact (cons rfl (.text kind) (coordinate rfl writable.1
    (coordinate rfl writable.2.1 written))).shaped distinct

end Written

mutual
theorem sig_shaped (s : Sig) (writable : ∀ n ∈ s.nodes, n.Writable) :
    Shaped (.object .node) s.toJson := by
  cases s with
  | named i name =>
    simp only [Sig.nodes, forall_mem_cons] at writable
    exact (Written.lastText rfl name).node writable.1
  | array i length elem =>
    simp only [Sig.nodes, forall_mem_cons] at writable
    exact (Written.cons rfl (.int writable.1.2.2) (.cons rfl (sig_shaped elem writable.2)
      .nil)).node writable.1
  | record i fields =>
    simp only [Sig.nodes, forall_mem_cons] at writable
    exact (Written.lastList rfl (sigFields_shaped fields writable.2)).node writable.1

theorem sigFields_shaped : ∀ fs : List (String × Sig), (∀ n ∈ Sig.fieldNodes fs, n.Writable) →
    ∀ x ∈ Sig.fieldsToJson fs, Shaped (.object .field) x
  | [], _ => by simp [Sig.fieldsToJson]
  | (name, sig) :: rest, writable => by
    simp only [Sig.fieldNodes, forall_mem_append] at writable
    rw [Sig.fieldsToJson, forall_mem_cons]
    exact ⟨(Written.cons rfl (.text name) (.cons rfl (sig_shaped sig writable.1) .nil)).shaped,
      sigFields_shaped rest writable.2⟩
end

mutual
theorem param_shaped : ∀ p : Param, (∀ n ∈ p.nodes, n.Writable) → Shaped (.object .node) p.toJson
  | .value i name sig, writable | .var i name sig, writable => by
    simp only [Param.nodes, forall_mem_cons] at writable
    exact (Written.text rfl name (.cons rfl (sig_shaped sig writable.2) .nil)).node writable.1
  | .func i name params none, writable => by
    simp only [Param.nodes, List.append_nil, forall_mem_cons] at writable
    rw [Param.toJson, List.append_nil]
    exact (Written.text rfl name (.lastList rfl (params_shaped params writable.2))).node writable.1
  | .func i name params (some result), writable => by
    simp only [Param.nodes, cons_append, forall_mem_cons, forall_mem_append] at writable
    rw [Param.toJson, List.append_assoc]
    exact (Written.text rfl name (.cons rfl (sig_shaped result writable.2.2) (.lastList rfl
      (params_shaped params writable.2.1)))).node writable.1

theorem params_shaped : ∀ xs : List Param, (∀ n ∈ Param.listNodes xs, n.Writable) →
    ∀ x ∈ Param.listToJson xs, Shaped (.object .node) x
  | [], _ => by simp [Param.listToJson]
  | x :: xs, writable => by
    simp only [Param.listNodes, forall_mem_append] at writable
    rw [Param.listToJson, forall_mem_cons]
    exact ⟨param_shaped x writable.1, params_shaped xs writable.2⟩
end

theorem tree_shaped : Everywhere
    (fun e => (∀ n ∈ e.nodes, n.Writable) → Shaped (.object .node) e.toJson)
    (fun fs => (∀ n ∈ Expr.fieldNodes fs, n.Writable) →
      ∀ x ∈ Expr.fieldsToJson fs, Shaped (.object .field) x)
    (fun es => (∀ n ∈ Expr.listNodes es, n.Writable) →
      ∀ x ∈ Expr.listToJson es, Shaped (.object .node) x)
    (fun ds => (∀ n ∈ Decl.listNodes ds, n.Writable) →
      ∀ x ∈ Decl.listToJson ds, Shaped (.object .node) x)
    (fun d => (∀ n ∈ d.nodes, n.Writable) → Shaped (.object .node) d.toJson)
    (fun s => (∀ n ∈ s.nodes, n.Writable) → Shaped (.object .node) s.toJson)
    (fun ss => (∀ n ∈ Stmt.listNodes ss, n.Writable) →
      ∀ x ∈ Stmt.listToJson ss, Shaped (.object .node) x)
    (fun as => (∀ n ∈ Arg.listNodes as, n.Writable) →
      ∀ x ∈ Arg.listToJson as, Shaped (.object .node) x)
    (fun a => (∀ n ∈ a.nodes, n.Writable) → Shaped (.object .node) a.toJson) := by
  apply tree_induction
  all_goals
    simp only [Expr.nodes, Expr.fieldNodes, Expr.listNodes, Decl.listNodes, Decl.nodes, Stmt.nodes,
      Stmt.listNodes, Arg.listNodes, Arg.nodes, cons_append, forall_mem_cons, forall_mem_append, and_imp]
  -- literals and names
  case int => exact fun _ _ own _ => (Written.cons rfl (.int own.2.2) .nil).node own
  case char => exact fun _ _ own _ => (Written.cons rfl (.character _) .nil).node own
  case bool => exact fun _ value own _ => (Written.cons rfl (.bool value) .nil).node own
  case ident | funcArg => exact fun _ _ name own _ => (Written.lastText rfl name).node own
  -- one part
  case select =>
    exact fun _ _ name one own first => (Written.text rfl name (.cons rfl (one first) .nil)).node own
  case unary =>
    exact fun _ _ op _ one own first => (Written.text rfl op (.cons rfl (one first) .nil)).node own
  case forever | valueArg | varArg =>
    exact fun _ _ one own first => (Written.cons rfl (one first) .nil).node own
  case skip => exact fun _ own _ => Written.nil.node own
  case const =>
    exact fun _ name _ one own first => (Written.text rfl name (.cons rfl (one first) .nil)).node own
  case var | type =>
    exact fun _ name sig own first =>
      (Written.text rfl name (.cons rfl (sig_shaped sig first) .nil)).node own
  -- lists of parts
  case call | callStmt =>
    exact fun _ _ name _ each own rest => (Written.text rfl name (.lastList rfl (each rest))).node own
  case array | record | seq =>
    exact fun _ _ each own rest => (Written.lastList rfl (each rest)).node own
  -- two parts
  case subscript | assign | ifThen | whileDo =>
    exact fun _ _ _ one two own first second =>
      (Written.cons rfl (one first) (.cons rfl (two second) .nil)).node own
  case binary =>
    exact fun _ _ op _ _ one two own first second =>
      (Written.text rfl op (.cons rfl (one first) (.cons rfl (two second) .nil))).node own
  case letIn | letStmt =>
    exact fun _ _ _ each one own rest first =>
      (Written.cons rfl (one first) (.lastList rfl (each rest))).node own
  case repeatUntil | repeatWhile =>
    exact fun _ _ _ one two own first second =>
      (Written.cons rfl (two second) (.cons rfl (one first) .nil)).node own
  -- three parts
  case cond | ifElse =>
    exact fun _ _ _ _ one two three own first second third => (Written.cons rfl (one first)
      (.cons rfl (two second) (.cons rfl (three third) .nil))).node own
  case loopWhile =>
    exact fun _ _ _ _ one two three own first second third => (Written.cons rfl (two second)
      (.cons rfl (one first) (.cons rfl (three third) .nil))).node own
  -- routines
  case func =>
    intro _ name params result _ body own formals returned inner
    rw [Decl.toJson, List.append_assoc]
    exact (Written.text rfl name (.cons rfl (body inner) (.cons rfl (sig_shaped result returned)
      (.lastList rfl (params_shaped params formals))))).node own
  case proc =>
    intro _ name params _ body own formals inner
    rw [Decl.toJson, List.append_assoc]
    exact (Written.text rfl name (.cons rfl (body inner)
      (.lastList rfl (params_shaped params formals)))).node own
  -- the lists themselves
  case fields =>
    intro name _ _ head tail first others
    rw [Expr.fieldsToJson, forall_mem_cons]
    exact ⟨(Written.cons rfl (.text name) (.cons rfl (head first) .nil)).shaped, tail others⟩
  case args | decls | exprs | stmts =>
    exact fun _ _ head tail first rest => forall_mem_cons.mpr ⟨head first, tail rest⟩
  case noArgs | noDecls | noExprs | noFields | noStmts => exact fun _ => List.forall_mem_nil _

theorem program_shaped {p : Program} (writable : p.Writable) : Shaped (.object .node) p.toJson :=
  (Written.cons rfl (.text _) (.cons rfl (tree_shaped.stmt p.body writable) .nil)).shaped

end Encoding

/-! ## Programs -/

namespace Decoding

theorem program_reads {p : Program} (writable : p.Writable) :
    Program.ofJson p.toJson = .ok p.bare := by
  have body := tree_reads.stmt p.body writable
  rw [Program.ofJson, Program.toJson, Json.members, members, members_stmt, members]
  simp [Members.program, Members.child, Members.need, body, Program.bare]

/-- Text that is well-formed is read character by character. -/
theorem decodeBytes_encodeUtf8 (text : String) :
    Program.decodeBytes (Text.encodeUtf8 text) = (.given, Program.decode .given text) := by
  have chars : (text.toList.map Text.Piece.char).mapM Text.Piece.char? = some text.toList := by
    induction text.toList with
    | nil => rfl
    | cons c cs ih => simp [Text.Piece.char?, ih]
  rw [Program.decodeBytes, Text.pieces_encodeUtf8, chars]
  simp only [String.ofList_toList]

/-- The text of a program is read as the program without its slots if it nests within the limit,
and is refused otherwise. -/
theorem decodeWithin_encode {p : Program} (writable : p.Writable) (limit : Json.Limit) :
    Program.decodeWithin limit .given p.encode =
      if limit.admits p.toJson.nesting then .ok p.bare else .error .unreadable := by
  rw [Program.decodeWithin, Program.encode, Json.parseTree_print (Encoding.program_shaped writable)]
  cases limit.admits p.toJson.nesting
  · rfl
  · simp [program_reads writable]

end Decoding

/-- Decoding undoes encoding, for every program whose numbers have 64 bits and whose names are not
empty where one is needed. Only the limit on nesting, where there is one, can be in the way. -/
theorem Program.decode_undoes_encode {p : Program} (writable : p.Writable) :
    decodeWithin none .given p.encode = .ok p.bare ∧
      decodeBytes (Text.encodeUtf8 p.encode) = (.given, decode .given p.encode) ∧
      decode .given p.encode =
        if p.toJson.nesting ≤ 10000 then .ok p.bare else .error .unreadable := by
  refine ⟨?_, Decoding.decodeBytes_encodeUtf8 _, ?_⟩
  · rw [Decoding.decodeWithin_encode writable]
    rfl
  · rw [decode, Decoding.decodeWithin_encode writable]
    simp only [Json.maxDepth, Json.Limit.admits_iff, Option.mem_def, Option.some.injEq, forall_eq']

/-- A program with a character that is escaped, a number that needs all 64 bits, a name beyond
ASCII, a command without an alternative and a routine parameter without a result. -/
def Program.odd : Program :=
  let pos : Info := { pos := ⟨-7, 9223372036854775807⟩, ty := some .integer }
  ⟨.letIn pos
    [.const {} "é<\"" (.char pos (Char.ofNat 0)),
      .proc {} "" [.func {} "p" [] none, .value {} "x\n" (.record {} [("", .named {} "Integer")])]
        (.skip {})]
    (.ifThen {} (.ident {} (some (.standard .const "true")) "true")
      (.call {} none "putint" [.value {} (.int {} (-9223372036854775808))]))⟩

theorem Program.odd_decodes :
    odd.Writable ∧ decode .given odd.encode = .ok odd.bare ∧ odd.bare.encode = odd.encode := by
  have writable : odd.Writable := by
    simp [Writable, nodes, odd, Stmt.nodes, Decl.listNodes, Decl.nodes, Expr.nodes, Param.listNodes,
      Param.nodes, Sig.nodes, Sig.fieldNodes, Arg.listNodes, Arg.nodes, Node.Writable, Node.info,
      Stmt.info, Decl.info, Expr.info, Param.info, Sig.info, Arg.info, Text.Numeral.Fits, Pos.none]
  refine ⟨writable, ?_, rfl⟩
  rw [(decode_undoes_encode writable).2.2, if_pos (by decide)]

end Triangle
