/-
# Programs written out from their trees

A tree is written out as a list of pieces in the order of the grammar: marks, reserved words and
operators, names and literals. The semicolon that ends a statement may be left out, and one comma may
follow the last item of an array, an object, a list of arguments or of parameters. A hole in an array
is written as nothing; any other missing expression cannot be written at all.

Pieces spell a sequence of tokens if each piece stands for one token, or for none where it is
optional.

Key definitions: `Piece`, `Spells`, `Expr.pieces`, `Stmt.pieces`, `piecesOfStmts`.
Key theorems: `Spells.append`, `Spells.ne_nil`.
-/
import Countersign.Script.Tree
import Mathlib.Tactic

namespace Countersign
namespace Script

/-- What stands at one place of a program that is written out. -/
inductive Piece where
  /-- A mark, a reserved word or an operator. -/
  | kind (k : TokenKind)
  /-- A name. -/
  | ident (i : Ident)
  /-- The name of a property, which may be a reserved word. -/
  | property (i : Ident)
  | string (s : StringLit)
  | number (n : NumberLit)
  | regex (span : Span) (text : String)
  /-- A mark that may be left out. -/
  | optional (m : Mark)
  /-- A place where something is missing. -/
  | hole
  deriving Repr, DecidableEq, Inhabited

namespace Piece

/-- A mark. -/
abbrev mark (m : Mark) : Piece := .kind (.mark m)

/-- A reserved word. -/
abbrev word (w : Word) : Piece := .kind (.word w)

/-- Whether the piece stands for this token of a text; nothing stands for the end of the text. -/
def IsToken (text : List Char) (t : Token) : Piece → Prop
  | kind k => t.kind = k ∧ k ≠ .endOfFile
  | ident i => t.kind = .identifier ∧ i = ⟨t.span, t.value, false⟩
  | property i => t.kind.isName = true ∧ i = ⟨t.span, t.value, false⟩
  | string s =>
    t.kind = .string ∧ s = ⟨t.span, t.value, (text.drop t.span.pos).head? == some '\''⟩
  | number n =>
    t.kind = .number ∧ n = ⟨t.span, t.value, t.flags.scientific, t.flags.hex, t.flags.octal⟩
  | regex span value => t.kind = .regex ∧ span = t.span ∧ value = t.value
  | optional m => t.kind = .mark m
  | hole => False

/-- Whether the piece stands for a token that cannot be left out. -/
def isRequired : Piece → Bool
  | optional _ => false
  | _ => true

end Piece

/-- The pieces spell the tokens of a text. -/
inductive Spells (text : List Char) : List Piece → List Token → Prop
  | nil : Spells text [] []
  | token {p : Piece} {t : Token} {ps : List Piece} {ts : List Token} :
      p.IsToken text t → Spells text ps ts → Spells text (p :: ps) (t :: ts)
  | absent {m : Mark} {ps : List Piece} {ts : List Token} :
      Spells text ps ts → Spells text (.optional m :: ps) ts

section Spells

variable {text : List Char} {ps qs : List Piece} {ts us : List Token}

theorem Spells.append (h : Spells text ps ts) (h' : Spells text qs us) :
    Spells text (ps ++ qs) (ts ++ us) := by
  induction h with
  | nil => exact h'
  | token hp _ ih => exact .token hp ih
  | absent _ ih => exact .absent ih

theorem Spells.snoc (h : Spells text ps ts) {p : Piece} {t : Token} (hp : p.IsToken text t) :
    Spells text (ps ++ [p]) (ts ++ [t]) := h.append (.token hp .nil)

/-- Tokens that two lists of pieces spell together are spelled by one after the other. -/
theorem Spells.split (h : Spells text (ps ++ qs) ts) :
    ∃ us vs, ts = us ++ vs ∧ Spells text ps us ∧ Spells text qs vs := by
  induction ps generalizing ts with
  | nil => exact ⟨[], ts, rfl, .nil, h⟩
  | cons p ps ih =>
    cases h with
    | token hp h =>
      obtain ⟨us, vs, rfl, hps, hqs⟩ := ih h
      exact ⟨_ :: us, vs, rfl, .token hp hps, hqs⟩
    | absent h =>
      obtain ⟨us, vs, rfl, hps, hqs⟩ := ih h
      exact ⟨us, vs, rfl, .absent hps, hqs⟩

/-- What spells more than other pieces do spells more after anything. -/
theorem Spells.mono_append {qs' : List Piece} (h : Spells text (ps ++ qs) ts)
    (hmono : ∀ us, Spells text qs us → Spells text qs' us) : Spells text (ps ++ qs') ts := by
  obtain ⟨us, vs, rfl, hps, hqs⟩ := h.split
  exact hps.append (hmono vs hqs)

theorem Spells.hole_not_mem (h : Spells text ps ts) : Piece.hole ∉ ps := by
  induction h with
  | nil => simp
  | token hp _ ih =>
    rintro (_ | _)
    · exact hp
    · rename_i hmem
      exact ih hmem
  | absent _ ih => simpa using ih

/-- Pieces that cannot all be left out spell at least one token. -/
theorem Spells.ne_nil (h : Spells text ps ts) (hps : ps.any Piece.isRequired = true) : ts ≠ [] := by
  induction h with
  | nil => cases hps
  | token _ _ _ => exact List.cons_ne_nil _ _
  | absent _ ih => exact ih (by simpa [Piece.isRequired] using hps)

theorem Piece.IsToken.kind_ne {p : Piece} {t : Token} (h : p.IsToken text t) :
    t.kind ≠ .endOfFile := by
  intro hend
  cases p with
  | kind k => exact h.2 (h.1.symm.trans hend)
  | _ => simp_all [Piece.IsToken, TokenKind.isName]

theorem Spells.kind_ne (h : Spells text ps ts) : ∀ t ∈ ts, t.kind ≠ .endOfFile := by
  induction h with
  | nil => simp
  | token hp _ ih =>
    intro u hu
    rcases List.mem_cons.mp hu with rfl | hu
    · exact hp.kind_ne
    · exact ih u hu
  | absent _ ih => exact ih

end Spells

/-! ### Lists -/

/-- Items, of which there must be one, with a comma between any two. -/
def separated : List (List Piece) → List Piece
  | [] => [.hole]
  | [p] => p
  | p :: q :: ps => p ++ .mark .comma :: separated (q :: ps)

/-- Items with a comma between any two, and perhaps one after the last. -/
def listed : List (List Piece) → List Piece
  | [] => []
  | [p] => p ++ [.optional .comma]
  | p :: q :: ps => p ++ .mark .comma :: listed (q :: ps)

theorem mem_listed {ps : List (List Piece)} {qs : List Piece} {p : Piece} (hp : p ∈ qs)
    (hqs : qs ∈ ps) : p ∈ listed ps := by
  induction ps with
  | nil => cases hqs
  | cons q ps ih =>
    cases ps with
    | nil =>
      rw [List.mem_singleton.mp hqs] at hp
      exact List.mem_append_left _ hp
    | cons r ps =>
      rw [listed, List.mem_append]
      rcases List.mem_cons.mp hqs with rfl | hqs
      · exact .inl hp
      · exact .inr (List.mem_cons_of_mem _ (ih hqs))

/-! ### Trees -/

/-- The word that is the operator. -/
def WordOp.word : WordOp → Word
  | .delete => .deleteWord
  | .typeof => .typeofWord
  | .void => .voidWord

/-- The word that opens the declarations. -/
def DeclKind.word : DeclKind → Word
  | .var => .varWord
  | .let => .letWord
  | .const => .constWord

/-- The name of a property, written out. -/
def PropertyName.piece : PropertyName → Piece
  | .ident i => .property i
  | .string s => .string s
  | .number n => .number n

/-- What is between parentheses. -/
def inParens (ps : List Piece) : List Piece := .mark .openParen :: (ps ++ [.mark .closeParen])

/-- What is between brackets. -/
def inBrackets (ps : List Piece) : List Piece := .mark .openBracket :: (ps ++ [.mark .closeBracket])

/-- What is between braces. -/
def inBraces (ps : List Piece) : List Piece := .mark .openBrace :: (ps ++ [.mark .closeBrace])

/-- The parameters of a function, written out. -/
def piecesOfParams (ps : List Param) : List Piece :=
  inParens (listed (ps.map fun p => [.ident p.name]))

/-- A name that may be absent, written out. -/
def piecesOfIdent? (i : Option Ident) : List Piece := (i.map Piece.ident).toList

/-- A hole in an array. -/
def Expr.isHole : Expr → Bool
  | .omitted _ _ => true
  | _ => false

mutual

/-- An expression, written out. -/
def Expr.pieces : Expr → List Piece
  | .ident i => [.ident i]
  | .string s => [.string s]
  | .number n => [.number n]
  | .regex span text => [.regex span text]
  | .array _ es => inBrackets (listed (piecesOfElements es))
  | .object _ ps => inBraces (listed (piecesOfProperties ps))
  | .member _ o n => o.pieces ++ [.mark .dot, .property n]
  | .index _ o i => o.pieces ++ inBrackets i.pieces
  | .call _ c as => c.pieces ++ inParens (listed (piecesOfExprs as))
  | .construct _ c true as =>
    .word .newWord :: (c.pieces ++ inParens (listed (piecesOfExprs as)))
  | .construct _ c false _ => .word .newWord :: c.pieces
  | .paren _ e => inParens e.pieces
  | .function _ n ps b =>
    .word .functionWord :: (piecesOfIdent? n ++ piecesOfParams ps ++ b.pieces)
  | .wordOp _ op e => .word op.word :: e.pieces
  | .before _ op e => .mark op :: e.pieces
  | .after _ e op => e.pieces ++ [.mark op]
  | .binary _ l op r => l.pieces ++ .kind op :: r.pieces
  | .conditional _ t y n =>
    t.pieces ++ .mark .question :: (y.pieces ++ .mark .colon :: n.pieces)
  | .omitted _ _ => [.hole]
  | .this _ => [.word .thisWord]
  | .null _ => [.word .nullWord]
  | .boolean _ true => [.word .trueWord]
  | .boolean _ false => [.word .falseWord]
termination_by structural t => t

/-- Expressions, each written out. -/
def piecesOfExprs : List Expr → List (List Piece)
  | [] => []
  | e :: es => e.pieces :: piecesOfExprs es
termination_by structural t => t

/-- The elements of an array, each written out; a hole is nothing. -/
def piecesOfElements : List Expr → List (List Piece)
  | [] => []
  | e :: es => (if e.isHole then [] else e.pieces) :: piecesOfElements es
termination_by structural t => t

/-- An expression that may be absent, written out. -/
def piecesOfExpr? : Option Expr → List Piece
  | none => []
  | some e => e.pieces
termination_by structural t => t

/-- Properties, each written out. -/
def piecesOfProperties : List Property → List (List Piece)
  | [] => []
  | .mk _ n e :: ps => (n.piece :: .mark .colon :: e.pieces) :: piecesOfProperties ps
termination_by structural t => t

/-- A statement, written out. -/
def Stmt.pieces : Stmt → List Piece
  | .declaration _ l => l.pieces ++ [.optional .semicolon]
  | .function _ n ps b => .word .functionWord :: .ident n :: (piecesOfParams ps ++ b.pieces)
  | .block b => b.pieces
  | .empty _ => [.mark .semicolon]
  | .expression _ e => e.pieces ++ [.optional .semicolon]
  | .ifElse _ t y n => .word .ifWord :: (inParens t.pieces ++ y.pieces ++ piecesOfElse n)
  | .doWhile _ b t =>
    .word .doWord :: (b.pieces ++ .word .whileWord :: (inParens t.pieces ++ [.optional .semicolon]))
  | .whileDo _ t b => .word .whileWord :: (inParens t.pieces ++ b.pieces)
  | .forLoop _ i t u b =>
    .word .forWord :: (inParens (i.pieces ++ .mark .semicolon :: (piecesOfExpr? t ++
      .mark .semicolon :: piecesOfExpr? u)) ++ b.pieces)
  | .forIn _ i o b =>
    .word .forWord :: (inParens (i.pieces ++ .word .inWord :: o.pieces) ++ b.pieces)
  | .continueTo _ l => .word .continueWord :: (piecesOfIdent? l ++ [.optional .semicolon])
  | .breakTo _ l => .word .breakWord :: (piecesOfIdent? l ++ [.optional .semicolon])
  | .returnWith _ v => .word .returnWord :: (piecesOfExpr? v ++ [.optional .semicolon])
  | .switchOn _ e cs => .word .switchWord :: (inParens e.pieces ++ inBraces (piecesOfClauses cs))
  | .labeled _ l b => .ident l :: .mark .colon :: b.pieces
  | .throwing _ e => .word .throwWord :: (e.pieces ++ [.optional .semicolon])
  | .tryCatch _ b h f => .word .tryWord :: (b.pieces ++ h.pieces ++ piecesOfFinally f)
  | .debugger _ => [.word .debuggerWord, .optional .semicolon]
termination_by structural t => t

/-- Statements, written out one after the other. -/
def piecesOfStmts : List Stmt → List Piece
  | [] => []
  | s :: ss => s.pieces ++ piecesOfStmts ss
termination_by structural t => t

/-- The second branch of a conditional statement, if there is one. -/
def piecesOfElse : Option Stmt → List Piece
  | none => []
  | some s => .word .elseWord :: s.pieces
termination_by structural t => t

/-- A block, written out. -/
def Block.pieces : Block → List Piece
  | .mk _ ss => inBraces (piecesOfStmts ss)
termination_by structural t => t

/-- The block that is run in any case, if there is one. -/
def piecesOfFinally : Option Block → List Piece
  | none => []
  | some b => .word .finallyWord :: b.pieces
termination_by structural t => t

/-- Declarations with their word. -/
def DeclList.pieces : DeclList → List Piece
  | .mk _ k ds => .word k.word :: separated (piecesOfDecls ds)
termination_by structural t => t

/-- Declared variables, each written out. -/
def piecesOfDecls : List Decl → List (List Piece)
  | [] => []
  | d :: ds => d.pieces :: piecesOfDecls ds
termination_by structural t => t

/-- A declared variable with its first value. -/
def Decl.pieces : Decl → List Piece
  | .mk _ n init => .ident n :: piecesOfInit init
termination_by structural t => t

/-- The first value of a variable, if there is one. -/
def piecesOfInit : Option Expr → List Piece
  | none => []
  | some e => .mark .assign :: e.pieces
termination_by structural t => t

/-- The first part of the head of a `for` loop. -/
def ForInit.pieces : ForInit → List Piece
  | .none => []
  | .decls l => l.pieces
  | .expr e => e.pieces
termination_by structural t => t

/-- The clauses of a `switch`, one after the other. -/
def piecesOfClauses : List Clause → List Piece
  | [] => []
  | c :: cs => c.pieces ++ piecesOfClauses cs
termination_by structural t => t

/-- A clause with its word. -/
def Clause.pieces : Clause → List Piece
  | .mk _ t ss => piecesOfTest t ++ .mark .colon :: piecesOfStmts ss
termination_by structural t => t

/-- The word of a clause and its test, if it has one. -/
def piecesOfTest : Option Expr → List Piece
  | none => [.word .defaultWord]
  | some e => .word .caseWord :: e.pieces
termination_by structural t => t

/-- The handler of a `try` statement, if there is one. -/
def Handler.pieces : Handler → List Piece
  | .none => []
  | .catching _ n b => .word .catchWord :: (inParens [.ident n] ++ b.pieces)
termination_by structural t => t

end

theorem piecesOfExprs_eq : ∀ es : List Expr, piecesOfExprs es = es.map Expr.pieces
  | [] => rfl
  | e :: es => by rw [piecesOfExprs, piecesOfExprs_eq es, List.map_cons]

/-- An element of an array, written out. -/
def Expr.elementPieces (e : Expr) : List Piece := if e.isHole then [] else e.pieces

theorem piecesOfElements_eq : ∀ es : List Expr, piecesOfElements es = es.map Expr.elementPieces
  | [] => rfl
  | e :: es => by rw [piecesOfElements, piecesOfElements_eq es, List.map_cons, Expr.elementPieces]

/-- A property, written out. -/
def Property.pieces : Property → List Piece
  | .mk _ n e => n.piece :: .mark .colon :: e.pieces

theorem piecesOfProperties_eq : ∀ ps : List Property,
    piecesOfProperties ps = ps.map Property.pieces
  | [] => rfl
  | .mk _ n e :: ps => by
    rw [piecesOfProperties, piecesOfProperties_eq ps, List.map_cons, Property.pieces]

theorem piecesOfStmts_eq : ∀ ss : List Stmt, piecesOfStmts ss = ss.flatMap Stmt.pieces
  | [] => rfl
  | s :: ss => by rw [piecesOfStmts, piecesOfStmts_eq ss, List.flatMap_cons]

theorem piecesOfDecls_eq : ∀ ds : List Decl, piecesOfDecls ds = ds.map Decl.pieces
  | [] => rfl
  | d :: ds => by rw [piecesOfDecls, piecesOfDecls_eq ds, List.map_cons]

theorem piecesOfClauses_eq : ∀ cs : List Clause, piecesOfClauses cs = cs.flatMap Clause.pieces
  | [] => rfl
  | c :: cs => by rw [piecesOfClauses, piecesOfClauses_eq cs, List.flatMap_cons]

/-- No expression is written out as nothing. -/
theorem Expr.pieces_required (e : Expr) : e.pieces.any Piece.isRequired = true := by
  cases e with
  | construct span c l as => cases l <;> simp [Expr.pieces, Piece.isRequired]
  | boolean span b => cases b <;> simp [Expr.pieces, Piece.isRequired]
  | _ => simp [Expr.pieces, Piece.isRequired, inParens, inBrackets, inBraces]

/-- No statement is written out as nothing. -/
theorem Stmt.pieces_required (s : Stmt) : s.pieces.any Piece.isRequired = true := by
  cases s with
  | declaration span l =>
    obtain ⟨span, k, ds⟩ := l
    simp [Stmt.pieces, DeclList.pieces, Piece.isRequired]
  | block b =>
    obtain ⟨span, ss⟩ := b
    simp [Stmt.pieces, Block.pieces, Piece.isRequired, inBraces]
  | expression span e => simp [Stmt.pieces, e.pieces_required]
  | _ => simp [Stmt.pieces, Piece.isRequired]

end Script
end Countersign
