import Scriptlet.Syntax.Basic
import Scriptlet.Text.Quoted

/-!
# Syntax/Printer — the one written form of a program tree

Every operator stands between parentheses with its operands, so the text needs no precedence.
Statements of a block are separated by one space; those of a program follow each other directly.
-/

namespace Scriptlet

/-- Three dots in front of a variadic parameter. -/
def Param.render (p : Param) : String := (if p.variadic then "..." else "") ++ p.name

/-- Texts one after another, with `separator` between each two of them. -/
def separated (separator : String) : List String → String
  | [] => ""
  | [x] => x
  | x :: xs => x ++ separator ++ separated separator xs

/-- The statements of a block between braces. -/
def braced (statements : List String) : String :=
  match statements with
  | [] => "\x7b \x7d"
  | _ => "\x7b " ++ separated " " statements ++ " \x7d"

mutual

/-- An expression; operators and indexes stand between parentheses, everything else has delimiters
of its own or is one word. -/
def Expr.render : Expr → String
  | .ident x => x
  | .integer n => toString n.toInt
  | .string s => Text.quote s
  | .boolean b => if b then "true" else "false"
  | .unary op e => "(" ++ op.symbol ++ e.render ++ ")"
  | .binary op l r => "(" ++ l.render ++ " " ++ op.symbol ++ " " ++ r.render ++ ")"
  | .call f args => f.render ++ "(" ++ separated ", " (renderExprs args) ++ ")"
  | .index e k => "(" ++ e.render ++ "[" ++ k.render ++ "])"
  | .array es => "[" ++ separated ", " (renderExprs es) ++ "]"
  | .hash ps => "\x7b" ++ separated ", " (renderPairs ps) ++ "\x7d"
  | .function params body =>
    "fn(" ++ separated ", " (params.map Param.render) ++ ") " ++ braced (renderStatements body)
  | .conditional cs alt => separated " else " (renderClauses cs) ++ renderAlternative alt

def renderExprs : List Expr → List String
  | [] => []
  | e :: es => e.render :: renderExprs es

/-- A colon and a space between key and value. -/
def renderPairs : List (Expr × Expr) → List String
  | [] => []
  | (k, v) :: ps => (k.render ++ ": " ++ v.render) :: renderPairs ps

/-- One text for each clause, to stand between `else`s. -/
def renderClauses : List (Expr × List Statement) → List String
  | [] => []
  | (c, b) :: cs =>
    ("if (" ++ c.render ++ ") " ++ braced (renderStatements b)) :: renderClauses cs

/-- The last branch, if there is one. -/
def renderAlternative : Option (List Statement) → String
  | none => ""
  | some b => " else " ++ braced (renderStatements b)

/-- An absent clause of a loop header leaves nothing. -/
def renderOption : Option Expr → String
  | none => ""
  | some e => e.render

/-- The first clause of a loop header; the binding statement brings its own semicolon. -/
def renderInit : Option Statement → String
  | none => "; "
  | some (.bind x e) => "let " ++ x ++ " = " ++ e.render ++ "; "
  | some s => s.render ++ "; "

/-- One text for each statement. -/
def renderStatements : List Statement → List String
  | [] => []
  | s :: ss => s.render :: renderStatements ss

/-- A statement; an expression has no semicolon of its own. -/
def Statement.render : Statement → String
  | .bind x e => "let " ++ x ++ " = " ++ e.render ++ ";"
  | .ret e => "return " ++ e.render ++ ";"
  | .expr e => e.render
  | .block b => braced (renderStatements b)
  | .loop init condition step body =>
    "for (" ++ renderInit init ++ renderOption condition ++ "; " ++ renderOption step ++ ") "
      ++ braced (renderStatements body)

end

/-- A block, between braces. -/
def Block.render (b : Block) : String := braced (renderStatements b)

/-- A program; nothing stands between its statements. -/
def Program.render (p : Program) : String := String.join (renderStatements p)

end Scriptlet
