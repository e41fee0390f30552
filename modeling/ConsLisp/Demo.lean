import ConsLisp.Eval.Run
import ConsLisp.Frame.Containers

/-!
# The demonstration

A short program that shows the language: definitions, recursion, binding, application, data run as
code, and two errors, after each of which the program goes on.
-/

namespace ConsLisp

namespace Demo

/-- The list that starts with a symbol. -/
def form (head : String) (args : List Cell) : Cell :=
  .ofList (.symbol head :: args)

/-- The program, expression by expression. -/
def program : List Cell :=
  let x := Cell.symbol "x"
  let n := Cell.symbol "n"
  let a := Cell.symbol "a"
  let b := Cell.symbol "b"
  [ form "define" [.symbol "square", form "lambda" [.ofList [x], form "*" [x, x]]],
    form "print" [form "square" [.integer 12]],
    form "define" [.symbol "fact",
      form "lambda" [.ofList [n],
        form "if" [form "<" [n, .integer 1], .integer 1,
          form "*" [n, form "fact" [form "-" [n, .integer 1]]]]]],
    form "fact" [.integer 10],
    form "let" [.ofList [.ofList [a, .integer 3], .ofList [b, .integer 4]],
      form "+" [form "square" [a], form "square" [b]]],
    form "apply" [.symbol "+",
      form "quote" [.ofList [.integer 1, .integer 2, .integer 3, .double 4.5]]],
    form "cons" [.integer 1, form "cons" [.integer 2, .nil]],
    form "eval" [form "cons" [form "quote" [.symbol "/"],
      form "quote" [.ofList [.integer 1, .integer 8]]]],
    form "car" [form "quote" [.nil]],
    form "define" [.symbol "square", .integer 0],
    form "print" [form "quote" [.symbol "done"]] ]

/-- What running one expression puts on the two output streams. -/
structure Entry where
  out : String
  err : String

/-- The entry of one expression: the expression itself, what it prints, and its value unless that
is nil.  Errors go to the other stream. -/
def entry (expr : Cell) (env : Environment HashFrame) : Entry × Environment HashFrame :=
  let shown := "> " ++ expr.text ++ "\n"
  let start := env.output.written.size
  match evaluate defaultBudget expr env with
  | .value .nil env => (⟨shown ++ env.output.textFrom start, ""⟩, env)
  | .value value env => (⟨shown ++ env.output.textFrom start ++ value.text ++ "\n", ""⟩, env)
  | .failure e env =>
    (⟨shown ++ env.output.textFrom start, "Error: " ++ e.message ++ "\n"⟩, env)
  | .exhausted => (⟨shown, ""⟩, env)

/-- The entries of expressions that share an environment. -/
def entries : List Cell → Environment HashFrame → List Entry
  | [], _ => []
  | expr :: exprs, env =>
    let (first, env) := entry expr env
    first :: entries exprs env

def transcript : List Entry :=
  entries program (Environment.fresh .unlimited)

end Demo

end ConsLisp
