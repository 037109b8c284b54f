import ArithLang.Expression
import ArithLang.Proofs.Evaluation
import ArithLang.Translation.C
import ArithLang.Translation.Lisp

/-!
# What the translations have in common

Both translations write a literal as it is spelled. They differ in how an operation is written from
its written operands, and in the program around the text of a whole expression. `Writer` has these
two as parameters, so that what holds of both translations is proved once.
-/

namespace ArithLang

/-- A translation of trees. -/
structure Writer where
  /-- The text of an operation, from the texts of its operands. -/
  operation : Operator → String → String → String
  /-- The program for the text of an expression. -/
  program : String → String
  /-- The text of a tree, `none` if a node has no meaning. -/
  write : Node → Option String
  write_int : ∀ literal, write (.int literal) = some literal.lexeme
  write_prog : ∀ anchor body, write (.prog anchor body) = do return program (← write body)
  write_binary : ∀ operator anchor left right,
    write (.binary (some operator) anchor left right)
      = do return operation operator (← write left) (← write right)
  program_injective : Function.Injective program

def Lisp.writer : Writer where
  operation := Lisp.form
  program text := Lisp.header ++ text
  write := Node.toLisp
  write_int _ := rfl
  write_prog _ _ := rfl
  write_binary _ _ _ _ := rfl
  program_injective _ _ h := (String.append_right_inj _).mp h

def C.writer : Writer where
  operation := C.expression
  program text := C.opening ++ text ++ C.closing
  write := Node.toC
  write_int _ := rfl
  write_prog _ _ := rfl
  write_binary _ _ _ _ := rfl
  program_injective _ _ h := (String.append_right_inj _).mp ((String.append_left_inj _).mp h)

namespace Writer

open Expression

variable {writer : Writer} {body : Node} {anchor : Option Token} {text : String}

theorem exists_write_eq : ∀ {tree : Node}, tree.Meaningful → ∃ text, writer.write tree = some text
  | .int literal, _ => ⟨literal.lexeme, writer.write_int literal⟩
  | .prog _ body, h => by
    obtain ⟨text, htext⟩ := exists_write_eq (show body.Meaningful from h)
    exact ⟨writer.program text, by simp [writer.write_prog, htext]⟩
  | .binary (some operator) _ left right, h => by
    obtain ⟨u, hu⟩ := exists_write_eq h.2.1
    obtain ⟨v, hv⟩ := exists_write_eq h.2.2
    exact ⟨writer.operation operator u v, by simp [writer.write_binary, hu, hv]⟩
  | .binary none _ _ _, h => absurd h.1 Bool.false_ne_true
  | .plain _ _, h => h.elim

/-- The translation of what is handed in. -/
def translate (writer : Writer) (source : Value) : Logged String := do
  translation (writer.write (← tree source))

theorem translate_root (h : writer.write body = some text) (log : List Log.Entry) :
    writer.translate (.node (.prog anchor body)) log = .ok (writer.program text) log := by
  change translation (writer.write (.prog anchor body)) log = _
  rw [writer.write_prog, h]
  rfl

theorem exists_translate_eq (writer : Writer) (h : body.Meaningful) (log : List Log.Entry) :
    ∃ text, writer.translate (.node (.prog anchor body)) log = .ok text log := by
  obtain ⟨text, htext⟩ : ∃ text, writer.write body = some text := exists_write_eq h
  exact ⟨_, translate_root htext log⟩

end Writer

end ArithLang
