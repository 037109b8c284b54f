import ArithLang.Proofs.Agreement
import ArithLang.Proofs.Translation.Arithmetic
import Mathlib.Data.List.Basic

/-!
# The C text as an expression

The C text of an expression without powers puts every operation in parentheses and spells every
literal as the expression does, so it is an expression itself. Its tree is the tree that it was made
of, down to the tokens: the parentheses leave no node, and what stands between them is a literal or
two operands with the sign of their operator. A second translation therefore changes nothing, and
no operation tells the text from the one that was translated.

With a power the C text is no expression: it calls a function by its name, and there are no names in
expressions.
-/

namespace ArithLang.Expression

/-- **The C text is a fixed point of the translation.** The C text of an expression without powers
is an expression with the same tree; so it has the same C text again, and the same results
throughout. -/
theorem c_text_fixed {source : String} {body : Node} {before after : List Log.Entry}
    (hparse : parse (.text source) before = .ok (.prog none body) after)
    (hpow : ¬ ['*', '*'] <:+: source.toList) :
    ∃ text : String,
      (∀ log, answer (toC (.text source)) log = .ok (C.opening ++ text ++ C.closing)) ∧
      (∀ log, ∃ final, parse (.text text) log = .ok (.prog none body) final) ∧
      (∀ log, answer (toC (.text text)) log = .ok (C.opening ++ text ++ C.closing)) ∧
      SameResults source text := by
  have hphrase := (parse_eq_ok_iff before).mp ⟨after, hparse⟩
  have hpower : body.PowerFree := hphrase.powerFree fun token htoken htype ↦
    hpow (Scanner.sign_infix_of_mem_pieces token htoken .pow htype)
  obtain ⟨text, htext, hreads⟩ :=
    (Node.Spelled.of_pieces hphrase).exists_write_reads C.framed_writer
  have hfixed : Phrase .exp (Scanner.pieces text.toList) body :=
    (C.phrase_of_reads hpower hreads).toExp
  exact ⟨text, answer_translate hphrase htext, fun log ↦ (parse_eq_ok_iff log).mpr hfixed,
    answer_translate hfixed htext, .of_parse (agree_parse_of_phrase hphrase hfixed)⟩

theorem c_text_fixed_productOfSum :
    (∃ after, parse (.text "2*(03+2)") [] = .ok (.prog none productOfSum) after) ∧
    (¬ ['*', '*'] <:+: "2*(03+2)".toList) ∧
    (∃ final, parse (.text "(2*(03+2))") [] = .ok (.prog none productOfSum) final) ∧
    SameResults "2*(03+2)" "(2*(03+2))" := by
  have hpow : ¬ ['*', '*'] <:+: "2*(03+2)".toList := by simp [List.infix_cons_iff]
  obtain ⟨after, hparse⟩ := (parse_eq_ok_iff []).mpr phrase_productOfSum
  obtain ⟨text, hc, hfixed, -, hsame⟩ := c_text_fixed hparse hpow
  have htext : C.writer.write productOfSum = some "(2*(03+2))" := by decide +kernel
  have hanswer : answer (toC (.text "2*(03+2)")) []
      = .ok (C.opening ++ "(2*(03+2))" ++ C.closing) :=
    answer_translate phrase_productOfSum htext []
  rw [hc [], Except.ok.injEq, String.append_left_inj, String.append_right_inj] at hanswer
  obtain rfl := hanswer
  exact ⟨⟨after, hparse⟩, hpow, hfixed [], hsame⟩

end ArithLang.Expression
