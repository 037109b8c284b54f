import ArithLang.Proofs.Composition
import ArithLang.Proofs.Rejection

/-!
# Texts with the same results

What the operations on a text answer depends on its tokens only. The log is another matter, since it
keeps the text itself; so operations are compared by their answers, whatever has been logged before
(`Agree`). Texts with the same tokens are parsed alike, or rejected for the same reason, and all
other operations go on from there (`SameResults.of_parse`).

In particular, blanks between two texts change no result, if no segment reaches across the place
where the texts meet (`Scanner.tokens_append_iff`).
-/

namespace ArithLang

namespace Expression

/-! ## Operations that answer the same -/

/-- Two operations answer the same, whatever has been logged before. -/
def Agree {α : Type} (first second : Logged α) : Prop :=
  ∀ log log', answer first log = answer second log'

section Steps

variable {α β : Type} {first second : Logged α} {log after : List Log.Entry}

private theorem answer_bind_of_ok {a : α} (h : first log = .ok a after) (next : α → Logged β) :
    answer (first >>= next) log = answer (next a) after := by
  rw [answer, bind_eq_of_ok h, answer]

private theorem answer_bind_of_error {failure : Failure} (h : first log = .error failure after)
    (next : α → Logged β) : answer (first >>= next) log = .error failure := by
  rw [answer, bind_eq_of_error h]

theorem Agree.bind {next next' : α → Logged β} (h : Agree first second)
    (hnext : ∀ a, Agree (next a) (next' a)) : Agree (first >>= next) (second >>= next') := by
  intro log log'
  have hanswer := h log log'
  rw [answer, answer] at hanswer
  cases hfirst : first log with
  | ok a after =>
    cases hsecond : second log' with
    | ok b after' =>
      rw [hfirst, hsecond] at hanswer
      obtain rfl := Except.ok.inj hanswer
      rw [answer_bind_of_ok hfirst, answer_bind_of_ok hsecond, hnext a after after']
    | error failure after' =>
      rw [hfirst, hsecond] at hanswer
      cases hanswer
  | error failure after =>
    cases hsecond : second log' with
    | ok b after' =>
      rw [hfirst, hsecond] at hanswer
      cases hanswer
    | error failure' after' =>
      rw [hfirst, hsecond] at hanswer
      obtain rfl := Except.error.inj hanswer
      rw [answer_bind_of_error hfirst, answer_bind_of_error hsecond]

theorem agree_pure (a : α) : Agree (pure a) (pure a) := fun _ _ ↦ rfl

private theorem agree_throw (failure : Failure) :
    Agree (throw failure : Logged α) (throw failure) :=
  fun _ _ ↦ rfl

end Steps

private theorem agree_evaluateTree (tree : Node) :
    Agree (evaluateTree tree) (evaluateTree tree) := by
  intro log log'
  rw [answer, answer, evaluateTree]
  cases tree.evaluate with
  | ok value => rfl
  | error failure => cases failure <;> rfl

private theorem agree_translation (text : Option String) :
    Agree (translation text) (translation text) := by
  cases text with
  | none => exact agree_throw .meaningless
  | some text => exact agree_pure text

/-! ## Operations on texts -/

variable {s t : String}

private theorem agree_parse (h : Scanner.tokens s = Scanner.tokens t) :
    Agree (parse (.text s)) (parse (.text t)) := by
  intro log log'
  change answer (parseText s) log = answer (parseText t) log'
  have hsource := Scanner.supplies_source t
  rw [← h] at hsource
  rw [answer, answer, parseText_eq, parseText_eq]
  obtain ⟨w, marker, rest, tree, after, hsplit, hmarker, hphrase, hok, -⟩ |
      ⟨taken, rest, expected, after, hsplit, hbreaks, herror, -⟩ :=
    Parser.parseFrom_outcome (Scanner.supplies_source s)
      (fun _ htoken ↦ Scanner.decimal_of_mem_tokens htoken) { log := .source s :: log }
  · rw [hsplit] at hsource
    obtain ⟨after', hok', -⟩ :=
      Parser.parseFrom_eq_ok hsource hmarker hphrase { log := .source t :: log' }
    rw [hok, hok']
  · rw [hsplit] at hsource
    obtain ⟨after', herror', -⟩ :=
      Parser.parseFrom_eq_error hsource hbreaks { log := .source t :: log' }
    rw [herror, herror']

theorem agree_parse_of_phrase {body : Node} (hs : Phrase .exp (Scanner.pieces s.toList) body)
    (ht : Phrase .exp (Scanner.pieces t.toList) body) :
    Agree (parse (.text s)) (parse (.text t)) := by
  intro log log'
  obtain ⟨after, hs⟩ := (parse_eq_ok_iff log).mpr hs
  obtain ⟨after', ht⟩ := (parse_eq_ok_iff log').mpr ht
  rw [answer, answer, hs, ht]

/-- What comes of trying to parse: a rejection is an outcome, any other failure is not. -/
def recovered : Except Failure Node → Except Failure (Except ParseError Node)
  | .ok tree => .ok (.ok tree)
  | .error (.parsing (.rejected reason)) => .ok (.error reason)
  | .error failure => .error failure

private theorem answer_tryParse (source : Value) (log : List Log.Entry) :
    answer (tryParse source) log = recovered (answer (parse source) log) := by
  rw [answer, answer, tryParse]
  cases parse source log with
  | ok tree after => rfl
  | error failure after =>
    cases failure with
    | parsing failure => cases failure <;> rfl
    | _ => rfl

/-- The operations on two texts answer the same. -/
structure SameResults (s t : String) : Prop where
  /-- Both have the same tree, or are rejected for the same reason. -/
  parse : Agree (parse (.text s)) (parse (.text t))
  /-- Trying to parse them has the same outcome. -/
  tryParse : Agree (tryParse (.text s)) (tryParse (.text t))
  /-- Both are expressions, or neither is. -/
  checkSyntax : Agree (checkSyntax (.text s)) (checkSyntax (.text t))
  /-- They have the same value. -/
  evaluate : Agree (evaluate (.text s)) (evaluate (.text t))
  /-- Their value is written in the same way. -/
  valueText : Agree (valueText (.text s)) (valueText (.text t))
  /-- They have the same Lisp text. -/
  toLisp : Agree (toLisp (.text s)) (toLisp (.text t))
  /-- They have the same C text. -/
  toC : Agree (toC (.text s)) (toC (.text t))
  /-- Their trees are shown in the same way. -/
  dump : Agree (dump (.text s)) (dump (.text t))

/-- **Texts that are parsed alike have the same results.** -/
theorem SameResults.of_parse (h : Agree (Expression.parse (.text s)) (Expression.parse (.text t))) :
    SameResults s t := by
  have htree : Agree (tree (.text s)) (tree (.text t)) := h
  have htry : Agree (Expression.tryParse (.text s)) (Expression.tryParse (.text t)) := by
    intro log log'
    rw [answer_tryParse, answer_tryParse, h log log']
  have hevaluate : Agree (Expression.evaluate (.text s)) (Expression.evaluate (.text t)) :=
    htree.bind agree_evaluateTree
  refine ⟨h, htry, htry.bind fun _ ↦ agree_pure _, hevaluate, hevaluate.bind fun value ↦ ?_,
    htree.bind fun _ ↦ agree_translation _, htree.bind fun _ ↦ agree_translation _,
    htree.bind fun _ ↦ agree_pure _⟩
  split
  · exact agree_pure _
  · exact agree_throw _

end Expression

/-! ## Joined texts -/

namespace Scanner

/-- **The tokens of joined texts** are those of the one without the marker and then those of the
other exactly if no segment reaches across the place where they meet. At such a place any blanks may
stand, or none, with the same tokens and the same results. -/
theorem tokens_append_iff (s t : String) :
    (tokens (s ++ t) = (tokens s).dropLast ++ tokens t ↔ Parted s.toList t.toList) ∧
    (Parted s.toList t.toList → ∀ blanks others : String,
      blanks.toList.all Text.isBlank = true → others.toList.all Text.isBlank = true →
        tokens (s ++ blanks ++ t) = tokens (s ++ others ++ t) ∧
        Expression.SameResults (s ++ blanks ++ t) (s ++ others ++ t)) := by
  refine ⟨?_, fun hparted blanks others hblanks hothers ↦ ?_⟩
  · simp only [tokens_eq_pieces, String.toList_append, List.dropLast_concat, ← List.append_assoc,
      List.append_left_inj]
    exact pieces_append_iff
  · have htokens : tokens (s ++ blanks ++ t) = tokens (s ++ others ++ t) := by
      simp only [tokens_eq_pieces, String.toList_append, List.append_assoc,
        pieces_append_blanks hparted hblanks, pieces_append_blanks hparted hothers]
    exact ⟨htokens, .of_parse (Expression.agree_parse htokens)⟩

/-- The texts `2*3` and `**2` are parted, so that blanks may stand between them. -/
theorem tokens_append_blanks_power :
    Parted "2*3".toList "**2".toList ∧
      tokens ("2*3" ++ "**2") = (tokens "2*3").dropLast ++ tokens "**2" ∧
      tokens ("2*3" ++ " \n" ++ "**2") = tokens ("2*3" ++ "" ++ "**2") ∧
      Expression.SameResults ("2*3" ++ " \n" ++ "**2") ("2*3" ++ "" ++ "**2") := by
  have hparted : Parted "2*3".toList "**2".toList :=
    parted_cons ['*', '2'] (by decide) fun _ ↦ by decide
  obtain ⟨hjoined, hblanks⟩ := tokens_append_iff "2*3" "**2"
  exact ⟨hparted, hjoined.mpr hparted, hblanks hparted " \n" "" (by decide) (by decide)⟩

end Scanner

end ArithLang
