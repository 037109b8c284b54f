import ArithLang.CommandLine.Run
import ArithLang.Proofs.Expression
import ArithLang.Proofs.Translation.Writer

/-!
# How runs end

A run ends with a status if everything that fails in it is a fault of the expression. What it shows
of a tree may fail in the value only, as the translations of a tree always exist. So a run is broken
off where the value is asked for and the report on a power fails, and nowhere else, provided that
there is a level for the log.
-/

namespace ArithLang

namespace Expression

variable {anchor : Option Token} {body : Node} {log : List Log.Entry}

/-! ## Operations on a tree -/

theorem valueText_of_error {failure : Evaluation.Failure} (h : body.evaluate = .error failure)
    (log : List Log.Entry) :
    ∃ after, valueText (.node (.prog anchor body)) log = .error (.evaluation failure) after := by
  obtain ⟨after, hevaluate⟩ := evaluateTree_of_error h log
  exact ⟨after, bind_eq_of_error hevaluate⟩

theorem valueText_of_ok {value : ℕ} (h : body.evaluate = .ok value) (log : List Log.Entry) :
    valueText (.node (.prog anchor body)) log
      = if Text.isWritable value = true then .ok (toString value) log
        else .error .unprintable log := by
  have hevaluate : evaluate (.node (.prog anchor body)) log = .ok value log :=
    evaluateTree_of_ok h log
  rw [valueText, bind_eq_of_ok hevaluate]
  by_cases hwritable : Text.isWritable value = true
  · rw [if_pos hwritable, if_pos hwritable]
    rfl
  · rw [if_neg hwritable, if_neg hwritable]
    rfl

private theorem Failure.Announced.exists_reason {failure : Failure} (h : failure.Announced) :
    ∃ reason, failure.reason? = some reason := by
  match failure, h with
  | .parsing (.rejected error), _ => exact ⟨error.message, rfl⟩
  | .evaluation (.literalTooLong digits), _ => exact ⟨_, rfl⟩
  | .evaluation (.outOfRange base exponent), _ => exact ⟨_, rfl⟩

end Expression

namespace CommandLine

open Expression

variable {text : String} {body : Node} {settings : Settings}

/-! ## What is shown of a tree -/

/-- The settings ask for the value of the expression. -/
def Settings.ShowsValue (settings : Settings) : Prop :=
  settings.emit = some .eval ∨ settings.emit = some .all

theorem shown_of_error {emit : Emit} (hemit : emit = .eval ∨ emit = .all)
    {failure : Evaluation.Failure} (h : body.evaluate = .error failure) (log : List Log.Entry) :
    ∃ after, shown (.node (.prog none body)) emit log = .error (.evaluation failure) after := by
  obtain ⟨after, hvalue⟩ := valueText_of_error h log
  rcases hemit with rfl | rfl
  · exact ⟨after, hvalue⟩
  · exact ⟨after, bind_eq_of_error hvalue⟩

/-- A tree with a value is shown, unless the value is too long to be written. -/
private theorem shown_of_ok (hmeaningful : body.Meaningful) {value : ℕ}
    (h : body.evaluate = .ok value)
    (emit : Emit) (log : List Log.Entry) :
    (∃ text, shown (.node (.prog none body)) emit log = .ok text log) ∨
      shown (.node (.prog none body)) emit log = .error .unprintable log := by
  have hvalue := @valueText_of_ok none body value h log
  obtain ⟨lisp, hlisp⟩ : ∃ lisp, toLisp (.node (.prog none body)) log = .ok lisp log :=
    Lisp.writer.exists_translate_eq hmeaningful log
  obtain ⟨c, hc⟩ : ∃ c, toC (.node (.prog none body)) log = .ok c log :=
    C.writer.exists_translate_eq hmeaningful log
  by_cases hwritable : Text.isWritable value = true
  · rw [if_pos hwritable] at hvalue
    cases emit with
    | eval => exact .inl ⟨_, hvalue⟩
    | lisp => exact .inl ⟨lisp, hlisp⟩
    | c => exact .inl ⟨c, hc⟩
    | all =>
      rw [shown, bind_eq_of_ok hvalue, bind_eq_of_ok hlisp, bind_eq_of_ok hc]
      exact .inl ⟨_, rfl⟩
  · rw [if_neg hwritable] at hvalue
    cases emit with
    | eval => exact .inr hvalue
    | lisp => exact .inl ⟨lisp, hlisp⟩
    | c => exact .inl ⟨c, hc⟩
    | all => exact .inr (bind_eq_of_error hvalue)

private theorem shown_of_not_value (hmeaningful : body.Meaningful) {emit : Emit}
    (hemit : ¬ (emit = .eval ∨ emit = .all)) (log : List Log.Entry) :
    ∃ text, shown (.node (.prog none body)) emit log = .ok text log := by
  cases emit with
  | eval => exact absurd (.inl rfl) hemit
  | all => exact absurd (.inr rfl) hemit
  | lisp => exact Lisp.writer.exists_translate_eq hmeaningful log
  | c => exact C.writer.exists_translate_eq hmeaningful log

/-! ## The end of a run -/

/-- A run ends well, or with a fault of the expression. -/
def Exit.IsStatus (exit : Exit) : Prop := ∃ code ≤ 1, exit = .status code

@[simp] theorem isStatus_zero : (Exit.status 0).IsStatus := ⟨0, Nat.zero_le 1, rfl⟩

@[simp] private theorem isStatus_one : (Exit.status 1).IsStatus := ⟨1, Nat.le_refl 1, rfl⟩

@[simp] private theorem not_isStatus_broken (crash : Crash) : ¬ (Exit.broken crash).IsStatus := by
  rintro ⟨code, -, hcode⟩
  cases hcode

@[simp] theorem isStatus_failed_iff {failure : Expression.Failure} :
    (failed failure).2.IsStatus ↔ ∃ reason, failure.reason? = some reason := by
  rw [failed]
  cases hreason : failure.reason? with
  | some reason => exact ⟨fun _ ↦ ⟨reason, rfl⟩, fun _ ↦ isStatus_one⟩
  | none =>
    refine ⟨fun h ↦ absurd h (not_isStatus_broken _), ?_⟩
    rintro ⟨reason, h⟩
    cases h

private theorem showTree_of_ok {emit : Emit} (hemit : settings.emit = some emit)
    {shownText : String}
    {after : List Log.Entry} (h : shown (.node (.prog none body)) emit [] = .ok shownText after) :
    (showTree settings (.prog none body)).2 = .status 0 := by
  rw [showTree, hemit]
  simp only [h]
  rfl

theorem showTree_of_error {emit : Emit} (hemit : settings.emit = some emit)
    {failure : Expression.Failure} {after : List Log.Entry}
    (h : shown (.node (.prog none body)) emit [] = .error failure after) :
    (showTree settings (.prog none body)).2 = (failed failure).2 := by
  rw [showTree, hemit]
  simp only [h]
  rfl

private theorem showsValue_iff {emit : Emit} (hemit : settings.emit = some emit) :
    settings.ShowsValue ↔ emit = .eval ∨ emit = .all := by
  rw [Settings.ShowsValue, hemit, Option.some.injEq, Option.some.injEq]

/-- Where the value of a tree is shown, the run ends with a status, unless the report on a power
fails. -/
private theorem isStatus_showTree_of_value (hmeaningful : body.Meaningful) {emit : Emit}
    (hemit : settings.emit = some emit) (hvalue : emit = .eval ∨ emit = .all) :
    (showTree settings (.prog none body)).2.IsStatus ↔
      ¬ ∃ b e, body.evaluate = .error (.unwritable b e) := by
  rcases evaluate_cases hmeaningful with
    ⟨hnot, ⟨value, hok⟩ | ⟨failure, hfailure, hannounced⟩⟩ | ⟨b, e, hunwritable⟩
  · refine ⟨fun _ ↦ hnot, fun _ ↦ ?_⟩
    rcases shown_of_ok hmeaningful hok emit [] with ⟨text, hshown⟩ | hshown
    · rw [showTree_of_ok hemit hshown]
      exact isStatus_zero
    · rw [showTree_of_error hemit hshown]
      exact isStatus_failed_iff.mpr ⟨_, rfl⟩
  · refine ⟨fun _ ↦ hnot, fun _ ↦ ?_⟩
    obtain ⟨after, hshown⟩ := shown_of_error hvalue hfailure []
    rw [showTree_of_error hemit hshown]
    exact isStatus_failed_iff.mpr hannounced.exists_reason
  · -- the only failure here for which no reason can be given
    obtain ⟨after, hshown⟩ := shown_of_error hvalue hunwritable []
    rw [showTree_of_error hemit hshown]
    refine ⟨fun h ↦ ?_, fun h ↦ absurd ⟨b, e, hunwritable⟩ h⟩
    obtain ⟨reason, hreason⟩ := isStatus_failed_iff.mp h
    cases hreason

private theorem isStatus_showTree_iff (hmeaningful : body.Meaningful) :
    (showTree settings (.prog none body)).2.IsStatus ↔
      ¬ (settings.ShowsValue ∧ ∃ b e, body.evaluate = .error (.unwritable b e)) := by
  cases hemit : settings.emit with
  | none =>
    have hvalue : ¬ settings.ShowsValue := by simp [Settings.ShowsValue, hemit]
    have hexit : (showTree settings (.prog none body)).2 = .status 0 := by
      rw [showTree, hemit]
      rfl
    rw [hexit]
    exact ⟨fun _ h ↦ hvalue h.1, fun _ ↦ isStatus_zero⟩
  | some emit =>
    rw [showsValue_iff hemit]
    by_cases hvalue : emit = .eval ∨ emit = .all
    · rw [isStatus_showTree_of_value hmeaningful hemit hvalue]
      exact ⟨fun h hboth ↦ h hboth.2, fun h hunwritable ↦ h ⟨hvalue, hunwritable⟩⟩
    · obtain ⟨text, hshown⟩ := shown_of_not_value hmeaningful hvalue []
      rw [showTree_of_ok hemit hshown]
      exact ⟨fun _ h ↦ hvalue h.1, fun _ ↦ isStatus_zero⟩

private theorem isStatus_runText_iff :
    (runText settings text).2.IsStatus ↔ ¬ (settings.ShowsValue ∧ Overlong text) := by
  by_cases hsentence : ∃ tree, Sentence (Scanner.tokens text) tree
  · obtain ⟨body, hsentence⟩ := hsentence
    obtain ⟨after, hparse⟩ := parseText_eq_ok hsentence []
    have hexit : (runText settings text).2 = (showTree settings (.prog none body)).2 := by
      rw [runText]
      simp only [tryParse_of_ok hparse]
      rfl
    rw [hexit, isStatus_showTree_iff hsentence.meaningful, overlong_iff hsentence]
  · obtain ⟨error, after, hparse⟩ := parseText_eq_error hsentence []
    have hexit : (runText settings text).2 = .status 1 := by
      rw [runText]
      simp only [tryParse_of_rejected hparse]
      rfl
    rw [hexit]
    refine ⟨?_, fun _ ↦ isStatus_one⟩
    rintro - ⟨-, tree, -, -, htree, -⟩
    exact hsentence ⟨tree, htree⟩

/-- A run ends with a status, unless there is no level for its log, or the text is overlong and its
value is asked for. -/
theorem isStatus_execute_run_iff {platform : Platform} :
    (Command.run.execute platform settings text).2.IsStatus ↔
      settings.log.isSome = true ∧ ¬ (settings.ShowsValue ∧ Overlong text) := by
  rw [Command.execute]
  cases hlog : settings.log with
  | none =>
    exact ⟨fun h ↦ absurd h (not_isStatus_broken _), fun h ↦ absurd h.1 Bool.false_ne_true⟩
  | some level =>
    rw [← isStatus_runText_iff]
    exact ⟨fun h ↦ ⟨rfl, h⟩, fun h ↦ h.2⟩

/-- **What comes of a text.** Its evaluation answers a value or an announced failure exactly if the
text is not overlong. Of an overlong text it answers that a report cannot be written. A run on the
text ends with status 0 or 1 exactly if there is a level for its log and it does not ask for the
value of an overlong text. -/
theorem announced_iff_not_overlong (text : String) (log : List Log.Entry) (platform : Platform)
    (settings : Settings) :
    (((∃ value after, evaluate (.text text) log = .ok value after) ∨
        ∃ failure after, evaluate (.text text) log = .error failure after ∧ failure.Announced) ↔
      ¬ Overlong text) ∧
    (Overlong text → ∃ b e after,
      evaluate (.text text) log = .error (.evaluation (.unwritable b e)) after) ∧
    ((Command.run.execute platform settings text).2.IsStatus ↔
      settings.log.isSome = true ∧ ¬ (settings.ShowsValue ∧ Overlong text)) := by
  rcases evaluate_text_cases text log with ⟨hnot, hanswer⟩ | ⟨hoverlong, b, e, after, herror⟩
  · exact ⟨⟨fun _ ↦ hnot, fun _ ↦ hanswer⟩, fun h ↦ absurd h hnot, isStatus_execute_run_iff⟩
  · refine ⟨⟨?_, fun h ↦ absurd hoverlong h⟩, fun _ ↦ ⟨b, e, after, herror⟩,
      isStatus_execute_run_iff⟩
    rintro (⟨value, final, hok⟩ | ⟨failure, final, hfailure, hannounced⟩)
    · rw [herror] at hok
      cases hok
    · rw [herror] at hfailure
      cases hfailure
      exact hannounced.elim

/-- The square of a product of fourteen powers, each of them in range. -/
def squareText : String :=
  "(2**1023*2**1023*2**1023*2**1023*2**1023*2**1023*2**1023*2**1023*2**1023*2**1023*2**1023"
    ++ "*2**1023*2**1023*2**1023)**2"

/-- Whether an evaluation ends with a report that cannot be written. -/
def isUnwritable : EStateM.Result Expression.Failure (List Log.Entry) ℕ → Bool
  | .error (.evaluation (.unwritable _ _)) _ => true
  | _ => false

/-- An expression whose evaluation answers neither a value nor an announced failure. -/
theorem evaluate_squareText :
    ¬ ((∃ value after, evaluate (.text squareText) [] = .ok value after) ∨
      ∃ failure after, evaluate (.text squareText) [] = .error failure after ∧
        failure.Announced) := by
  have hanswer : isUnwritable (evaluate (.text squareText) []) = true := by decide +kernel
  rintro (⟨value, after, hok⟩ | ⟨failure, after, herror, hannounced⟩)
  · rw [hok] at hanswer
    cases hanswer
  · rw [herror] at hanswer
    match failure, hannounced with
    | .parsing (.rejected error), _ => cases hanswer
    | .evaluation (.literalTooLong digits), _ => cases hanswer
    | .evaluation (.outOfRange base exponent), _ => cases hanswer

end CommandLine

end ArithLang
