import ArithLang.Proofs.CommandLine.Invocation
import ArithLang.Proofs.CommandLine.Run
import ArithLang.Proofs.Translation.Conservation
import ArithLang.Proofs.Tree.Dump

/-!
# What is printed of a text

A run makes its output in the order of its events, and what is asked for is complete before the
first of it is printed. So a failure takes back all of it, and leaves only the dump of the tree,
which is printed before. The value is the only part that can fail, as a tree that comes from a text
has both translations; so it alone decides on a run that shows everything (`shown_cases`).

A rejected text makes the run print that it is bad syntax. No run on an accepted text prints
anything like it, because there is no exclamation mark in a dump, in a value or in a translation.
-/

namespace ArithLang

/-! ## A character that is never printed -/

theorem not_mem_append {s t : String} (hs : '!' ∉ s.toList) (ht : '!' ∉ t.toList) :
    '!' ∉ (s ++ t).toList := by
  rw [String.toList_append]
  exact List.not_mem_append hs ht

private theorem not_mem_toString (n : ℕ) : '!' ∉ (toString n).toList := by
  intro hmem
  rw [show toString n = n.repr from rfl, Nat.toList_repr] at hmem
  exact absurd (Nat.isDigit_of_mem_toDigits (by decide) (by decide) hmem) (by decide)

namespace Outline

theorem not_mem_line {anchor : Option Token} (h : ∀ token ∈ anchor, '!' ∉ token.label.toList)
    (kind : Kind) (depth : ℕ) (children : List Outline) :
    '!' ∉ (Line.text ⟨depth, (node kind anchor children).label⟩).toList := by
  have hname : '!' ∉ kind.name.toList := by cases kind <;> decide
  cases anchor with
  | none => simp [hname]
  | some token => simp [hname, h token rfl]

end Outline

namespace Node

open Outline

variable {body : Node}

private theorem Spelled.not_mem_lines (h : body.Spelled) (depth : ℕ) :
    '!' ∉ (Line.textAll (body.outline.lines depth)).toList := by
  have htoken : ∀ (category : Category) {lexeme : String}, '!' ∉ lexeme.toList →
      ∀ token ∈ some (Token.ofCategory category lexeme), '!' ∉ token.label.toList := by
    rintro category lexeme hlexeme token ⟨⟩
    have hname : '!' ∉ category.name.toList := by cases category <;> decide
    simp [hname, hlexeme]
  induction h generalizing depth with
  | literal literal =>
    rw [outline, lines, linesAll, Line.toList_textAll_cons]
    have hlexeme : '!' ∉ literal.lexeme.toList :=
      List.count_eq_zero.mp (Frame.count_literal (by decide) literal)
    have hline := not_mem_line (htoken .int hlexeme) .int depth []
    exact List.not_mem_append hline (by decide)
  | @operation operator left right _ _ ihleft ihright =>
    rw [outline, lines, linesAll, linesAll, linesAll, Line.toList_textAll_cons, List.append_nil,
      Line.textAll_append]
    have hsign : '!' ∉ operator.sign.toList := by cases operator <;> decide
    have hline := not_mem_line (htoken operator.category hsign) operator.kind depth
      [left.outline, right.outline]
    exact List.not_mem_append hline (not_mem_append (ihleft (depth + 1)) (ihright (depth + 1)))

private theorem Spelled.not_mem_dump (h : body.Spelled) : '!' ∉ (prog none body).dump.toList := by
  rw [show (prog none body).dump = _ from (prog none body).outline.dump_eq_layout, layout, outline,
    lines, linesAll, linesAll, List.append_nil, Line.toList_textAll_cons]
  exact List.not_mem_append
    (not_mem_line (fun token htoken ↦ absurd htoken (Option.not_mem_none token)) .prog 0 _)
    (h.not_mem_lines 1)

end Node

namespace CommandLine

open Expression

/-! ## What a run prints -/

/-- The text that an event prints, if it prints one. -/
def Event.text? : Event → Option String
  | .print text => some text
  | .log _ => none

/-- The text that some events print. -/
def printed (events : List Event) : String := String.join (events.filterMap Event.text?)

/-- What a run prints, and how it ends. -/
def outcome (run : List Event × Exit) : String × Exit := (printed run.1, run.2)

variable {settings : Settings} {platform : Platform} {text : String} {body : Node}

@[simp] theorem printed_nil : printed [] = "" := rfl

@[simp] theorem printed_print (text : String) (events : List Event) :
    printed (.print text :: events) = text ++ printed events :=
  String.join_cons

@[simp] theorem printed_log (entry : Log.Entry) (events : List Event) :
    printed (.log entry :: events) = printed events :=
  rfl

@[simp] theorem printed_append (events others : List Event) :
    printed (events ++ others) = printed events ++ printed others := by
  rw [printed, List.filterMap_append, String.join_append]
  rfl

@[simp] theorem printed_logged (log : List Log.Entry) : printed (logged log) = "" := by
  rw [logged]
  induction log.reverse with
  | nil => rfl
  | cons entry entries ih => exact ih

@[simp] theorem outcome_after (events : List Event) (run : List Event × Exit) :
    outcome (after events run) = (printed events ++ (outcome run).1, (outcome run).2) := by
  rw [outcome, after, printed_append]
  rfl

@[simp] theorem outcome_ended (code : ℕ) : outcome (ended code) = ("", .status code) := rfl

@[simp] private theorem outcome_failed (failure : Expression.Failure) :
    outcome (failed failure) = ("", (failed failure).2) := by
  rw [outcome, failed]
  cases failure.reason? <;> rfl

@[simp] private theorem outcome_after_logged (log : List Log.Entry) (run : List Event × Exit) :
    outcome (after (logged log) run) = outcome run := by
  simp

private theorem output_ofEvents (h : settings.report = none) (time : String) (events : List Event) :
    (Transcript.ofEvents settings time events).output = printed events := by
  have hrun : ∀ transcript : Transcript, (events.foldl (.add settings time) transcript).output
      = transcript.output ++ printed events := by
    induction events with
    | nil => exact fun transcript ↦ String.append_empty.symm
    | cons event events ih =>
      intro transcript
      rw [List.foldl_cons, ih]
      cases event with
      | print text =>
        rw [printed_print, ← String.append_assoc]
        rfl
      | log entry =>
        rw [Transcript.add, h]
        split_ifs
        · rfl
        · rfl
  rw [Transcript.ofEvents, hrun]
  exact String.empty_append

/-! ## What comes of a text -/

private theorem outcome_execute (h : settings.log.isSome = true) (command : Command)
    (text : String) :
    outcome (command.execute platform settings text)
      = outcome (match command with
        | .run => runText settings text
        | .check => checkText text) := by
  have hlog : settings.log ≠ none := Option.isSome_iff_ne_none.mp h
  cases command <;> simp [Command.execute, hlog]

section Text

variable {tree : Node} {after : List Log.Entry}

theorem outcome_print (log : List Log.Entry) (text : String) (code : ℕ) :
    outcome (CommandLine.after (logged log ++ [.print text]) (ended code))
      = (text, .status code) := by
  simp

private theorem outcome_checkText_of_ok (h : parseText text [] = .ok tree after) :
    outcome (checkText text) = ("Syntax OK!\n", .status 0) := by
  rw [checkText, checkSyntax_of_tryParse (tryParse_of_ok h)]
  exact outcome_print after _ 0

private theorem outcome_checkText_of_rejected {error : ParseError}
    (h : parseText text [] = .error (.parsing (.rejected error)) after) :
    outcome (checkText text) = ("Bad syntax!\n", .status 1) := by
  rw [checkText, checkSyntax_of_tryParse (tryParse_of_rejected h)]
  exact outcome_print _ _ 1

private theorem outcome_runText_of_ok (h : parseText text [] = .ok tree after) :
    outcome (runText settings text) = outcome (showTree settings tree) := by
  rw [runText, tryParse_of_ok h]
  exact outcome_after_logged after _

private theorem outcome_runText_of_rejected {error : ParseError}
    (h : parseText text [] = .error (.parsing (.rejected error)) after) :
    outcome (runText settings text) = ("Bad syntax!\n", .status 1) := by
  rw [runText, tryParse_of_rejected h]
  exact outcome_print _ _ 1

end Text

/-! ## What comes of a tree -/

section Tree

variable {tree : Node} {emit : Emit} {log : List Log.Entry}

/-- What is printed of a tree before anything that can fail. -/
def Settings.head (settings : Settings) (tree : Node) : String :=
  if settings.ast then tree.dump ++ "\n" else ""

private theorem printed_dump (settings : Settings) (tree : Node) :
    printed (if settings.ast then [Event.print (tree.dump ++ "\n")] else [])
      = settings.head tree := by
  rw [Settings.head]
  split_ifs
  · simp
  · rfl

private theorem outcome_showTree_of_ok (hemit : settings.emit = some emit) {shownText : String}
    (h : shown (.node tree) emit [] = .ok shownText log) :
    outcome (showTree settings tree)
      = (settings.head tree ++ (shownText ++ "\n"), .status 0) := by
  rw [showTree, hemit]
  simp only [h]
  simp [printed_dump]

private theorem outcome_showTree_of_error (hemit : settings.emit = some emit)
    {failure : Expression.Failure} (h : shown (.node tree) emit [] = .error failure log) :
    outcome (showTree settings tree) = (settings.head tree, (failed failure).2) := by
  rw [showTree, hemit]
  simp only [h]
  simp [printed_dump]

theorem failed_ne_zero (failure : Expression.Failure) : (failed failure).2 ≠ .status 0 := by
  intro h
  rw [failed] at h
  cases hreason : failure.reason? with
  | some reason =>
    rw [hreason] at h
    cases h
  | none =>
    rw [hreason] at h
    cases h

end Tree

/-- A value and two translations under their headings. -/
def headed (value lisp c : String) : String :=
  ("Result of evaluation:\n\n" ++ value) ++ "\n\n" ++ ("Translation to Lisp:\n\n" ++ lisp)
    ++ "\n\n" ++ ("Translation to C:\n\n" ++ c)

private theorem intercalate_three (s a b c : String) :
    s.intercalate [a, b, c] = a ++ s ++ b ++ s ++ c :=
  rfl

private theorem valueText_cases (body : Node) :
    (∃ value : String, '!' ∉ value.toList ∧
      valueText (.node (.prog none body)) [] = .ok value []) ∨
    ∃ failure after, valueText (.node (.prog none body)) [] = .error failure after := by
  cases hevaluate : body.evaluate with
  | error failure =>
    obtain ⟨after, hvalue⟩ := valueText_of_error hevaluate []
    exact .inr ⟨_, after, hvalue⟩
  | ok value =>
    have hvalue := @valueText_of_ok none body value hevaluate []
    split_ifs at hvalue with hwritable
    · exact .inl ⟨_, not_mem_toString value, hvalue⟩
    · exact .inr ⟨_, _, hvalue⟩

private theorem not_mem_headed {value lisp c : String} (hvalue : '!' ∉ value.toList)
    (hlisp : '!' ∉ lisp.toList) (hc : '!' ∉ c.toList) : '!' ∉ (headed value lisp c).toList := by
  have hgap : '!' ∉ "\n\n".toList := by decide
  have hfirst : '!' ∉ "Result of evaluation:\n\n".toList := by decide
  have hsecond : '!' ∉ "Translation to Lisp:\n\n".toList := by decide
  have hthird : '!' ∉ "Translation to C:\n\n".toList := by decide
  have htwo := not_mem_append (not_mem_append (not_mem_append hfirst hvalue) hgap)
    (not_mem_append hsecond hlisp)
  exact not_mem_append (not_mem_append htwo hgap) (not_mem_append hthird hc)

theorem exists_translate_unmarked {writer : Writer} {frame : Frame} (hframed : writer.Framed frame)
    (haround : ∀ operator, '!' ∉ frame.around operator)
    (hprogram : ∀ written, '!' ∉ written.toList → '!' ∉ (writer.program written).toList)
    (h : body.Spelled) :
    ∃ text : String, writer.translate (.node (.prog none body)) [] = .ok text [] ∧
      '!' ∉ text.toList := by
  obtain ⟨written, hwrite, hreads⟩ := h.exists_write_reads hframed
  exact ⟨_, Writer.translate_root hwrite [],
    hprogram written (hreads.not_mem (by decide) haround)⟩

/-- **The value decides.** The tree of a text has both translations. If it also has a value that can
be written, everything can be shown, under the headings; otherwise nothing is. -/
theorem shown_cases (h : body.Spelled) : ∃ lisp c : String,
    shown (.node (.prog none body)) .lisp [] = .ok lisp [] ∧
    shown (.node (.prog none body)) .c [] = .ok c [] ∧
    '!' ∉ lisp.toList ∧ '!' ∉ c.toList ∧
    ((∃ value : String, '!' ∉ value.toList ∧
        shown (.node (.prog none body)) .eval [] = .ok value [] ∧
        shown (.node (.prog none body)) .all [] = .ok (headed value lisp c) []) ∨
      ∃ failure after, shown (.node (.prog none body)) .eval [] = .error failure after ∧
        shown (.node (.prog none body)) .all [] = .error failure after) := by
  obtain ⟨lisp, hlisp, hlispmark⟩ := exists_translate_unmarked Lisp.framed_writer
    (fun operator ↦ by cases operator <;> decide)
    (fun _ hwritten ↦ not_mem_append (by decide) hwritten) h
  obtain ⟨c, hc, hcmark⟩ := exists_translate_unmarked C.framed_writer
    (fun operator ↦ by cases operator <;> decide)
    (fun _ hwritten ↦ not_mem_append (not_mem_append (by decide) hwritten) (by decide)) h
  have hlisp : toLisp (.node (.prog none body)) [] = .ok lisp [] := hlisp
  have hc : toC (.node (.prog none body)) [] = .ok c [] := hc
  refine ⟨lisp, c, hlisp, hc, hlispmark, hcmark, ?_⟩
  rcases valueText_cases body with ⟨value, hmark, hvalue⟩ | ⟨failure, after, hvalue⟩
  · refine .inl ⟨value, hmark, hvalue, ?_⟩
    rw [shown, bind_eq_of_ok hvalue, bind_eq_of_ok hlisp, bind_eq_of_ok hc, intercalate_three]
    rfl
  · exact .inr ⟨failure, after, hvalue, bind_eq_of_error hvalue⟩

/-! ## Calls -/

namespace Invocation

/-- What a call writes to the standard output, and how it ends. -/
def result {command : Command} (call : Invocation command text) : String × Exit :=
  (call.respond.1.output, call.respond.2)

/-- What a run prints of a tree before anything that can fail. -/
def head (run : Invocation .run text) (tree : Node) : String :=
  if run.asksAst then tree.dump ++ "\n" else ""

private theorem result_eq_outcome {command : Command} (call : Invocation command text) :
    call.result = outcome (command.execute call.platform call.settings text) := by
  rw [result, call.respond_eq, output_ofEvents call.settings_report]
  rfl

variable {check : Invocation .check text} {run : Invocation .run text} {tree : Node}
  {log : List Log.Entry}

@[simp] private theorem result_check : check.result = outcome (checkText text) := by
  rw [result_eq_outcome, outcome_execute check.settings_log]

@[simp] theorem result_run : run.result = outcome (runText run.settings text) := by
  rw [result_eq_outcome, outcome_execute run.settings_log]

@[simp] private theorem head_settings (run : Invocation .run text) (tree : Node) :
    run.settings.head tree = run.head tree := by
  rw [Settings.head, head, run.settings_ast]

section Parsed

variable (hparse : parseText text [] = .ok tree log)

include hparse

theorem result_of_shown {after : List Log.Entry} {shownText : String}
    (h : shown (.node tree) run.choice [] = .ok shownText after) :
    run.result = (run.head tree ++ shownText ++ "\n", .status 0) := by
  rw [result_run, outcome_runText_of_ok hparse, outcome_showTree_of_ok run.settings_emit h,
    head_settings, ← String.append_assoc]

theorem result_of_failure {after : List Log.Entry} {failure : Expression.Failure}
    (h : shown (.node tree) run.choice [] = .error failure after) :
    run.result = (run.head tree, (failed failure).2) := by
  rw [result_run, outcome_runText_of_ok hparse, outcome_showTree_of_error run.settings_emit h,
    head_settings]

end Parsed

section Accepted

variable (hspelled : body.Spelled) (hparse : parseText text [] = .ok (.prog none body) log)

include hspelled hparse

/-- A run on an accepted text succeeds, or fails in the value and leaves only the dump. -/
theorem result_cases (run : Invocation .run text) :
    (∃ shownText : String, '!' ∉ shownText.toList ∧
      run.result = (run.head (.prog none body) ++ shownText ++ "\n", .status 0)) ∨
    ((run.choice = .all ∨ run.choice = .eval) ∧ run.result.1 = run.head (.prog none body) ∧
      run.result.2 ≠ .status 0) := by
  obtain ⟨lisp, c, hlisp, hc, hlispmark, hcmark, hvalue⟩ := shown_cases hspelled
  have hfailure : ∀ {failure after}, shown (.node (.prog none body)) run.choice []
      = .error failure after → run.result.1 = run.head (.prog none body) ∧
        run.result.2 ≠ .status 0 := by
    intro failure after hshown
    rw [result_of_failure hparse hshown]
    exact ⟨rfl, failed_ne_zero failure⟩
  cases hchoice : run.choice with
  | lisp => exact .inl ⟨lisp, hlispmark, result_of_shown hparse (hchoice ▸ hlisp)⟩
  | c => exact .inl ⟨c, hcmark, result_of_shown hparse (hchoice ▸ hc)⟩
  | eval =>
    rcases hvalue with ⟨value, hmark, heval, -⟩ | ⟨failure, after, heval, -⟩
    · exact .inl ⟨value, hmark, result_of_shown hparse (hchoice ▸ heval)⟩
    · exact .inr ⟨.inr rfl, hfailure (hchoice ▸ heval)⟩
  | all =>
    rcases hvalue with ⟨value, hmark, -, hall⟩ | ⟨failure, after, -, hall⟩
    · exact .inl ⟨_, not_mem_headed hmark hlispmark hcmark,
        result_of_shown hparse (hchoice ▸ hall)⟩
    · exact .inr ⟨.inl rfl, hfailure (hchoice ▸ hall)⟩

private theorem not_mem_result (run : Invocation .run text) : '!' ∉ run.result.1.toList := by
  have hhead : '!' ∉ (run.head (.prog none body)).toList := by
    rw [head]
    split_ifs
    · exact not_mem_append hspelled.not_mem_dump (by decide)
    · decide
  rcases run.result_cases hspelled hparse with ⟨shownText, hmark, hresult⟩ | ⟨-, hresult, -⟩
  · rw [hresult]
    exact not_mem_append (not_mem_append hhead hmark) (by decide)
  · rw [hresult]
    exact hhead

private theorem exists_headed (hall : run.choice = .all) (hexit : run.result.2 = .status 0) :
    ∃ value lisp c : String,
      run.result.1 = run.head (.prog none body) ++ headed value lisp c ++ "\n" ∧
      ∀ single : Invocation .run text,
        (single.choice = .eval → single.result
          = (single.head (.prog none body) ++ value ++ "\n", .status 0)) ∧
        (single.choice = .lisp → single.result
          = (single.head (.prog none body) ++ lisp ++ "\n", .status 0)) ∧
        (single.choice = .c → single.result
          = (single.head (.prog none body) ++ c ++ "\n", .status 0)) := by
  obtain ⟨lisp, c, hlisp, hc, -, -, ⟨value, -, heval, hshown⟩ | ⟨failure, after, -, hshown⟩⟩ :=
    shown_cases hspelled
  · refine ⟨value, lisp, c, ?_, fun single ↦ ⟨fun h ↦ ?_, fun h ↦ ?_, fun h ↦ ?_⟩⟩
    · rw [result_of_shown hparse (hall ▸ hshown)]
    · exact result_of_shown hparse (h ▸ heval)
    · exact result_of_shown hparse (h ▸ hlisp)
    · exact result_of_shown hparse (h ▸ hc)
  · rw [result_of_failure hparse (hall ▸ hshown)] at hexit
    exact absurd hexit (failed_ne_zero failure)

end Accepted

/-- **A run prints all or nothing**, however it is called and wherever the text comes from. Checking
the text succeeds exactly if the run does not print that it is bad syntax. If the text is rejected,
that is all that is printed, and the status is 1. If it is accepted and the run does not succeed,
the value was asked for, and only the dump is printed, if it was asked for; so a run that asks for a
translation alone succeeds. And a run that asks for everything and succeeds prints under their
headings what the runs print that ask for the value or for one translation. -/
theorem prints_all_or_nothing (check : Invocation .check text) (run : Invocation .run text) :
    (check.result.2 = .status 0 ↔ ¬ "Bad syntax!".toList <:+: run.result.1.toList) ∧
    ((¬ ∃ tree before after, parse (.text text) before = .ok tree after) →
      check.result = ("Bad syntax!\n", .status 1) ∧ run.result = ("Bad syntax!\n", .status 1)) ∧
    ∀ tree before after, parse (.text text) before = .ok tree after →
      check.result = ("Syntax OK!\n", .status 0) ∧
      (run.result.2 ≠ .status 0 →
        run.result.1 = run.head tree ∧ (run.choice = .all ∨ run.choice = .eval)) ∧
      (run.choice = .lisp ∨ run.choice = .c → run.result.2 = .status 0) ∧
      (run.choice = .all → run.result.2 = .status 0 → ∃ value lisp c : String,
        run.result.1 = run.head tree ++ headed value lisp c ++ "\n" ∧
        ∀ single : Invocation .run text,
          (single.choice = .eval →
            single.result = (single.head tree ++ value ++ "\n", .status 0)) ∧
          (single.choice = .lisp →
            single.result = (single.head tree ++ lisp ++ "\n", .status 0)) ∧
          (single.choice = .c → single.result = (single.head tree ++ c ++ "\n", .status 0))) := by
  have hbad : ∀ {output : List Char}, "Bad syntax!".toList <:+: output → '!' ∈ output :=
    fun h ↦ h.subset (by decide)
  rcases parseText_cases text [] with ⟨body, log, hparse⟩ | ⟨reason, log, hparse⟩
  · have hcheck : check.result = ("Syntax OK!\n", .status 0) := by
      rw [result_check, outcome_checkText_of_ok hparse]
    have hspelled := Node.Spelled.of_pieces ((parse_eq_ok_iff []).mp ⟨log, hparse⟩)
    refine ⟨?_, fun h ↦ absurd ⟨_, _, _, hparse⟩ h, fun tree before after htree ↦ ?_⟩
    · rw [hcheck]
      exact iff_of_true rfl fun h ↦ run.not_mem_result hspelled hparse (hbad h)
    · -- the log does not matter for the tree
      obtain ⟨other, rfl, hphrase⟩ := exists_phrase_of_parse htree
      obtain ⟨_, hother⟩ := (parse_eq_ok_iff []).mpr hphrase
      cases hparse.symm.trans hother
      refine ⟨hcheck, fun hexit ↦ ?_, fun hchoice ↦ ?_, exists_headed hspelled hparse⟩
      · rcases run.result_cases hspelled hparse with ⟨_, -, hresult⟩ | ⟨hchoice, hresult, -⟩
        · rw [hresult] at hexit
          exact absurd rfl hexit
        · exact ⟨hresult, hchoice⟩
      · rcases run.result_cases hspelled hparse with ⟨_, -, hresult⟩ | ⟨hvalue, -, -⟩
        · rw [hresult]
        · rcases hchoice with h | h
          · simp [h] at hvalue
          · simp [h] at hvalue
  · have hcheck : check.result = ("Bad syntax!\n", .status 1) := by
      rw [result_check, outcome_checkText_of_rejected hparse]
    have hrun : run.result = ("Bad syntax!\n", .status 1) := by
      rw [result_run, outcome_runText_of_rejected hparse]
    refine ⟨?_, fun _ ↦ ⟨hcheck, hrun⟩, fun tree before after htree ↦ ?_⟩
    · rw [hcheck, hrun]
      exact iff_of_false nofun fun h ↦ h ⟨[], ['\n'], by decide⟩
    · obtain ⟨body, rfl, hphrase⟩ := exists_phrase_of_parse htree
      obtain ⟨after, hok⟩ := (parse_eq_ok_iff []).mpr hphrase
      cases hparse.symm.trans hok

/-- A check of `10**400`, which is the first of two lines of its input. -/
def checkLine : Invocation .check "10**400" where
  front := [.verbose true]
  argument := []
  back := []
  input := "10**400" ++ "\n1+1"
  given := .line (by decide) (by decide) "\n1+1" fun _ h ↦ .inl (Option.mem_some.mp h).symm
  directory := {}
  platform := ⟨"", "", ""⟩
  time := ""

/-- A run on `10**400` that asks for the tree and for everything else. -/
def runArgument : Invocation .run "10**400" where
  front := [.ast]
  argument := ["10**400"]
  back := []
  input := ""
  given := .argument (by decide) ""
  directory := {}
  platform := ⟨"", "", ""⟩
  time := ""

/-- Only the dump is left of a run whose value is out of range. -/
theorem prints_all_or_nothing_hugePower :
    checkLine.words = ["-v"] ∧ runArgument.words = ["--ast", "10**400"] ∧
    checkLine.result = ("Syntax OK!\n", .status 0) ∧ runArgument.result.2 ≠ .status 0 ∧
    runArgument.result.1
      = "Prog\n  Pow [POW, \"**\"]\n    Int [INT, \"10\"]\n    Int [INT, \"400\"]\n\n" := by
  obtain ⟨after, hparse⟩ := (parse_eq_ok_iff []).mpr phrase_hugePower
  have hpower : hugePower.evaluate = .error (.outOfRange 10 400) := by decide +kernel
  have hchoice : runArgument.choice = .all := rfl
  obtain ⟨final, hshown⟩ := shown_of_error (.inr hchoice) hpower []
  have hresult : runArgument.result = (_, (failed (.evaluation (.outOfRange 10 400))).2) :=
    result_of_failure hparse hshown
  have hexit : runArgument.result.2 ≠ .status 0 := by
    rw [hresult]
    exact failed_ne_zero _
  obtain ⟨-, -, haccepted⟩ := prints_all_or_nothing checkLine runArgument
  obtain ⟨hcheck, hfails, -⟩ := haccepted _ _ _ hparse
  refine ⟨rfl, rfl, hcheck, hexit, ?_⟩
  rw [(hfails hexit).1]
  decide +kernel

end Invocation

end CommandLine

end ArithLang
