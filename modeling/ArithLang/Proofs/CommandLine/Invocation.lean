import ArithLang.CommandLine.Directory
import Mathlib.Data.List.Basic

/-!
# Ways to hand a text to a command

A command finds the text on its command line, among options in any order, or else in the first line
of its input. `Invocation` is such a call with options that ask for no file. What its command line
is read to depends on which options there are, and not on where they stand
(`Invocation.read_words`).

The words are classified all at once, before the first of them acts, and an option may take the word
behind it. Still a command line can be cut up into pieces that act one after the other: a piece
`Command.Turns` one state of the reading into another if it does so whatever follows it. Pieces with
this property can be put together (`Command.Turns.append`), and the words of each option have it.
-/

namespace ArithLang.CommandLine

variable {command : Command}

/-! ## Pieces of a command line -/

/-- Some words take the reading from one state to another, whatever follows them. -/
def Command.Turns (command : Command) (words : List String) (before after : Gathered) : Prop :=
  ∀ rest kinds, command.classifyAll rest = .ok kinds →
    ∃ all, command.classifyAll (words ++ rest) = .ok all ∧
      command.readWords all before = command.readWords kinds after

namespace Command.Turns

variable {words front back : List String} {before between after : Gathered}

theorem nil (command : Command) (gathered : Gathered) : command.Turns [] gathered gathered :=
  fun _ kinds hkinds ↦ ⟨kinds, hkinds, rfl⟩

theorem append (hfront : command.Turns front before between)
    (hback : command.Turns back between after) : command.Turns (front ++ back) before after := by
  intro rest kinds hkinds
  obtain ⟨behind, hbehind, hread⟩ := hback rest kinds hkinds
  obtain ⟨all, hall, hreadAll⟩ := hfront (back ++ rest) behind hbehind
  rw [List.append_assoc]
  exact ⟨all, hall, hreadAll.trans hread⟩

private theorem read_eq (h : command.Turns words {} after) :
    command.read words = (after.finish, after.named) := by
  obtain ⟨all, hall, hread⟩ := h [] [] rfl
  rw [List.append_nil] at hall
  rw [Command.read, hall]
  exact hread

end Command.Turns

namespace Command

variable {name argument text : String} {opt : Opt} {gathered after : Gathered}

theorem classifyAll_cons {word : String} {kind : Word} {rest : List String}
    {kinds : List (String × Word)} (hword : word ≠ "--") (hkind : command.classify word = .ok kind)
    (hrest : command.classifyAll rest = .ok kinds) :
    command.classifyAll (word :: rest) = .ok ((word, kind) :: kinds) := by
  rw [classifyAll, if_neg hword, hkind, hrest]
  rfl

private theorem classify_plain (h : text.toList.head? ≠ some '-') :
    command.classify text = .ok .plain := by
  rw [classify, if_pos h]

theorem ne_separator (h : text.toList.head? ≠ some '-') : text ≠ "--" := by
  rintro rfl
  exact h rfl

private theorem turns_text (h : text.toList.head? ≠ some '-')
    (hnone : gathered.settings.expression = none) :
    command.Turns [text] gathered
      { gathered with
        settings := { gathered.settings with expression := some text }
        justTaken := true } := by
  intro rest kinds hkinds
  refine ⟨_, classifyAll_cons (ne_separator h) (classify_plain h) hkinds, ?_⟩
  rw [readWords, Gathered.takeArgument, hnone]

/-! ### The words of an option -/

/-- An option with its argument, in one word or in two. -/
def argumentWords (joined : Bool) (name argument : String) : List String :=
  if joined then [name ++ "=" ++ argument] else [name, argument]

theorem name_of_mem : ∀ entry ∈ command.optionNames,
    entry.1.toList.head? = some '-' ∧ '=' ∉ entry.1.toList ∧ entry.1 ≠ "--" := by
  cases command <;> decide

theorem mem_of_lookup (h : command.optionNames.lookup name = some opt) :
    (name, opt) ∈ command.optionNames := by
  obtain ⟨front, back, hsplit, -⟩ := List.lookup_eq_some_iff.mp h
  rw [hsplit]
  exact List.mem_append_right front List.mem_cons_self

private theorem classify_name (h : command.optionNames.lookup name = some opt) :
    command.classify name = .ok (.option opt name none) := by
  rw [classify, if_neg (not_not.mpr (name_of_mem _ (mem_of_lookup h)).1), h]

private theorem splitAtEquals_joined (h : '=' ∉ name.toList) :
    splitAtEquals (name ++ "=" ++ argument).toList = (name.toList, some argument) := by
  have hname : ∀ c ∈ name.toList, (c != '=') = true :=
    fun c hc ↦ bne_iff_ne.mpr fun heq ↦ h (heq ▸ hc)
  have hword : (name ++ "=" ++ argument).toList = name.toList ++ '=' :: argument.toList := by simp
  rw [splitAtEquals, hword, List.dropWhile_append_of_pos hname, List.takeWhile_append_of_pos hname]
  simp

private theorem classify_joined (h : command.optionNames.lookup name = some opt) :
    command.classify (name ++ "=" ++ argument) = .ok (.option opt name (some argument)) := by
  obtain ⟨hhyphen, hequals, -⟩ := name_of_mem _ (mem_of_lookup h)
  obtain ⟨rest, hname⟩ : ∃ rest, name.toList = '-' :: rest := List.head?_eq_some_iff.mp hhyphen
  have hhead : (name ++ "=" ++ argument).toList.head? = some '-' := by simp [hname]
  have hlength : ¬ (name ++ "=" ++ argument).length = 1 := by
    rw [← String.length_toList]
    simp [hname]
  -- the word is not the name of an option, as there is an equals sign in it
  have hlookup : command.optionNames.lookup (name ++ "=" ++ argument) = none := by
    refine List.lookup_eq_none_iff.mpr fun entry hentry ↦ bne_iff_ne.mpr fun heq ↦ ?_
    exact (name_of_mem entry hentry).2.1 (heq ▸ by simp)
  rw [classify, if_neg (not_not.mpr hhead), hlookup]
  simp only [if_neg hlength, classifyOther, splitAtEquals_joined hequals, String.ofList_toList, h]

theorem turns_switch (opt : Opt) (hname : command.optionNames.lookup name = some opt)
    (htakes : opt.takesArgument = false) (hact : act opt "" gathered.pass = (after, none)) :
    command.Turns [name] gathered after := by
  intro rest kinds hkinds
  have hword := (name_of_mem _ (mem_of_lookup hname)).2.2
  refine ⟨_, classifyAll_cons hword (classify_name hname) hkinds, ?_⟩
  rw [readWords.eq_def]
  simp only [htakes, hact, Bool.false_eq_true, if_false]

/-- An option that takes an argument acts, whether its argument is in the same word or in the
next. -/
theorem turns_argument (opt : Opt) (joined : Bool)
    (hname : command.optionNames.lookup name = some opt)
    (htakes : opt.takesArgument = true) (hargument : argument.toList.head? ≠ some '-')
    (hact : act opt argument gathered.pass = (after, none)) :
    command.Turns (argumentWords joined name argument) gathered after := by
  intro rest kinds hkinds
  obtain ⟨-, hequals, hword⟩ := name_of_mem _ (mem_of_lookup hname)
  cases joined with
  | false =>
    -- two words, and the option takes the second because it was classified as an argument
    refine ⟨_, classifyAll_cons hword (classify_name hname)
      (classifyAll_cons (ne_separator hargument) (classify_plain hargument) hkinds), ?_⟩
    simp only [readWords, htakes, hact, if_true]
  | true =>
    have hjoined : name ++ "=" ++ argument ≠ "--" := by
      intro heq
      have hmem : '=' ∈ (name ++ "=" ++ argument).toList := by simp
      rw [heq] at hmem
      exact absurd hmem (by decide)
    refine ⟨_, classifyAll_cons hjoined (classify_joined hname) hkinds, ?_⟩
    simp only [readWords, expand, htakes, if_true, actAll, hact]

end Command

/-! ## Options -/

/-- An option of a command that asks for no file. -/
inductive Flag : Command → Type where
  /-- The whole log is shown on the terminal. -/
  | verbose {command : Command} (short : Bool) : Flag command
  /-- The log is shown on the terminal from a level on. -/
  | log {command : Command} (joined : Bool) (name : String) (level : Log.Level)
      (hlevel : Log.level? name = some level) : Flag command
  /-- The tree is shown. -/
  | ast : Flag .run
  /-- What is shown is chosen. -/
  | emit (joined : Bool) (choice : Emit) : Flag .run

/-- The word for what is shown. -/
def Emit.word : Emit → String
  | .all => "all"
  | .eval => "eval"
  | .lisp => "lisp"
  | .c => "c"

namespace Flag

/-- The words of an option. -/
def words : Flag command → List String
  | .verbose short => [if short then "-v" else "--verbose"]
  | .log joined name _ _ => Command.argumentWords joined "--log" name
  | .ast => ["--ast"]
  | .emit joined choice => Command.argumentWords joined "--emit" choice.word

/-- The settings with an option. -/
def apply : Flag command → Settings → Settings
  | .verbose _, settings => { settings with verbose := settings.verbose + 1 }
  | .log _ _ level _, settings => { settings with log := some level }
  | .ast, settings => { settings with ast := true }
  | .emit _ choice, settings => { settings with emit := some choice }

/-- The settings with some options, of which the first acts first. -/
def applyAll (flags : List (Flag command)) (settings : Settings) : Settings :=
  flags.foldl (fun settings flag ↦ flag.apply settings) settings

/-- Whether the option shows the tree. -/
def isAst : Flag command → Bool
  | .ast => true
  | _ => false

/-- What the option chooses to be shown. -/
def choice? : Flag command → Option Emit
  | .emit _ choice => some choice
  | _ => none

private theorem head?_ne_of_level {name : String} {level : Log.Level}
    (h : Log.level? name = some level) :
    name.toList.head? ≠ some '-' := by
  intro hhead
  obtain ⟨rest, hname⟩ := List.head?_eq_some_iff.mp hhead
  obtain ⟨front, back, hsplit, -⟩ := List.lookup_eq_some_iff.mp h
  have hnames : ∀ entry ∈ Log.levelNames, entry.1.toList.head? ≠ some '-' := by decide
  refine hnames _ (hsplit ▸ List.mem_append_right front List.mem_cons_self) ?_
  rw [hname, String.toList_ofList]
  rfl

theorem turns (flag : Flag command) (gathered : Gathered) :
    command.Turns flag.words gathered
      { gathered.pass with settings := flag.apply gathered.settings } := by
  cases flag with
  | verbose short =>
    cases short with
    | false => exact Command.turns_switch .verbose (by cases command <;> decide) rfl rfl
    | true => exact Command.turns_switch .verbose (by cases command <;> decide) rfl rfl
  | log joined name level hlevel =>
    have hplain := head?_ne_of_level hlevel
    refine Command.turns_argument .log joined (by cases command <;> decide) rfl hplain ?_
    have hseparator : isSeparator name = false := decide_eq_false (Command.ne_separator hplain)
    simp only [act, hseparator, hlevel]
    rfl
  | ast => exact Command.turns_switch .ast (by decide) rfl rfl
  | emit joined choice =>
    refine Command.turns_argument .emit joined (by decide) rfl ?_ ?_
    · cases choice <;> decide
    · cases choice <;> rfl

/-- Some options act on the settings one after the other. -/
theorem turns_all (flags : List (Flag command)) (gathered : Gathered) :
    ∃ justTaken, command.Turns (flags.flatMap words) gathered
      { gathered with settings := applyAll flags gathered.settings, justTaken } := by
  induction flags generalizing gathered with
  | nil => exact ⟨gathered.justTaken, .nil command gathered⟩
  | cons flag flags ih =>
    obtain ⟨justTaken, hrest⟩ :=
      ih { gathered.pass with settings := flag.apply gathered.settings }
    exact ⟨justTaken, (flag.turns gathered).append hrest⟩

/-- What some options do to the settings: the tree is shown if one of them says so, the last choice
of what is shown counts, and there is still a level and no report. -/
theorem applyAll_spec (flags : List (Flag command)) (settings : Settings) :
    (applyAll flags settings).report = settings.report ∧
    (settings.log.isSome = true → (applyAll flags settings).log.isSome = true) ∧
    (applyAll flags settings).ast = (settings.ast || flags.any isAst) ∧
    (applyAll flags settings).emit = (flags.filterMap choice?).getLast?.or settings.emit ∧
    (applyAll flags settings).expression = settings.expression := by
  induction flags generalizing settings with
  | nil => simp [applyAll]
  | cons flag flags ih =>
    obtain ⟨hreport, hlog, hast, hemit, hexpression⟩ := ih (flag.apply settings)
    rw [applyAll] at hreport hlog hast hemit hexpression ⊢
    rw [List.foldl_cons, hreport, hast, hemit, hexpression]
    cases flag with
    | verbose short => exact ⟨rfl, hlog, rfl, rfl, rfl⟩
    | log joined name level hlevel => exact ⟨rfl, fun _ ↦ hlog rfl, rfl, rfl, rfl⟩
    | ast => exact ⟨rfl, hlog, by simp [apply, isAst], rfl, rfl⟩
    | emit joined choice =>
      refine ⟨rfl, hlog, rfl, ?_, rfl⟩
      rw [List.filterMap_cons_some (f := choice?) rfl, List.getLast?_cons]
      cases (flags.filterMap choice?).getLast? <;> rfl

/-- Options do not care which expression was taken. -/
private theorem applyAll_expression (flags : List (Flag command)) (settings : Settings)
    (expression : Option String) :
    applyAll flags { settings with expression }
      = { applyAll flags settings with expression } := by
  induction flags generalizing settings with
  | nil => rfl
  | cons flag flags ih =>
    have happly : flag.apply { settings with expression }
        = { flag.apply settings with expression } := by
      cases flag <;> rfl
    rw [applyAll, List.foldl_cons, happly]
    exact ih (flag.apply settings)

end Flag

/-! ## Calls -/

/-- The text is an argument on the command line, or there is none and the text is the first line of
the input. -/
inductive Given (text : String) : List String → String → Prop where
  /-- An argument does not begin as an option does. -/
  | argument (h : text.toList.head? ≠ some '-') (input : String) : Given text [text] input
  /-- A line ends with the first line break, or with the input. -/
  | line (hfeed : '\n' ∉ text.toList) (hreturn : '\r' ∉ text.toList) (rest : String)
      (hrest : ∀ c ∈ rest.toList.head?, c = '\n' ∨ c = '\r') : Given text [] (text ++ rest)

namespace Given

variable {text input : String} {argument : List String}

theorem turns (h : Given text argument input) (command : Command) (gathered : Gathered)
    (hnone : gathered.settings.expression = none) :
    ∃ justTaken, command.Turns argument gathered
      { gathered with
        settings := { gathered.settings with expression := argument.head? }
        justTaken } := by
  cases h with
  | argument hhead => exact ⟨true, Command.turns_text hhead hnone⟩
  | line =>
    refine ⟨gathered.justTaken, ?_⟩
    rw [List.head?_nil, ← hnone]
    exact .nil command gathered

private theorem getD_eq (h : Given text argument input) :
    argument.head?.getD (firstLine input) = text := by
  cases h with
  | argument => rfl
  | line hfeed hreturn rest hrest =>
    have hall : ∀ c ∈ text.toList, (c != '\n' && c != '\r') = true := by
      intro c hc
      rw [Bool.and_eq_true, bne_iff_ne, bne_iff_ne]
      exact ⟨fun h ↦ hfeed (h ▸ hc), fun h ↦ hreturn (h ▸ hc)⟩
    have hbehind : rest.toList.takeWhile (fun c ↦ c != '\n' && c != '\r') = [] := by
      cases hlist : rest.toList with
      | nil => rfl
      | cons c back =>
        refine List.takeWhile_cons_of_neg ?_
        rcases hrest c (hlist ▸ rfl) with rfl | rfl
        · decide
        · decide
    rw [List.head?_nil, Option.getD_none, firstLine, String.toList_append,
      List.takeWhile_append_of_pos hall, hbehind, List.append_nil, String.ofList_toList]

end Given

/-- A call of a command on a text, with options that ask for no file. -/
structure Invocation (command : Command) (text : String) where
  /-- The options in front of the argument. -/
  front : List (Flag command)
  /-- The argument, if there is one. -/
  argument : List String
  /-- The options behind the argument. -/
  back : List (Flag command)
  /-- What can be read from the standard input. -/
  input : String
  /-- The text is there. -/
  given : Given text argument input
  /-- Where the call is made. -/
  directory : Directory
  /-- What the program runs on. -/
  platform : Platform
  /-- When it is made. -/
  time : String

namespace Invocation

variable {text : String} (call : Invocation command text)

/-- The words of the command line. -/
def words : List String :=
  call.front.flatMap Flag.words ++ (call.argument ++ call.back.flatMap Flag.words)

/-- The options. -/
def flags : List (Flag command) := call.front ++ call.back

/-- Whether the tree is asked for. -/
def asksAst : Bool := call.flags.any Flag.isAst

/-- What else is asked for: the last choice, or everything. -/
def choice : Emit := (call.flags.filterMap Flag.choice?).getLast?.getD .all

/-- The settings. -/
def settings : Settings := Flag.applyAll call.flags { expression := call.argument.head? }

@[simp] private theorem read_words : command.read call.words = (.ready call.settings, []) := by
  obtain ⟨-, -, -, -, hnone⟩ := Flag.applyAll_spec call.front {}
  obtain ⟨_, hfront⟩ := Flag.turns_all call.front {}
  obtain ⟨_, hargument⟩ := call.given.turns command
    { settings := Flag.applyAll call.front {}, justTaken := _ } hnone
  obtain ⟨_, hback⟩ := Flag.turns_all call.back _
  rw [words, (hfront.append (hargument.append hback)).read_eq]
  have hsettings : call.settings = Flag.applyAll call.back
      { Flag.applyAll call.front {} with expression := call.argument.head? } := by
    rw [settings, flags, Flag.applyAll, List.foldl_append]
    exact congrArg (Flag.applyAll call.back)
      (Flag.applyAll_expression call.front {} call.argument.head?)
  rw [hsettings]
  rfl

/-- Options may stand on both sides of the text. -/
example : (Invocation.mk [.ast] ["1+2"] [.emit true .lisp, .verbose true] ""
    (.argument (by decide) "") {} ⟨"", "", ""⟩ "" : Invocation .run "1+2").words
      = ["--ast", "1+2", "--emit=lisp", "-v"] := by
  decide

@[simp] theorem settings_report : call.settings.report = none :=
  (Flag.applyAll_spec call.flags _).1

@[simp] theorem settings_log : call.settings.log.isSome = true :=
  (Flag.applyAll_spec call.flags _).2.1 rfl

@[simp] theorem settings_ast : call.settings.ast = call.asksAst :=
  (Flag.applyAll_spec call.flags _).2.2.1

@[simp] theorem settings_emit : call.settings.emit = some call.choice := by
  rw [settings, (Flag.applyAll_spec call.flags _).2.2.2.1, choice]
  cases (call.flags.filterMap Flag.choice?).getLast? <;> rfl

@[simp] private theorem settings_expression :
    call.settings.expression.getD (firstLine call.input) = text := by
  rw [settings, (Flag.applyAll_spec call.flags _).2.2.2.2]
  exact call.given.getD_eq

/-- What a call leaves behind, and how it ends. -/
def respond : Transcript × Exit :=
  command.complete (command.readIn call.directory call.words).1 call.platform call.time
    (firstLine call.input)

theorem respond_eq : call.respond
    = (Transcript.ofEvents call.settings call.time
        (command.execute call.platform call.settings text).1,
      (command.execute call.platform call.settings text).2) := by
  rw [respond, Command.readIn, call.read_words]
  exact congrArg (fun expression ↦
    (Transcript.ofEvents call.settings call.time
        (command.execute call.platform call.settings expression).1,
      (command.execute call.platform call.settings expression).2)) call.settings_expression

end Invocation

end ArithLang.CommandLine
