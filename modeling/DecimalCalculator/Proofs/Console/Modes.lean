import DecimalCalculator.Console
import DecimalCalculator.Proofs.Console.Lines
import DecimalCalculator.Proofs.Evaluation.Depth
import DecimalCalculator.Proofs.Session.Requests

/-!
# The two ways to use the console

Lines that are run as a script and the same lines when they are typed go through one session in the
same way, although the one run evaluates each line as it stands and the other what trimming leaves
of it. As long as every line has a value or is blank, both runs show the same values, the one
nothing else and the other behind its prompts. Where a line fails, both report a failure of the same
kind, and the script stops with the number of the line; the report of the typed line may differ in
the place of a failed parse.

There are two more ends. A value that does not fit into the memory cannot be shown, and neither can
a message with such a number in it. This is found out behind the evaluation of the line, so it is
not reported on as a failure of the line: it breaks the script off without the number of the line,
and the typed run as well. The other end is that of the stack, of which the two runs need not have
the same left. A line that meets the limit on open expressions in one run only is where they part.
-/
namespace DecimalCalculator

namespace Session

def on (machine : Machine) (session : Session) : Session :=
  {session with settings := {session.settings with toMachine := machine}}

/-- The evaluation of the line has more expressions open than there may be. -/
def MeetsLimit (session : Session) (line : String) : Prop :=
  (session.evaluate line).result = .error Eval.outOfBound

variable {machine : Machine} {session : Session}

/-- On a machine with the same memory, tokens are evaluated to the same end, unless one of the two
evaluations meets the limit. -/
theorem evaluateTokens_on (hmemory : machine.memory = session.settings.memory)
    (tokens : List Token) :
    (session.on machine).evaluateTokens tokens =
        {session.evaluateTokens tokens with
          session := (session.evaluateTokens tokens).session.on machine} ∨
      (session.evaluateTokens tokens).result = .error Eval.outOfBound ∨
      ((session.on machine).evaluateTokens tokens).result = .error Eval.outOfBound := by
  have hmemory' : session.settings.memory = (session.on machine).settings.memory := hmemory.symm
  refine (evaluate_eq_or_outOfBound hmemory' rfl rfl tokens session.values
    session.functions).imp_left fun hsame => ?_
  have hmoved : DecimalCalculator.evaluate (session.on machine).settings tokens
      (session.on machine).values (session.on machine).functions =
        DecimalCalculator.evaluate session.settings tokens session.values session.functions :=
    hsame.symm
  rw [evaluateTokens, hmoved]
  rfl

end Session

namespace Console

open Session (MeetsLimit evaluate_error evaluate_ok evaluateTokens_on handleLine_result
  settings_handleLine)
open Text

/-! ## What is shown of a line -/

/-- The value, or the message of the failure, does not fit into the memory. -/
def IsUnshown (memory : Memory) : Except Failure Decimal → Prop
  | .ok value => value.isPrintable memory = false
  | .error failure => failure.isPrintable memory = false

section

variable {memory : Memory} {result : Except Failure LineReport} {report : LineReport}

theorem shown_of_failure (hresult : result = .ok report) (hstatus : report.status = .error) :
    shown memory result = .ok (.error, report.errorText) := by
  rw [hresult]
  simp [shown, hstatus, bind, Except.bind, pure, Except.pure]

/-- A line has a value that is shown, or it fails, or what it comes to cannot be shown. -/
theorem shown_cases (memory : Memory) (result : Except Failure Decimal) :
    (∃ text, shown memory (LineReport.ofResult memory result) = .ok (.success, text)) ∨
    (∃ report failure, LineReport.ofResult memory result = .ok report ∧ report.status = .error ∧
      report.failure = some failure) ∨
    IsUnshown memory result ∧
      shown memory (LineReport.ofResult memory result) = .error (Fault.signal .outOfMemory) := by
  cases result with
  | ok value =>
    have hshown : shown memory (LineReport.ofResult memory (.ok value)) =
        Failure.ofSignal (value.print memory) >>= fun text => .ok (.success, text) := rfl
    rw [hshown, Decimal.print]
    cases hfits : value.isPrintable memory with
    | true => exact .inl ⟨_, rfl⟩
    | false => exact .inr (.inr ⟨hfits, rfl⟩)
  | error failure =>
    cases hfits : failure.isPrintable memory with
    | true =>
      rw [LineReport.ofResult, if_pos hfits]
      exact .inr (.inl ⟨_, failure, rfl, rfl, rfl⟩)
    | false =>
      rw [LineReport.ofResult, hfits]
      exact .inr (.inr ⟨hfits, rfl⟩)

end

/-! ## A line as it stands and what trimming leaves of it -/

/-- Two reports of a line are the same, or both report a failed parse, perhaps at different
places. -/
inductive ReportAlike (memory : Memory) : Except Failure LineReport → Except Failure LineReport →
    Prop
  | same (result : Except Failure LineReport) : ReportAlike memory result result
  | misread (message : String) (place place' : Option Position) :
    ReportAlike memory (LineReport.ofResult memory (.error (CalcError.parse message place)))
      (LineReport.ofResult memory (.error (CalcError.parse message place')))

/-- Two steps leave the same session, the second on another machine, have the same trace and report
alike. -/
structure StepAlike (memory : Memory) (machine : Machine) (step step' : Step LineReport) :
    Prop where
  report : ReportAlike memory step.result step'.result
  session : step'.session = step.session.on machine
  trace : step'.trace = step.trace

section

variable {memory : Memory} {result result' : Except Failure LineReport} {report : LineReport}
  {failure : Failure}

theorem ReportAlike.shown_success {text : String} (h : ReportAlike memory result result')
    (hshown : shown memory result = .ok (.success, text)) :
    shown memory result' = .ok (.success, text) := by
  cases h with
  | same => exact hshown
  | misread => cases hshown

theorem ReportAlike.shown_error (h : ReportAlike memory result result')
    (hshown : shown memory result = .error failure) : shown memory result' = .error failure := by
  cases h with
  | same => exact hshown
  | misread => cases hshown

/-- Where a line fails, what trimming leaves of it fails for a reason of the same kind. -/
theorem ReportAlike.of_failure (h : ReportAlike memory result result')
    (hresult : result = .ok report) (hstatus : report.status = .error)
    (hfailure : report.failure = some failure) :
    ∃ report' failure', result' = .ok report' ∧ report'.status = .error ∧
      report'.failure = some failure' ∧ failure'.kind = failure.kind := by
  cases h with
  | same => exact ⟨report, failure, hresult, hstatus, hfailure, rfl⟩
  | misread =>
    cases hresult
    cases hfailure
    exact ⟨_, _, rfl, rfl, rfl, rfl⟩

end

def limitReport : LineReport :=
  ⟨.error, none, some (Failure.report Eval.outOfBound), some Eval.outOfBound⟩

section

variable {machine : Machine} {session : Session} {line : String}

theorem handleLine_of_meetsLimit (hblank : isBlankLine line = false)
    (h : MeetsLimit session line) : (session.handleLine line).result = .ok limitReport := by
  rw [handleLine_result hblank, h]
  rfl

/-- A plain line is handled as what trimming leaves of it is on a machine with the same memory,
unless one of the two meets the limit. -/
theorem handleLine_alike (hmemory : machine.memory = session.settings.memory)
    (h : IsPlainLine line) (hblank : isBlankLine line = false) (hfirst : ¬MeetsLimit session line)
    (hsecond : ¬MeetsLimit (session.on machine) (trimmed line)) :
    StepAlike session.settings.memory machine (session.handleLine line)
      ((session.on machine).handleLine (trimmed line)) := by
  have hblank' : isBlankLine (trimmed line) = false := (isBlankLine_trimmed line).trans hblank
  have hread := readAlike_trimmed h
  have hreported : (session.on machine).settings.memory = session.settings.memory := hmemory
  rw [MeetsLimit, Session.evaluate] at hfirst hsecond
  rw [Session.handleLine, Session.handleLine, hblank, hblank', hreported, Session.evaluate,
    Session.evaluate]
  generalize Token.ofSource (trimmed line) = cut at hread hsecond
  generalize Token.ofSource line = whole at hread hfirst
  cases hread with
  | tokens ts =>
    rcases evaluateTokens_on hmemory ts with hsame | hlimit | hlimit
    · simp only [hsame]
      exact ⟨.same _, rfl, rfl⟩
    · exact absurd hlimit hfirst
    · exact absurd hlimit hsecond
  | misread message place place' => exact ⟨.misread _ _ _, rfl, rfl⟩

/-- A line without a value fails in both runs or can be shown in neither, unless one of them meets
the limit and the other does not. -/
theorem handleLine_cases (hmemory : machine.memory = session.settings.memory)
    (h : IsPlainLine line) (hblank : isBlankLine line = false)
    (hfails : ∀ text,
      shown session.settings.memory (session.handleLine line).result = .ok (.success, text) →
      MeetsLimit (session.on machine) (trimmed line)) :
    (MeetsLimit session line ↔ ¬MeetsLimit (session.on machine) (trimmed line)) ∨
    (∃ report report' failure failure',
      (session.handleLine line).result = .ok report ∧ report.status = .error ∧
      report.failure = some failure ∧
      ((session.on machine).handleLine (trimmed line)).result = .ok report' ∧
      report'.status = .error ∧ report'.failure = some failure' ∧ failure'.kind = failure.kind ∧
      (((session.on machine).handleLine (trimmed line)).trace = (session.handleLine line).trace ∨
        failure = Eval.outOfBound)) ∨
    (IsUnshown session.settings.memory (session.evaluate line).result ∧
      ((session.on machine).handleLine (trimmed line)).trace = (session.handleLine line).trace ∧
      shown session.settings.memory (session.handleLine line).result =
        .error (Fault.signal .outOfMemory) ∧
      shown session.settings.memory ((session.on machine).handleLine (trimmed line)).result =
        .error (Fault.signal .outOfMemory)) := by
  by_cases hmeets : MeetsLimit session line
  · by_cases hmeets' : MeetsLimit (session.on machine) (trimmed line)
    · -- Both meet the limit, where they may have come to different bindings and traces.
      have hblank' : isBlankLine (trimmed line) = false := (isBlankLine_trimmed line).trans hblank
      exact .inr (.inl ⟨limitReport, limitReport, _, _, handleLine_of_meetsLimit hblank hmeets, rfl,
        rfl, handleLine_of_meetsLimit hblank' hmeets', rfl, rfl, rfl, .inr rfl⟩)
    · exact .inl (iff_of_true hmeets hmeets')
  · by_cases hmeets' : MeetsLimit (session.on machine) (trimmed line)
    · exact .inl (iff_of_false hmeets (not_not_intro hmeets'))
    · have hstep := handleLine_alike hmemory h hblank hmeets hmeets'
      have hreported := handleLine_result hblank session
      rcases shown_cases session.settings.memory (session.evaluate line).result with
        ⟨text, hshown⟩ | ⟨report, failure, hresult, hstatus, hfailure⟩ | ⟨hunshown, hshown⟩
      · rw [← hreported] at hshown
        exact absurd (hfails text hshown) hmeets'
      · rw [← hreported] at hresult
        obtain ⟨report', failure', hresult', hstatus', hfailure', hkind⟩ :=
          hstep.report.of_failure hresult hstatus hfailure
        exact .inr (.inl ⟨report, report', failure, failure', hresult, hstatus, hfailure, hresult',
          hstatus', hfailure', hkind, .inl hstep.trace⟩)
      · rw [← hreported] at hshown
        exact .inr (.inr ⟨hunshown, hstep.trace, hshown, hstep.report.shown_error hshown⟩)

end

/-! ## What the two runs do with a line -/

/-- More that is written before the rest of a run. -/
def Output.after (stdout stderr : String) (rest : Output) : Output :=
  {rest with stdout := stdout ++ rest.stdout, stderr := stderr ++ rest.stderr}

theorem Output.after_empty (rest : Output) : rest.after "" "" = rest := by
  simp [Output.after]

theorem Output.after_after (stdout stderr stdout' stderr' : String) (rest : Output) :
    (rest.after stdout' stderr').after stdout stderr =
      rest.after (stdout ++ stdout') (stderr ++ stderr') := by
  simp [Output.after, String.append_assoc]

section

variable {traced : Bool} {session : Session} {line text : String}

theorem scripted_blank (hblank : isBlankLine line = true) (number : Nat) (lines : List String) :
    scripted traced session number (line :: lines) =
      scripted traced session (number + 1) lines := by
  rw [scripted, if_pos hblank]

theorem typed_blank (hblank : isBlankLine line = true) (lines : List String) :
    typed traced session (line :: lines) = (typed traced session lines).after prompt "" := by
  have hempty := (trimmed_eq_empty_iff line).2 hblank
  simp [typed, reply, ofList_trim, hempty, Output.after]

variable (hblank : isBlankLine line = false)
include hblank

theorem scripted_value
    (h : shown session.settings.memory (session.handleLine line).result = .ok (.success, text))
    (number : Nat) (lines : List String) :
    scripted traced session number (line :: lines) =
      (scripted traced (session.handleLine line).session (number + 1) lines).after (text ++ "\n")
        (traceText traced (session.handleLine line).trace) := by
  simp [scripted, hblank, h, Output.after]

theorem scripted_failure
    (h : shown session.settings.memory (session.handleLine line).result = .ok (.error, text))
    (number : Nat) (lines : List String) :
    scripted traced session number (line :: lines) =
      ⟨"", traceText traced (session.handleLine line).trace ++ lineError number text, some 1,
        none⟩ := by
  simp [scripted, hblank, h]

theorem scripted_error {failure : Failure}
    (h : shown session.settings.memory (session.handleLine line).result = .error failure)
    (number : Nat) (lines : List String) :
    scripted traced session number (line :: lines) =
      ⟨"", traceText traced (session.handleLine line).trace, some 1, some failure⟩ := by
  simp [scripted, hblank, h]

variable (hexit : trimmed line ≠ "exit")
include hexit

theorem typed_value
    (h : shown session.settings.memory (session.handleLine (trimmed line)).result =
      .ok (.success, text)) (lines : List String) :
    typed traced session (line :: lines) =
      (typed traced (session.handleLine (trimmed line)).session lines).after
        (prompt ++ (text ++ "\n"))
        (traceText traced (session.handleLine (trimmed line)).trace) := by
  simp [typed, reply, ofList_trim, trimmed_ne_empty hblank, hexit, h, Output.after]

theorem typed_failure
    (h : shown session.settings.memory (session.handleLine (trimmed line)).result =
      .ok (.error, text)) (lines : List String) :
    typed traced session (line :: lines) =
      (typed traced (session.handleLine (trimmed line)).session lines).after prompt
        (traceText traced (session.handleLine (trimmed line)).trace ++ (text ++ "\n")) := by
  simp [typed, reply, ofList_trim, trimmed_ne_empty hblank, hexit, h, Output.after,
    String.append_assoc]

theorem typed_error {failure : Failure}
    (h : shown session.settings.memory (session.handleLine (trimmed line)).result = .error failure)
    (lines : List String) :
    typed traced session (line :: lines) =
      ⟨prompt, traceText traced (session.handleLine (trimmed line)).trace, some 1,
        some failure⟩ := by
  simp [typed, reply, ofList_trim, trimmed_ne_empty hblank, hexit, h]

end

/-! ## Runs -/

def answers (replies : List (Option String)) : String :=
  String.join (replies.map fun reply => reply.elim "" (· ++ "\n"))

def dialogue (replies : List (Option String)) : String :=
  String.join (replies.map fun reply => prompt ++ reply.elim "" (· ++ "\n"))

@[simp] theorem answers_none (replies : List (Option String)) :
    answers (none :: replies) = answers replies := by
  simp [answers, String.join_cons]

@[simp] theorem answers_some (text : String) (replies : List (Option String)) :
    answers (some text :: replies) = text ++ "\n" ++ answers replies := by
  simp [answers, String.join_cons]

@[simp] theorem dialogue_none (replies : List (Option String)) :
    dialogue (none :: replies) = prompt ++ dialogue replies := by
  simp [dialogue, String.join_cons]

@[simp] theorem dialogue_some (text : String) (replies : List (Option String)) :
    dialogue (some text :: replies) = prompt ++ (text ++ "\n") ++ dialogue replies := by
  simp [dialogue, String.join_cons]

/-- Handled one after another, the lines have these values, and none where they are blank, and the
other machine meets the limit at none of them. The notes are the traces of their evaluations. -/
inductive Succeeds (machine : Machine) (traced : Bool) : Session → List String →
    List (Option String) → String → Session → Prop
  | nil (session : Session) : Succeeds machine traced session [] [] "" session
  | blank {session session' : Session} {line : String} {lines : List String}
    {replies : List (Option String)} {notes : String} : isBlankLine line = true →
    Succeeds machine traced session lines replies notes session' →
    Succeeds machine traced session (line :: lines) (none :: replies) notes session'
  | value {session session' : Session} {line text : String} {lines : List String}
    {replies : List (Option String)} {notes : String} : isBlankLine line = false →
    shown session.settings.memory (session.handleLine line).result = .ok (.success, text) →
    ¬MeetsLimit (session.on machine) (trimmed line) →
    Succeeds machine traced (session.handleLine line).session lines replies notes session' →
    Succeeds machine traced session (line :: lines) (some text :: replies)
      (traceText traced (session.handleLine line).trace ++ notes) session'

/-- The lines before this one have the values, and this one has none, or the other machine meets the
limit at it. -/
structure StopsAt (machine : Machine) (traced : Bool) (start : Session)
    (lines before : List String) (line : String) (replies : List (Option String)) (notes : String)
    (session : Session) : Prop where
  split : ∃ after, lines = before ++ line :: after
  succeeds : Succeeds machine traced start before replies notes session
  blank : isBlankLine line = false
  fails : ∀ text,
    shown session.settings.memory (session.handleLine line).result = .ok (.success, text) →
    MeetsLimit (session.on machine) (trimmed line)

section

variable {machine : Machine} {traced : Bool} {session session' : Session} {lines : List String}
  {replies : List (Option String)} {notes : String}

/-- Lines have values up to their end or up to one that has none. -/
theorem succeeds_or_stopsAt (machine : Machine) (traced : Bool) (session : Session)
    (lines : List String) :
    (∃ replies notes session', Succeeds machine traced session lines replies notes session') ∨
      ∃ before line replies notes session',
        StopsAt machine traced session lines before line replies notes session' := by
  induction lines generalizing session with
  | nil => exact .inl ⟨_, _, _, .nil session⟩
  | cons line lines ih =>
    cases hblank : isBlankLine line with
    | true =>
      rcases ih session with ⟨replies, notes, session', h⟩ |
        ⟨before, stop, replies, notes, session', h⟩
      · exact .inl ⟨_, _, _, .blank hblank h⟩
      · obtain ⟨after, hsplit⟩ := h.split
        exact .inr ⟨line :: before, stop, _, _, _, ⟨after, by rw [hsplit, List.cons_append]⟩,
          .blank hblank h.succeeds, h.blank, h.fails⟩
    | false =>
      by_cases hvalue : ∃ text, shown session.settings.memory (session.handleLine line).result =
          .ok (.success, text) ∧ ¬MeetsLimit (session.on machine) (trimmed line)
      · obtain ⟨text, hshown, hlimit⟩ := hvalue
        rcases ih (session.handleLine line).session with ⟨replies, notes, session', h⟩ |
          ⟨before, stop, replies, notes, session', h⟩
        · exact .inl ⟨_, _, _, .value hblank hshown hlimit h⟩
        · obtain ⟨after, hsplit⟩ := h.split
          exact .inr ⟨line :: before, stop, _, _, _, ⟨after, by rw [hsplit, List.cons_append]⟩,
            .value hblank hshown hlimit h.succeeds, h.blank, h.fails⟩
      · refine .inr ⟨[], line, [], "", session, ⟨lines, rfl⟩, .nil session, hblank, ?_⟩
        exact fun text hshown => Classical.byContradiction fun hlimit =>
          hvalue ⟨text, hshown, hlimit⟩

theorem Succeeds.settings (h : Succeeds machine traced session lines replies notes session') :
    session'.settings = session.settings := by
  induction h with
  | nil => rfl
  | blank _ _ ih => exact ih
  | value _ _ _ _ ih => exact ih.trans (settings_handleLine _ _)

/-- A script goes through lines that have values and shows these. -/
theorem Succeeds.scripted (h : Succeeds machine traced session lines replies notes session')
    (number : Nat) (rest : List String) :
    Console.scripted traced session number (lines ++ rest) =
      (Console.scripted traced session' (number + lines.length) rest).after (answers replies)
        notes := by
  induction h generalizing number with
  | nil => exact (Output.after_empty _).symm
  | @blank _ _ _ lines _ _ hblank _ ih =>
    rw [List.cons_append, scripted_blank hblank, ih, answers_none, List.length_cons,
      Nat.add_right_comm, Nat.add_assoc]
  | @value _ _ _ _ lines _ _ hblank hshown _ _ ih =>
    rw [List.cons_append, scripted_value hblank hshown, ih, Output.after_after, answers_some,
      List.length_cons, Nat.add_right_comm, Nat.add_assoc]

theorem Succeeds.typed (h : Succeeds machine traced session lines replies notes session')
    (hmemory : machine.memory = session.settings.memory)
    (hplain : ∀ line ∈ lines, IsPlainLine line) (hexit : ∀ line ∈ lines, trimmed line ≠ "exit")
    (rest : List String) :
    Console.typed traced (session.on machine) (lines ++ rest) =
      (Console.typed traced (session'.on machine) rest).after (dialogue replies) notes := by
  induction h with
  | nil => exact (Output.after_empty _).symm
  | blank hblank _ ih =>
    rw [List.cons_append, typed_blank hblank, ih hmemory (List.forall_mem_cons.1 hplain).2
      (List.forall_mem_cons.1 hexit).2, Output.after_after, dialogue_none, String.empty_append]
  | @value session _ line text lines _ _ hblank hshown hlimit _ ih =>
    obtain ⟨hline, hlines⟩ := List.forall_mem_cons.1 hplain
    obtain ⟨hstay, hstays⟩ := List.forall_mem_cons.1 hexit
    have hfirst : ¬MeetsLimit session line := by
      intro hmeets
      rw [handleLine_of_meetsLimit hblank hmeets] at hshown
      cases hshown
    have hstep := handleLine_alike hmemory hline hblank hfirst hlimit
    have hshown' := hstep.report.shown_success hshown
    rw [← hmemory] at hshown'
    have hkept : machine.memory = (session.handleLine line).session.settings.memory := by
      rw [settings_handleLine, hmemory]
    rw [List.cons_append, typed_value hblank hstay hshown', hstep.session, hstep.trace,
      ih hkept hlines hstays, Output.after_after, dialogue_some]

end

/-! ## The same lines in a script and typed -/

theorem scripted_append_empty (traced : Bool) (session : Session) (number : Nat)
    (lines : List String) :
    scripted traced session number (lines ++ [""]) = scripted traced session number lines := by
  induction lines generalizing session number with
  | nil => exact scripted_blank rfl number []
  | cons line lines ih =>
    rw [List.cons_append, scripted, scripted]
    simp only [ih]

theorem script_scriptOfLines {lines : List String} (h : ∀ line ∈ lines, IsPlainLine line)
    (machine : Machine) (traced : Bool) : script machine traced (scriptOfLines lines) =
      scripted traced (.new (.standard machine)) 1 lines := by
  rw [script]
  rcases scriptLines_scriptOfLines h with hlines | hlines
  · rw [hlines]
  · rw [← scripted_append_empty, hlines]

theorem interactive_inputOfLines {lines : List String} (h : ∀ line ∈ lines, IsPlainLine line)
    (machine : Machine) (traced : Bool) : interactive machine traced (inputOfLines lines) =
      (typed traced (.new (.standard machine)) lines).after banner "" := by
  rw [interactive, typedLines_inputOfLines h]
  simp [Output.after]

/-- How the run of a script and the typed run of the same lines correspond, the one on the first
machine and the other on the second. Either all lines have values, or one line is the first that has
none: it fails, and the typed run goes on behind it, or its result cannot be shown, and both runs
break off, or one run meets the limit on open expressions at it and the other does not. -/
inductive Corresponds (machine machine' : Machine) (traced : Bool) (lines : List String)
    (scriptRun typedRun : Output) : Prop
  | finished {replies : List (Option String)} {notes : String} {session : Session} :
    Succeeds machine' traced (.new (.standard machine)) lines replies notes session →
    scriptRun = ⟨answers replies, notes, none, none⟩ →
    typedRun = ⟨banner ++ dialogue replies ++ (prompt ++ farewell), notes, none, none⟩ →
    Corresponds machine machine' traced lines scriptRun typedRun
  | failed {before : List String} {line : String} {replies : List (Option String)}
    {notes : String} {session : Session} {step step' : Step LineReport}
    {report report' : LineReport} {failure failure' : Failure} (more : Output) :
    StopsAt machine' traced (.new (.standard machine)) lines before line replies notes session →
    step = session.handleLine line → step.result = .ok report → report.status = .error →
    report.failure = some failure →
    step' = (session.on machine').handleLine (trimmed line) → step'.result = .ok report' →
    report'.status = .error → report'.failure = some failure' →
    failure'.kind = failure.kind → step'.trace = step.trace ∨ failure = Eval.outOfBound →
    scriptRun = ⟨answers replies, notes ++ (traceText traced step.trace ++
      lineError (before.length + 1) report.errorText), some 1, none⟩ →
    typedRun = more.after (banner ++ dialogue replies ++ prompt)
      (notes ++ (traceText traced step'.trace ++ (report'.errorText ++ "\n"))) →
    Corresponds machine machine' traced lines scriptRun typedRun
  | brokenOff {before : List String} {line : String} {replies : List (Option String)}
    {notes : String} {session : Session} :
    StopsAt machine' traced (.new (.standard machine)) lines before line replies notes session →
    IsUnshown machine.memory (session.evaluate line).result →
    scriptRun = ⟨answers replies, notes ++ traceText traced (session.handleLine line).trace, some 1,
      some (Fault.signal .outOfMemory)⟩ →
    typedRun = ⟨banner ++ dialogue replies ++ prompt,
      notes ++ traceText traced (session.handleLine line).trace, some 1,
      some (Fault.signal .outOfMemory)⟩ →
    Corresponds machine machine' traced lines scriptRun typedRun
  | parted {before : List String} {line : String} {replies : List (Option String)}
    {notes : String} {session : Session} (more more' : Output) :
    StopsAt machine' traced (.new (.standard machine)) lines before line replies notes session →
    (MeetsLimit session line ↔ ¬MeetsLimit (session.on machine') (trimmed line)) →
    scriptRun = more.after (answers replies) notes →
    typedRun = more'.after (banner ++ dialogue replies) notes →
    Corresponds machine machine' traced lines scriptRun typedRun

/-- A script and the same lines typed show the same values, and where a line fails both report a
failure of the same kind and the script stops with the number of the line, unless a result that
cannot be shown breaks both off, or one of them meets the limit on open expressions where the other
does not. The two may run on different stacks, but not on different memories. -/
theorem script_and_typed_run_correspond {machine machine' : Machine}
    (hmemory : machine'.memory = machine.memory) (traced : Bool) {lines : List String}
    (hplain : ∀ line ∈ lines, IsPlainLine line) (hexit : ∀ line ∈ lines, trimmed line ≠ "exit") :
    Corresponds machine machine' traced lines (script machine traced (scriptOfLines lines))
      (interactive machine' traced (inputOfLines lines)) := by
  rw [script_scriptOfLines hplain, interactive_inputOfLines hplain]
  change Corresponds _ _ _ _ _ ((typed traced
    ((Session.new (.standard machine)).on machine') lines).after banner "")
  -- Both runs go through the lines before the first that has no value, whatever comes behind it.
  rcases succeeds_or_stopsAt machine' traced (.new (.standard machine)) lines with
    ⟨replies, notes, session, h⟩ | ⟨before, line, replies, notes, session, h⟩
  · have hscript := h.scripted 1 []
    have htyped := h.typed hmemory hplain hexit []
    rw [List.append_nil] at hscript htyped
    rw [hscript, htyped]
    refine .finished h ?_ ?_ <;> simp [scripted, typed, Output.after, String.append_assoc]
  · obtain ⟨after, rfl⟩ := h.split
    obtain ⟨hbefore, hline⟩ := List.forall_mem_append.1 hplain
    obtain ⟨hstays, hstay⟩ := List.forall_mem_append.1 hexit
    have hline := (List.forall_mem_cons.1 hline).1
    have hstay := (List.forall_mem_cons.1 hstay).1
    have hsame : session.settings.memory = machine.memory :=
      congrArg (·.memory) h.succeeds.settings
    have hmachine : machine'.memory = session.settings.memory := hmemory.trans hsame.symm
    rw [h.succeeds.scripted, h.succeeds.typed hmemory hbefore hstays, Nat.add_comm 1]
    rcases handleLine_cases hmachine hline h.blank h.fails with hapart |
      ⟨report, report', failure, failure', hresult, hstatus, hfailure, hresult', hstatus',
        hfailure', hkind, htrace⟩ | ⟨hunshown, htrace, hshown, hshown'⟩
    · refine .parted (scripted traced session (before.length + 1) (line :: after))
        (typed traced (session.on machine') (line :: after)) h hapart rfl ?_
      rw [Output.after_after, String.empty_append]
    · rw [scripted_failure h.blank (shown_of_failure hresult hstatus),
        typed_failure h.blank hstay (shown_of_failure hresult' hstatus')]
      refine .failed
        (typed traced ((session.on machine').handleLine (trimmed line)).session after) h rfl
        hresult hstatus hfailure rfl hresult' hstatus' hfailure' hkind htrace ?_ ?_
      · simp [Output.after]
      · simp [Output.after, String.append_assoc]
    · rw [← hmachine] at hshown'
      rw [scripted_error h.blank hshown, typed_error h.blank hstay hshown', htrace]
      refine .brokenOff h (hsame ▸ hunshown) ?_ ?_ <;>
        simp [Output.after, String.append_assoc]

/-- Lines of which the third fails, a blank line before it included. -/
def strayEqualsLines : List String := [" 1 + 1", "", " 2 =", "3"]

/-- The script stops at the third line, in which the equals sign is the fourth character. The typed
run reports it as the third character, since trimming takes the first, and goes on. -/
theorem strayEqualsLines_correspond :
    (∀ line ∈ strayEqualsLines, IsPlainLine line) ∧
      (∀ line ∈ strayEqualsLines, trimmed line ≠ "exit") ∧
      script .default false (scriptOfLines strayEqualsLines) = ⟨"2\n",
        "Error on line 3: ParseError: Unexpected '=' without a name to assign (line 1, col 4)\n",
        some 1, none⟩ ∧
      (interactive .default false (inputOfLines strayEqualsLines)).stderr =
        "ParseError: Unexpected '=' without a name to assign (line 1, col 3)\n" ∧
      Corresponds .default .default false strayEqualsLines
        (script .default false (scriptOfLines strayEqualsLines))
        (interactive .default false (inputOfLines strayEqualsLines)) :=
  ⟨by decide +kernel, by decide +kernel, by decide +kernel, by decide +kernel,
    script_and_typed_run_correspond rfl false (by decide +kernel) (by decide +kernel)⟩

/-- The line has a value, a one before so many zeros that they cannot be shown. Neither run reports
that the line failed, and the script does not name it, but both break off. -/
theorem unshownPower_breaks_off :
    IsPlainLine "pow(1/0.1, 100000000000000000)" ∧
      ((Session.new .default).evaluate "pow(1/0.1, 100000000000000000)").result.toOption =
        some (.finite false 1 100000000000000000) ∧
      script .default false (scriptOfLines ["pow(1/0.1, 100000000000000000)"]) =
        ⟨"", "", some 1, some (Fault.signal .outOfMemory)⟩ ∧
      interactive .default false (inputOfLines ["pow(1/0.1, 100000000000000000)"]) =
        ⟨banner ++ prompt, "", some 1, some (Fault.signal .outOfMemory)⟩ := by
  decide +kernel

end Console

end DecimalCalculator
