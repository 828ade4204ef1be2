import Constituency.Proofs.Chart.DoubleScores
import Constituency.Proofs.Chart.Endings
import Constituency.Proofs.Command.Lines

/-!
# What the command answers

A session answers every line of its input and then ends without an error, whatever the lines are
(`Session.converse_lines`); the answer to a line depends on nothing but the session and the words of
the line. It takes a chart, which comes to an end if the steps are limited, and also if no unary
rule has a weight above one.
-/
namespace Constituency.Command

/-- The words of a line, which are the tokens of a sentence. -/
def lineTokens (line : List Char) : List String :=
  (Text.words line).map String.ofList

section

variable [Logarithm Float Float]

namespace Session

theorem reply_bytes (s : Session) (line : List Char) :
    s.reply ⟨(Text.bytes line).toArray⟩ = .ok (s.answer (lineTokens line)) := by
  rw [reply, decode_bytes]
  change Except.ok (s.answer ((Text.words (String.ofList line).toList).map String.ofList)) = _
  rw [String.toList_ofList, lineTokens]

/-- A line of text is answered, and the session goes on with the other lines. -/
theorem converse_cons (s : Session) (stdout : String) (line : List Char)
    (rest : List ByteArray) :
    s.converse stdout (⟨(Text.bytes line).toArray⟩ :: rest) =
      s.converse (stdout ++ prompt ++ s.answer (lineTokens line)) rest := by
  rw [converse, reply_bytes]

/-- All lines of text are answered, each after a prompt, and after the last one there is another
prompt. -/
theorem converse_lines (s : Session) (stdout : String) (lines : List (List Char)) :
    s.converse stdout (lines.map fun line => ⟨(Text.bytes line).toArray⟩) =
      { stdout := stdout ++ String.join (lines.map fun line => prompt ++ s.answer (lineTokens line))
          ++ prompt
        stderr := ""
        code := 0 } := by
  induction lines generalizing stdout with
  | nil => simp [converse]
  | cons line lines ih =>
    rw [List.map_cons, converse_cons, ih]
    simp [String.append_assoc]

/-- A chart of a session has an outcome if the steps are limited, or if no unary rule has a weight
above one and the places of the chart fit into a machine word. -/
theorem exists_chart? (s : Session) (tokens : List String)
    (h : s.options.maxSteps ≠ none ∨ DoubleLogarithm ∧
      (∀ rule ∈ s.grammar.rules, rule.unaryChild? ≠ none → rule.weight ≤ 1) ∧
        tokens.length * (tokens.length + 1) < UInt64.size) :
    ∃ result, s.grammar.chart? tokens s.options = some result := by
  by_cases hsteps : s.options.maxSteps = none
  · obtain ⟨_, hweights, hsize⟩ := h.resolve_left (not_not.mpr hsteps)
    by_cases ht : tokens = []
    · exact ⟨.error .emptyInput, by simp [Grammar.chart?, ht]⟩
    · obtain ⟨chart, hchart⟩ := Grammar.exists_chart_of_doubles hweights ht hsize hsteps
      exact ⟨.ok chart, Grammar.chart?_of_chart hchart⟩
  · obtain ⟨limit, hlimit⟩ := Option.ne_none_iff_exists'.mp hsteps
    apply Grammar.exists_chart?_of_fill
    rw [ParseOptions.limit, hlimit]
    exact (Chart.metered_fill s.grammar tokens.toArray s.options.beam).ends limit.toNat

end Session

/-- Whatever the text of the input is, a session answers its lines one by one. The answer to a line
depends on the session and the words of the line, and takes a chart that has an outcome: the steps
are limited, or no unary rule has a weight above one. Without a limit the places of every chart must
also fit into a machine word, in which they are counted. -/
theorem run_answers (program : String) (args : List String) (found : Surroundings)
    {arguments : Arguments} (hargs : Arguments.read args = .ok arguments)
    {session : Session} (hsession : Session.begin arguments (found.read arguments.file) = .ok session)
    {text : String} (htext : FileError.decode (found.inputAfter arguments.file) = .ok text)
    (hends : session.options.maxSteps ≠ none ∨ DoubleLogarithm ∧
      (∀ rule ∈ session.grammar.rules, rule.unaryChild? ≠ none → rule.weight ≤ 1) ∧
      ∀ line ∈ Text.lines text.toList,
        (lineTokens line).length * ((lineTokens line).length + 1) < UInt64.size) :
    run program args found =
      { stdout := String.join ((Text.lines text.toList).map fun line =>
          "> " ++ session.answer (lineTokens line)) ++ "> "
        stderr := ""
        code := 0 } ∧
    ∀ line ∈ Text.lines text.toList,
      ∃ result, session.grammar.chart? (lineTokens line) session.options = some result := by
  constructor
  · have hlines : (inputLines (found.inputAfter arguments.file).toList).map
        (fun line => (⟨line.toArray⟩ : ByteArray)) =
        (Text.linesWithEndings text.toList).map fun line => ⟨(Text.bytes line).toArray⟩ := by
      rw [toList_of_decode htext, inputLines_bytes, List.map_map]
      rfl
    simp only [run, hargs, hsession, hlines, Session.converse_lines, String.empty_append]
    have hanswers := Text.map_linesWithEndings
      (fun words => prompt ++ session.answer (words.map String.ofList)) text.toList
    exact congrArg (fun answers => (⟨String.join answers ++ prompt, "", 0⟩ : Outcome)) hanswers
  · intro line hline
    refine session.exists_chart? (lineTokens line) (hends.imp_right ?_)
    rintro ⟨hlog, hweights, hsize⟩
    exact ⟨hlog, hweights, hsize line hline⟩

end

/-- Files with a grammar whose unary rules make a round, and three lines of input, the second of
which is blank and the last of which has no end. -/
def roundFiles : Surroundings where
  root := .directory [("g", .file "S -> A;\nA -> S;\nA -> hi;\n".toByteArray)]
  workingDirectory := []
  input := "hi\n\nhi hi".toByteArray

theorem find_roundFiles :
    roundFiles.find "g" = .ok (.file "S -> A;\nA -> S;\nA -> hi;\n".toByteArray) := by
  have hsplit : "g".splitOn "/" = ["g"] := by
    rw [String.splitOn, if_neg (by decide), String.splitOnAux, if_neg (by decide +kernel),
      if_neg (by decide +kernel), String.splitOnAux, if_pos (by decide +kernel)]
    decide +kernel
  have hstart : "g".startsWith "/" = false := by simp
  simp only [Surroundings.find, hsplit, hstart]
  rfl

theorem exists_session_roundFiles : ∃ session,
    Session.begin { file := "g" } (roundFiles.read "g") = .ok session ∧
      ∀ rule ∈ session.grammar.rules, rule.unaryChild? ≠ none → rule.weight ≤ 1 := by
  have hread : roundFiles.read "g" = .ok "S -> A;\nA -> S;\nA -> hi;\n".toByteArray := by
    simp only [Surroundings.read, find_roundFiles]
    rfl
  rw [hread]
  have h : (match Session.begin { file := "g" } (.ok "S -> A;\nA -> S;\nA -> hi;\n".toByteArray) with
      | .ok s => decide (∀ rule ∈ s.grammar.rules, rule.unaryChild? ≠ none → rule.weight ≤ 1)
      | .error _ => false) = true := by decide +kernel
  split at h
  · exact ⟨_, by assumption, of_decide_eq_true h⟩
  · cases h

theorem run_answers_roundFiles :
    letI : Logarithm Float Float := ⟨fun _ => 0⟩
    ∃ session, Session.begin { file := "g" } (roundFiles.read "g") = .ok session ∧
      run "parse" ["g"] roundFiles =
        { stdout := "> " ++ session.answer ["hi"] ++ "> " ++ session.answer []
            ++ "> " ++ session.answer ["hi", "hi"] ++ "> "
          stderr := ""
          code := 0 } := by
  let _ : Logarithm Float Float := ⟨fun _ => 0⟩
  have hlog : DoubleLogarithm :=
    { log_nonpos := fun _ _ => by change (0 : Float) ≤ 0; decide +kernel
      log_le_one := fun _ _ => by change (0 : Float) ≤ 1; decide +kernel }
  obtain ⟨session, hsession, hweights⟩ := exists_session_roundFiles
  have hinput : roundFiles.inputAfter "g" = "hi\n\nhi hi".toByteArray := by
    simp only [Surroundings.inputAfter, find_roundFiles]
    rfl
  have htext : FileError.decode (roundFiles.inputAfter "g") = .ok "hi\n\nhi hi" := by
    rw [hinput]
    rfl
  have hlines : Text.lines "hi\n\nhi hi".toList = ["hi".toList, [], "hi hi".toList] := by
    decide +kernel
  obtain ⟨hfirst, hblank, hlast⟩ : lineTokens "hi".toList = ["hi"] ∧ lineTokens [] = [] ∧
      lineTokens "hi hi".toList = ["hi", "hi"] := by decide +kernel
  refine ⟨session, hsession, ?_⟩
  have hargs : Arguments.read ["g"] = .ok { file := "g" } := rfl
  obtain ⟨hrun, -⟩ := run_answers "parse" ["g"] roundFiles hargs hsession htext
    (.inr ⟨hlog, hweights, by rw [hlines]; decide +kernel⟩)
  rw [hrun, hlines]
  simp only [List.map_cons, List.map_nil, hfirst, hblank, hlast, String.join_cons, String.join_nil,
    String.append_assoc, String.append_empty]

end Constituency.Command
