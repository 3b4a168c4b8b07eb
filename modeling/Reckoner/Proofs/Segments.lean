import Mathlib.Data.List.TakeDrop
import Reckoner.Proofs.Separation

/-!
# A scanner answers segment by segment

A formula falls into segments: every delimiter alone, and every maximal run of
bytes that are neither blank nor delimiters, a lexeme. A scanner that is asked
again and again answers one segment after the other, also after it has reported
a malformed lexeme. Only the delimiter that ended a malformed lexeme is never
delivered. Once every segment is answered, the answer is the end.
-/

namespace Reckoner

/-! ## Segments -/

/-- A delimiter or a lexeme of a formula, with the offset of its first byte. -/
inductive Segment where
  | delimiter (token : Token) (offset : Nat)
  | lexeme (text : Text) (offset : Nat)
  deriving DecidableEq

namespace Segment

/-- The bytes of a segment. -/
def text : Segment → Text
  | .delimiter token _ => token.written
  | .lexeme text _ => text

/-- The offset of the first byte of a segment. -/
def offset : Segment → Nat
  | .delimiter _ offset => offset
  | .lexeme _ offset => offset

/--
What a segment is read as. A lexeme is a number if it is a literal; otherwise it
is a name, which may not start with a digit.
-/
def answer : Segment → Except ParseFault Token
  | .delimiter token _ => .ok token
  | .lexeme text offset =>
      match parseNumber? text with
      | some value => .ok (.number text value)
      | none =>
          if text.startsWithDigit then
            .error (.malformedToken text offset)
          else
            .ok (.name text (-1))

/-- Whether a segment is a lexeme that is neither a number nor a name. -/
def isMalformed : Segment → Bool
  | .delimiter _ _ => false
  | .lexeme text _ => (parseNumber? text).isNone && text.startsWithDigit

/-- Whether a segment is the delimiter that ended a malformed lexeme. -/
def endsMalformed (previous : Segment) : Segment → Bool
  | .delimiter _ offset =>
      previous.isMalformed && offset == previous.offset + previous.text.length
  | .lexeme _ _ => false

end Segment

/-- The segments of a text whose first byte has the given offset. -/
def segmentsFrom (offset : Nat) : Text → List Segment
  | [] => []
  | byte :: rest =>
      match Token.ofDelimiter? byte with
      | some token => .delimiter token offset :: segmentsFrom (offset + 1) rest
      | none =>
          if Byte.isBlank byte then
            segmentsFrom (offset + 1) rest
          else
            let lexeme := byte :: rest.takeWhile Byte.isLexeme
            .lexeme lexeme offset ::
              segmentsFrom (offset + lexeme.length) (rest.dropWhile Byte.isLexeme)
  termination_by text => text.length
  decreasing_by
    · simp
    · simp
    · have shorter := (List.dropWhile_sublist (l := rest) Byte.isLexeme).length_le
      simp only [List.length_cons]
      omega

/-- The segments of a formula. -/
def segments (formula : Text) : List Segment :=
  segmentsFrom 0 formula

/-- The segments that are delivered when the given one comes before them. -/
def deliveredAfter : Option Segment → List Segment → List Segment
  | _, [] => []
  | previous, segment :: rest =>
      if previous.any (·.endsMalformed segment) then
        deliveredAfter (some segment) rest
      else
        segment :: deliveredAfter (some segment) rest

/-- The segments that are delivered: all but the delimiters that ended malformed lexemes. -/
def delivered (segments : List Segment) : List Segment :=
  deliveredAfter none segments

section Equations

variable
  (offset : Nat)

@[simp] theorem segmentsFrom_nil :
    segmentsFrom offset [] = [] := by
  rw [segmentsFrom]

theorem segmentsFrom_blank
    {byte : UInt8}
    (blank : Byte.isBlank byte = true)
    (rest : Text) :
    segmentsFrom offset (byte :: rest) = segmentsFrom (offset + 1) rest := by
  rw [segmentsFrom, Byte.ofDelimiter?_eq_none_of_isBlank blank]
  simp [blank]

theorem segmentsFrom_delimiter
    {byte : UInt8}
    {token : Token}
    (delimits : Token.ofDelimiter? byte = some token)
    (rest : Text) :
    segmentsFrom offset (byte :: rest) =
      .delimiter token offset :: segmentsFrom (offset + 1) rest := by
  rw [segmentsFrom, delimits]

theorem segmentsFrom_lexeme
    {lexeme ended : Text}
    (notEmpty : lexeme ≠ [])
    (inLexeme : ∀ byte ∈ lexeme, Byte.isLexeme byte = true)
    (ends : ended.EndsLexeme) :
    segmentsFrom offset (lexeme ++ ended) =
      .lexeme lexeme offset :: segmentsFrom (offset + lexeme.length) ended := by
  obtain ⟨byte, more, rfl⟩ := List.exists_cons_of_ne_nil notEmpty
  have plain := Byte.plain_of_isLexeme (inLexeme byte List.mem_cons_self)
  have inMore : ∀ later ∈ more, Byte.isLexeme later = true :=
    fun later member => inLexeme later (List.mem_cons_of_mem _ member)
  rw [List.cons_append, segmentsFrom, plain.2]
  simp [plain.1, ends.takeWhile_append inMore, ends.dropWhile_append inMore]

end Equations

/-! ## Where segments stand -/

/-- A segment consists of the bytes that stand at its offset. -/
theorem exists_append_of_mem_segmentsFrom
    (offset : Nat)
    (text : Text) :
    ∀ segment ∈ segmentsFrom offset text,
      ∃ before after,
        text = before ++ segment.text ++ after ∧ offset + before.length = segment.offset := by
  induction text using Text.induction generalizing offset with
  | empty =>
      simp
  | blank byte rest blank inductionHypothesis =>
      intro segment member
      rw [segmentsFrom_blank offset blank] at member
      obtain ⟨before, after, split, stands⟩ := inductionHypothesis _ segment member
      refine ⟨byte :: before, after, by rw [split]; rfl, ?_⟩
      rw [List.length_cons]
      omega
  | delimiter byte token rest delimits inductionHypothesis =>
      intro segment member
      rw [segmentsFrom_delimiter offset delimits] at member
      rcases List.mem_cons.mp member with isFirst | inRest
      · subst isFirst
        have written := Token.written_of_ofDelimiter? delimits
        exact ⟨[], rest, by rw [Segment.text, written]; rfl, rfl⟩
      · obtain ⟨before, after, split, stands⟩ := inductionHypothesis _ segment inRest
        refine ⟨byte :: before, after, by rw [split]; rfl, ?_⟩
        rw [List.length_cons]
        omega
  | lexeme lexeme ended notEmpty inLexeme ends inductionHypothesis =>
      intro segment member
      rw [segmentsFrom_lexeme offset notEmpty inLexeme ends] at member
      rcases List.mem_cons.mp member with isFirst | inRest
      · subst isFirst
        exact ⟨[], ended, rfl, rfl⟩
      · obtain ⟨before, after, split, stands⟩ := inductionHypothesis _ segment inRest
        refine ⟨lexeme ++ before, after, by rw [split]; simp, ?_⟩
        rw [List.length_append]
        omega

/-- A text has no more segments than bytes. -/
theorem length_segmentsFrom_le
    (offset : Nat)
    (text : Text) :
    (segmentsFrom offset text).length ≤ text.length := by
  induction text using Text.induction generalizing offset with
  | empty =>
      simp
  | blank byte rest blank inductionHypothesis =>
      rw [segmentsFrom_blank offset blank]
      exact Nat.le_succ_of_le (inductionHypothesis _)
  | delimiter byte token rest delimits inductionHypothesis =>
      rw [segmentsFrom_delimiter offset delimits]
      exact Nat.succ_le_succ (inductionHypothesis _)
  | lexeme lexeme ended notEmpty inLexeme ends inductionHypothesis =>
      have fewer := inductionHypothesis (offset + lexeme.length)
      have positive := List.length_pos_iff.mpr notEmpty
      rw [segmentsFrom_lexeme offset notEmpty inLexeme ends, List.length_cons,
        List.length_append]
      omega

/-- What is delivered are segments, in their order. -/
theorem deliveredAfter_sublist
    (previous : Option Segment)
    (segments : List Segment) :
    (deliveredAfter previous segments).Sublist segments := by
  induction segments generalizing previous with
  | nil =>
      exact .slnil
  | cons segment rest inductionHypothesis =>
      rw [deliveredAfter]
      split
      · exact (inductionHypothesis _).cons segment
      · exact (inductionHypothesis _).cons_cons segment

/-! ## What is delivered -/

namespace Segment

/-- A lexeme is answered as its token, or as malformed if it has none. -/
theorem answer_lexeme
    (text : Text)
    (offset : Nat) :
    answer (.lexeme text offset) =
      match Token.ofLexeme? text with
      | some token => .ok token
      | none => .error (.malformedToken text offset) := by
  cases number : parseNumber? text with
  | some value =>
      simp [answer, Token.ofLexeme?, number]
  | none =>
      cases digit : text.startsWithDigit <;>
        simp [answer, Token.ofLexeme?, number, digit, Token.bareName]

/-- Exactly the lexemes without a token are malformed. -/
theorem isMalformed_lexeme
    (text : Text)
    (offset : Nat) :
    isMalformed (.lexeme text offset) = (Token.ofLexeme? text).isNone := by
  cases number : parseNumber? text with
  | some value =>
      simp [isMalformed, Token.ofLexeme?, number]
  | none =>
      cases digit : text.startsWithDigit <;>
        simp [isMalformed, Token.ofLexeme?, number, digit]

theorem answer_of_isMalformed
    {text : Text}
    {offset : Nat}
    (malformed : isMalformed (.lexeme text offset) = true) :
    answer (.lexeme text offset) = .error (.malformedToken text offset) := by
  rw [isMalformed_lexeme, Option.isNone_iff_eq_none] at malformed
  rw [answer_lexeme, malformed]

end Segment

@[simp] theorem delivered_nil :
    delivered [] = [] :=
  rfl

theorem delivered_cons
    (segment : Segment)
    (rest : List Segment) :
    delivered (segment :: rest) = segment :: deliveredAfter (some segment) rest := by
  simp [delivered, deliveredAfter]

/-- A segment before others makes no difference unless it is a lexeme that the next one ended. -/
theorem deliveredAfter_eq_delivered
    {previous : Segment}
    {segments : List Segment}
    (kept : ∀ segment ∈ segments, previous.endsMalformed segment = false) :
    deliveredAfter (some previous) segments = delivered segments := by
  cases segments with
  | nil =>
      rfl
  | cons segment rest =>
      simp [delivered, deliveredAfter, kept segment List.mem_cons_self]

theorem deliveredAfter_of_wellFormed
    {previous : Segment}
    (wellFormed : previous.isMalformed = false)
    (segments : List Segment) :
    deliveredAfter (some previous) segments = delivered segments := by
  apply deliveredAfter_eq_delivered
  intro segment member
  cases segment <;> simp [Segment.endsMalformed, wellFormed]

/-- Segments further to the right did not end a lexeme. -/
theorem deliveredAfter_of_lt
    {previous : Segment}
    {offset : Nat}
    (apart : previous.offset + previous.text.length < offset)
    (text : Text) :
    deliveredAfter (some previous) (segmentsFrom offset text) =
      delivered (segmentsFrom offset text) := by
  apply deliveredAfter_eq_delivered
  intro segment member
  obtain ⟨before, -, -, stands⟩ := exists_append_of_mem_segmentsFrom offset text segment member
  cases segment with
  | delimiter token start =>
      have further : start ≠ previous.offset + previous.text.length := by
        simp only [Segment.offset] at stands
        omega
      simp [Segment.endsMalformed, further]
  | lexeme text start =>
      rfl

/-- After a malformed lexeme the byte that ended it is skipped, even if it is a delimiter. -/
theorem deliveredAfter_malformed
    {lexeme ended : Text}
    {offset : Nat}
    (malformed : (Segment.lexeme lexeme offset).isMalformed = true)
    (ends : ended.EndsLexeme) :
    deliveredAfter (some (.lexeme lexeme offset))
        (segmentsFrom (offset + lexeme.length) ended) =
      delivered
        (segmentsFrom (offset + lexeme.length + (ended.take 1).length) (ended.drop 1)) := by
  cases ended with
  | nil =>
      simp [delivered, deliveredAfter]
  | cons stop later =>
      rcases Byte.blank_or_delimiter_of_not_isLexeme (ends stop rfl) with
        blank | ⟨token, delimits⟩
      · rw [segmentsFrom_blank _ blank]
        exact deliveredAfter_of_lt (Nat.lt_succ_self _) later
      · have lost :
            (Segment.lexeme lexeme offset).endsMalformed
              (.delimiter token (offset + lexeme.length)) = true := by
          simp [Segment.endsMalformed, malformed, Segment.offset, Segment.text]
        rw [segmentsFrom_delimiter _ delimits, deliveredAfter, Option.any_some, if_pos lost]
        exact deliveredAfter_of_wellFormed rfl _

/-! ## Answers -/

namespace Scanner

section Answers

variable
  {scanner other : Scanner}

theorem answers_succ
    (count : Nat) :
    scanner.answers (count + 1) = scanner.next.1 :: scanner.next.2.answers count :=
  rfl

/-- Scanners that step alike answer alike. -/
theorem answers_eq_of_next_eq
    (same : scanner.next = other.next)
    (count : Nat) :
    scanner.answers count = other.answers count := by
  cases count with
  | zero =>
      rfl
  | succ count =>
      rw [answers_succ, answers_succ, same]

end Answers

/--
One step either answers the end, because no segment is left to deliver, or it
answers the first of them and goes on as a scanner before the others would.
-/
theorem next_unread_segments
    (offset : Nat)
    (text : Text) :
    (delivered (segmentsFrom offset text) = [] ∧
        ∃ last, (unread offset text).next = (.ok none, unread last [])) ∨
      ∃ segment later rest following,
        delivered (segmentsFrom offset text) =
            segment :: delivered (segmentsFrom later rest) ∧
          (unread offset text).next = (segment.answer.map some, following) ∧
          following.next = (unread later rest).next := by
  induction text using Text.induction generalizing offset with
  | empty =>
      exact .inl ⟨by simp, offset, next_unread_nil offset⟩
  | blank byte rest blank inductionHypothesis =>
      rw [segmentsFrom_blank offset blank, next_unread_blank offset blank]
      exact inductionHypothesis (offset + 1)
  | delimiter byte token rest delimits inductionHypothesis =>
      refine .inr ⟨.delimiter token offset, offset + 1, rest, _, ?_,
        next_unread_delimiter offset delimits rest, rfl⟩
      rw [segmentsFrom_delimiter offset delimits, delivered_cons,
        deliveredAfter_of_wellFormed rfl]
  | lexeme lexeme ended notEmpty inLexeme ends inductionHypothesis =>
      have answered := Segment.answer_lexeme lexeme offset
      have judged := Segment.isMalformed_lexeme lexeme offset
      have reads := next_unread_lexeme offset notEmpty inLexeme ends
      rw [segmentsFrom_lexeme offset notEmpty inLexeme ends, delivered_cons]
      cases read : Token.ofLexeme? lexeme with
      | some token =>
          rw [read] at answered judged reads
          refine .inr ⟨.lexeme lexeme offset, offset + lexeme.length, ended, _, ?_, ?_,
            next_afterLexeme _ ends⟩
          · rw [deliveredAfter_of_wellFormed judged]
          · rw [reads, answered]
            rfl
      | none =>
          rw [read] at answered judged reads
          refine .inr ⟨.lexeme lexeme offset, offset + lexeme.length + (ended.take 1).length,
            ended.drop 1, unread _ _, ?_, ?_, rfl⟩
          · rw [deliveredAfter_malformed judged ends]
          · rw [reads, answered]
            rfl

/-- The answers of a scanner are those of the segments that are delivered, and then the end. -/
theorem answers_unread
    (offset count : Nat)
    (text : Text) :
    (unread offset text).answers count =
      ((delivered (segmentsFrom offset text)).map fun segment =>
        segment.answer.map some).takeD count (.ok none) := by
  induction count generalizing offset text with
  | zero =>
      rfl
  | succ count inductionHypothesis =>
      rw [answers_succ]
      rcases next_unread_segments offset text with
        ⟨noneLeft, last, ends⟩ | ⟨segment, later, rest, following, first, steps, goesOn⟩
      · have afterwards := inductionHypothesis last []
        rw [segmentsFrom_nil, delivered_nil] at afterwards
        rw [ends, noneLeft, afterwards]
        rfl
      · rw [steps, first, answers_eq_of_next_eq goesOn, inductionHypothesis]
        rfl

/-- The tokens of a text are those of its segments, up to the first malformed one. -/
theorem tokensFrom_eq_mapM_segmentsFrom
    (offset : Nat)
    (text : Text) :
    tokensFrom offset text = (segmentsFrom offset text).mapM Segment.answer := by
  induction text using Text.induction generalizing offset with
  | empty =>
      rw [tokensFrom_nil, segmentsFrom_nil]
      rfl
  | blank byte rest blank inductionHypothesis =>
      rw [tokensFrom_blank offset blank, segmentsFrom_blank offset blank, inductionHypothesis]
  | delimiter byte token rest delimits inductionHypothesis =>
      rw [tokensFrom_delimiter offset delimits, segmentsFrom_delimiter offset delimits,
        inductionHypothesis, List.mapM_cons]
      rfl
  | lexeme lexeme ended notEmpty inLexeme ends inductionHypothesis =>
      rw [tokensFrom_lexeme offset notEmpty inLexeme ends,
        segmentsFrom_lexeme offset notEmpty inLexeme ends, inductionHypothesis, List.mapM_cons,
        Segment.answer_lexeme]
      cases Token.ofLexeme? lexeme with
      | none =>
          rfl
      | some token =>
          rfl

/-- Whether an answer is anything but the end. -/
def isAnswered : Except ParseFault (Option Token) → Bool
  | .ok none => false
  | _ => true

/-- A list filled up with the end has no more other answers than it had. -/
theorem countP_isAnswered_takeD_le
    (answers : List (Except ParseFault (Option Token)))
    (count : Nat) :
    (answers.takeD count (.ok none)).countP isAnswered ≤ answers.length := by
  induction count generalizing answers with
  | zero =>
      exact Nat.zero_le _
  | succ count inductionHypothesis =>
      cases answers with
      | nil =>
          simp [isAnswered]
      | cons first rest =>
          have atMost := inductionHypothesis rest
          simp only [List.takeD_succ, List.head?_cons, Option.getD_some, List.tail_cons,
            List.countP_cons, List.length_cons]
          split <;> omega

end Scanner

/-! ## Messages -/

/-- The byte of a digit is its code. -/
theorem Text.toNat_toUInt8_of_mem_toDigits
    {number : Nat}
    {digit : Char}
    (inDigits : digit ∈ Nat.toDigits 10 number) :
    digit.toUInt8.toNat = digit.toNat ∧ 48 ≤ digit.toNat ∧ digit.toNat ≤ 57 := by
  have isDigit := Nat.isDigit_of_mem_toDigits (by decide) (by decide) inDigits
  simp only [Char.isDigit, Bool.and_eq_true, decide_eq_true_eq, ge_iff_le,
    UInt32.le_iff_toNat_le] at isDigit
  have bounds : 48 ≤ digit.toNat ∧ digit.toNat ≤ 57 := isDigit
  have wrapped : digit.toUInt8.toNat = digit.toNat % 256 :=
    UInt32.toNat_toUInt8 digit.val
  refine ⟨?_, bounds⟩
  omega

/-- The decimal digits of a number are written by the bytes of digits. -/
theorem Text.isDigit_of_mem_ofNat
    (number : Nat) :
    ∀ byte ∈ ofNat number, Byte.isDigit byte = true := by
  intro byte member
  obtain ⟨digit, inDigits, rfl⟩ := List.mem_map.mp member
  obtain ⟨value, lower, upper⟩ := toNat_toUInt8_of_mem_toDigits inDigits
  simp only [Byte.isDigit, Bool.and_eq_true, decide_eq_true_eq, UInt8.le_iff_toNat_le, value]
  exact ⟨lower, upper⟩

/-- No digit of a number is a zero byte. -/
theorem Text.ne_zero_of_mem_ofNat
    (number : Nat) :
    ∀ byte ∈ ofNat number, byte ≠ 0 := by
  rintro byte member rfl
  have isDigit := isDigit_of_mem_ofNat number 0 member
  cases isDigit

/-- Different numbers have different digits. -/
theorem Text.ofNat_injective :
    Function.Injective Text.ofNat := by
  have reads (number : Nat) :
      (ofNat number).map (fun byte => Char.ofNat byte.toNat) = Nat.toDigits 10 number := by
    rw [ofNat, List.map_map, List.map_congr_left (g := id), List.map_id]
    intro digit inDigits
    obtain ⟨value, -, -⟩ := toNat_toUInt8_of_mem_toDigits inDigits
    rw [Function.comp_apply, value, Char.ofNat_toNat, id]
  intro left right same
  calc
    left = Nat.ofDigitChars 10 (Nat.toDigits 10 left) 0 :=
      Nat.ofDigitChars_ten_toDigits.symm
    _ = Nat.ofDigitChars 10 (Nat.toDigits 10 right) 0 := by
      rw [← reads left, ← reads right, same]
    _ = right :=
      Nat.ofDigitChars_ten_toDigits

/-- The whole message about a malformed lexeme. -/
def malformedMessage (lexeme : Text) (offset : Nat) : Text :=
  Text.ofString "Malformed token '" ++ lexeme ++
    Text.ofString "' at position " ++ Text.ofNat offset

/-- A message about a malformed lexeme without zero bytes is shown whole. -/
theorem shown_malformedMessage
    {lexeme : Text}
    (zeroFree : ∀ byte ∈ lexeme, byte ≠ 0)
    (offset : Nat) :
    (malformedMessage lexeme offset).shown = malformedMessage lexeme offset := by
  apply Text.shown_eq_self
  intro byte member
  have opening : ∀ byte ∈ Text.ofString "Malformed token '", byte ≠ 0 := by
    decide +kernel
  have middle : ∀ byte ∈ Text.ofString "' at position ", byte ≠ 0 := by
    decide +kernel
  simp only [malformedMessage, List.mem_append] at member
  rcases member with ((inOpening | inLexeme) | inMiddle) | inOffset
  · exact opening byte inOpening
  · exact zeroFree byte inLexeme
  · exact middle byte inMiddle
  · exact Text.ne_zero_of_mem_ofNat offset byte inOffset

/-! ## Whole runs -/

/--
What is told about a malformed lexeme. The message is shown up to its first zero
byte, so it holds the lexeme and its offset if the lexeme has no such byte.
-/
structure ToldMalformed (segment : Segment) (report : Report) : Prop where
  stage : report.stage = .parse
  kind : report.kind = .malformedToken
  message : report.message = (malformedMessage segment.text segment.offset).shown
  wholeMessage :
    (∀ byte ∈ segment.text, byte ≠ 0) →
    report.message = malformedMessage segment.text segment.offset

theorem exists_toldMalformed
    {segment : Segment}
    (malformed : segment.isMalformed = true) :
    ∃ fault, segment.answer = .error fault ∧ ToldMalformed segment fault.report := by
  cases segment with
  | delimiter token offset =>
      cases malformed
  | lexeme text offset =>
      refine ⟨.malformedToken text offset, Segment.answer_of_isMalformed malformed,
        rfl, rfl, rfl, ?_⟩
      intro zeroFree
      exact shown_malformedMessage zeroFree offset

/--
How a scanner reads a formula, asked any number of times: its answers are those
of the segments that are delivered, followed by nothing but the end.
-/
structure ReadBySegments (formula : Text) : Prop where
  placed :
    ∀ segment ∈ segments formula,
      ∃ before after,
        formula = before ++ segment.text ++ after ∧ before.length = segment.offset
  answers :
    ∀ count,
      (Scanner.start formula).answers count =
        ((delivered (segments formula)).map fun segment =>
          segment.answer.map some).takeD count (.ok none)
  bounded :
    ∀ count,
      ((Scanner.start formula).answers count).countP Scanner.isAnswered ≤ formula.length
  malformed :
    ∀ segment ∈ segments formula,
      segment.isMalformed = true →
      ∃ fault, segment.answer = .error fault ∧ ToldMalformed segment fault.report
  tokens : tokenize formula = (segments formula).mapM Segment.answer

/-- Every formula is read segment by segment. -/
theorem start_readBySegments
    (formula : Text) :
    ReadBySegments formula := by
  have answers :
      ∀ count,
        (Scanner.start formula).answers count =
          ((delivered (segments formula)).map fun segment =>
            segment.answer.map some).takeD count (.ok none) :=
    fun count => Scanner.answers_unread 0 count formula
  exact {
    placed := by
      intro segment member
      obtain ⟨before, after, split, stands⟩ :=
        exists_append_of_mem_segmentsFrom 0 formula segment member
      exact ⟨before, after, split, by omega⟩
    answers := answers
    bounded := by
      intro count
      rw [answers count]
      calc
        _ ≤ ((delivered (segments formula)).map _).length :=
          Scanner.countP_isAnswered_takeD_le _ count
        _ = (delivered (segments formula)).length := List.length_map _
        _ ≤ (segments formula).length := (deliveredAfter_sublist none _).length_le
        _ ≤ formula.length := length_segmentsFrom_le 0 formula
    malformed := fun segment _ malformed => exists_toldMalformed malformed
    tokens := Scanner.tokensFrom_eq_mapM_segmentsFrom 0 formula
  }

/-- The lexeme of the digit `1` and a zero byte is missing from the message about it. -/
theorem message_without_lexeme :
    let lexeme : Text := [49, 0]
    segments lexeme = [.lexeme lexeme 0] ∧
      (Scanner.start lexeme).next.1 = .error (.malformedToken lexeme 0) ∧
      ∀ before after,
        (ParseFault.malformedToken lexeme 0).report.message ≠ before ++ lexeme ++ after := by
  intro lexeme
  refine ⟨?_, rfl, ?_⟩
  · have atEnd : Text.EndsLexeme [] := by
      simp [Text.EndsLexeme]
    have alone := segmentsFrom_lexeme 0 (by decide : lexeme ≠ []) (by decide +kernel) atEnd
    rw [List.append_nil, segmentsFrom_nil] at alone
    exact alone
  · intro before after same
    have noZero : (0 : UInt8) ∉ (ParseFault.malformedToken lexeme 0).report.message := by
      decide +kernel
    apply noZero
    rw [same]
    simp [lexeme]

end Reckoner
