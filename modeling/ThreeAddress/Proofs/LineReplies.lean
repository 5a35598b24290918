import Mathlib.Data.List.DropRight
import Mathlib.Logic.Function.Iterate
import ThreeAddress.Proofs.Script

namespace ThreeAddress

/-- The second text is the first without the line ends, of either sort, that it ends with. -/
structure Bytes.Trims (line trimmed : Bytes) : Prop where
  ends : ∃ ends, line = trimmed ++ ends ∧ ∀ b ∈ ends, b = newline ∨ b = carriageReturn
  last : ∀ b ∈ trimmed.getLast?, b ≠ newline ∧ b ≠ carriageReturn

def LineAnswer.ending : LineAnswer := { tokens := .error { cause := .endOfInput } }

def LineAnswer.found (answer : LineAnswer) : List Token :=
  match answer.tokens with
  | .ok tokens => tokens
  | .error _ => []

namespace Scanner

def resumed (source : Source) (line : Nat) : Scanner := { readings := source.lineReadings, line }

def after (s : Scanner) (n : Nat) : Scanner := (fun s => s.nextLine.2)^[n] s

/-- What request number `n` for a line gives, counted from zero. -/
def reply (s : Scanner) (n : Nat) : LineAnswer := (s.after n).nextLine.1

/-- What a request for a line may come to, given the bytes that have been read for it, what has
stopped the reading, and what is left of the source. -/
inductive Settles (line : Nat) : Bytes × LineStop × Source → LineAnswer × Scanner → Prop
  | ending {rest : Source} : Settles line ([], .ending, rest) (.ending, resumed rest line)
  | failure {pending reason : Bytes} {rest : Source} :
      Settles line (pending, .failure reason, rest)
        ({ tokens := .error (.explain .sourceRead
            (utf8 "line " ++ decimal (line + 1) ++ utf8 ": " ++ reason)) }, resumed rest line)
  | line {text trimmed : Bytes} {stop : LineStop} {rest : Source}
      (hstop : stop = .newline ∨ stop = .ending ∧ text ≠ []) (h : text.Trims trimmed) :
      Settles line (text, stop, rest)
        ((scanLine line trimmed).answer, resumed rest (line + 1))

theorem trims_iff {line trimmed : Bytes} : line.Trims trimmed ↔ trimLineEnd line = trimmed := by
  let p : UInt8 → Bool := fun b => b = Bytes.carriageReturn || b = Bytes.newline
  have htrim : trimLineEnd line = line.rdropWhile p := rfl
  have hp : ∀ b, p b = true ↔ b = Bytes.newline ∨ b = Bytes.carriageReturn := by
    simp [p, or_comm]
  rw [htrim]
  constructor
  · rintro ⟨⟨ends, rfl, hends⟩, hlast⟩
    have hreverse : ∀ b ∈ ends.reverse, p b = true :=
      fun b hb => (hp b).mpr (hends b (List.mem_reverse.mp hb))
    rw [List.rdropWhile, List.reverse_append, List.dropWhile_append_of_pos hreverse,
      ← List.rdropWhile, List.rdropWhile_eq_self_iff]
    intro hne hb
    obtain ⟨hnewline, hreturn⟩ := hlast _ (List.getLast_mem_getLast? hne)
    exact ((hp _).mp hb).elim hnewline hreturn
  · rintro rfl
    refine ⟨⟨line.rtakeWhile p, List.rdropWhile_append_rtakeWhile.symm, ?_⟩, ?_⟩
    · exact fun b hb => (hp b).mp (List.mem_rtakeWhile_imp hb)
    · intro b hb
      obtain ⟨hne, rfl⟩ := List.mem_getLast?_eq_getLast hb
      have hlast := mt (hp _).mpr (List.rdropWhile_last_not p line hne)
      exact not_or.mp hlast

theorem trims_trimLineEnd (line : Bytes) : line.Trims (trimLineEnd line) := trims_iff.mpr rfl

theorem after_succ (s : Scanner) (n : Nat) : s.after (n + 1) = s.nextLine.2.after n := rfl

theorem after_succ' (s : Scanner) (n : Nat) : s.after (n + 1) = (s.after n).nextLine.2 :=
  Function.iterate_succ_apply' _ n s

theorem reply_succ (s : Scanner) (n : Nat) : s.reply (n + 1) = s.nextLine.2.reply n := rfl

theorem nextLine_nil {s : Scanner} (h : s.readings = []) : s.nextLine = (.ending, s) := by
  simp [nextLine, h, LineAnswer.ending]

theorem reply_nil {s : Scanner} (h : s.readings = []) (n : Nat) : s.reply n = .ending := by
  induction n with
  | zero => rw [reply, after, Function.iterate_zero_apply, nextLine_nil h]
  | succ n ih => rw [reply_succ, nextLine_nil h, ih]

theorem reply_eq_answers (s : Scanner) (n : Nat) : s.reply n = s.answers.getD n .ending := by
  generalize h : s.readings = rs
  induction rs generalizing s n with
  | nil => rw [reply_nil h, answers_nil h, List.getD_nil]
  | cons r rs ih =>
    rw [answers_cons h]
    cases n with
    | zero => rfl
    | succ n =>
      rw [reply_succ, List.getD_cons_succ]
      exact ih _ n (readings_nextLine h)

theorem settles_nextLine (source : Source) (line : Nat) :
    Settles line (source.readLine []) (resumed source line).nextLine := by
  suffices h : ∀ pending : Bytes, Settles line (source.readLine pending)
      (nextLine { readings := LineReader.readingsAfter pending source.signals, line }) from h []
  intro pending
  induction source generalizing pending with
  | nil =>
    have hend : Source.signals [] = [] := rfl
    rw [hend, LineReader.readingsAfter_nil]
    cases pending with
    | nil => exact .ending
    | cons b pending => exact .line (.inr ⟨rfl, List.cons_ne_nil b pending⟩) (trims_trimLineEnd _)
  | cons event source ih =>
    rw [Source.signals_cons]
    cases event with
    | failure reason =>
      rw [SourceEvent.signals, List.singleton_append, LineReader.readingsAfter_failure]
      exact .failure
    | ending =>
      rw [SourceEvent.signals, List.singleton_append, LineReader.readingsAfter_ending]
      cases pending with
      | nil => exact .ending
      | cons b pending => exact .line (.inr ⟨rfl, List.cons_ne_nil b pending⟩) (trims_trimLineEnd _)
    | data bytes =>
      rw [SourceEvent.signals, Source.readLine]
      split
      · next hrest =>
        have hbytes : Bytes.newline ∉ bytes := by
          intro hmem
          simpa using List.dropWhile_eq_nil_iff.mp hrest _ hmem
        rw [LineReader.readingsAfter_bytes hbytes]
        exact ih _
      · next b rest hrest =>
        rw [LineReader.readingsAfter_line hrest]
        exact .line (.inl rfl) (trims_trimLineEnd _)

/-- The number of a line is the number of lines that were read before it. -/
theorem line_after (source : Source) (n : Nat) :
    ((ofSource source).after n).line =
      (List.range n).countP fun i => ((ofSource source).reply i).tokens.isOk := by
  induction n with
  | zero => rfl
  | succ n ih =>
    rw [List.range_succ, List.countP_append, ← ih, after_succ', List.countP_singleton, reply]
    generalize (ofSource source).after n = s
    unfold nextLine
    split <;> rfl

theorem reply_ofPieces (pieces : List Bytes) (n : Nat) :
    (ofSource (.ofPieces pieces)).reply n =
      match (sourceLines pieces.flatten)[n]? with
      | some line => (scanLine n (trimLineEnd line)).answer
      | none => .ending := by
  rw [reply_eq_answers, answers_ofPieces, List.getD_eq_getElem?_getD, List.getElem?_map, scans,
    List.getElem?_mapIdx, List.getElem?_map]
  cases (sourceLines pieces.flatten)[n]? <;> rfl

theorem reply_ofText (text : Bytes) (n : Nat) :
    (ofSource (.ofText text)).reply n =
      match ((sourceLines text).map trimLineEnd)[n]? with
      | some line => (scanLine n line).answer
      | none => .ending := by
  have hpieces : Source.ofText text = .ofPieces [text] := rfl
  rw [hpieces, reply_ofPieces, List.flatten_singleton, List.getElem?_map]
  cases (sourceLines text)[n]? <;> rfl

theorem found_newline (text : Bytes) (n : Nat) :
    let given := (ofSource (.ofText text)).reply n
    let ended := (ofSource (.ofText (text ++ [Bytes.newline]))).reply n
    ended.found = given.found ∧ ended.warnings = given.warnings := by
  intro given ended
  have hgiven : given = _ := reply_ofText text n
  have hended : ended = _ := reply_ofText (text ++ [Bytes.newline]) n
  obtain hlines | hlines := sourceLines_newline text
  · rw [hlines] at hended
    rw [hended, hgiven]
    exact ⟨rfl, rfl⟩
  · rw [hlines, List.map_append, List.map_singleton] at hended
    rw [hgiven, hended]
    generalize (sourceLines text).map trimLineEnd = trimmed
    obtain hn | rfl | hn := Nat.lt_trichotomy n trimmed.length
    · rw [List.getElem?_append_left hn]
      exact ⟨rfl, rfl⟩
    · rw [List.getElem?_concat_length, List.getElem?_eq_none (Nat.le_refl _)]
      exact ⟨rfl, rfl⟩
    · have hpast : (trimmed ++ [trimLineEnd []]).length ≤ n := by rwa [List.length_append]
      rw [List.getElem?_eq_none (Nat.le_of_lt hn), List.getElem?_eq_none hpast]
      exact ⟨rfl, rfl⟩

/-- Requests for a line look no further than the readings they use up. -/
theorem replies_of_append {s t : Scanner} {rs rs' : List LineReading}
    (hs : s.readings = rs ++ rs') (ht : t = { s with readings := rs }) :
    s.after rs.length = { t.after rs.length with readings := rs' } ∧
      ∀ i < rs.length, s.reply i = t.reply i := by
  induction rs generalizing s t with
  | nil =>
    subst ht
    exact ⟨by cases s; cases hs; rfl, nofun⟩
  | cons r rs ih =>
    have hnext : s.nextLine.1 = t.nextLine.1 ∧ s.nextLine.2.readings = rs ++ rs' ∧
        t.nextLine.2 = { s.nextLine.2 with readings := rs } := by
      obtain ⟨readings, line, reporting⟩ := s
      subst hs ht
      cases r <;> exact ⟨rfl, rfl, rfl⟩
    obtain ⟨hanswer, hreadings, hscanner⟩ := hnext
    obtain ⟨hafter, hreplies⟩ := ih hreadings hscanner
    refine ⟨hafter, ?_⟩
    intro i hi
    cases i with
    | zero => exact hanswer
    | succ i => exact hreplies i (Nat.lt_of_succ_lt_succ hi)

/-- A failure to read is answered by itself. It takes away the line that has been begun, is told
with the number of that line, and the next request goes on behind it with the same number. -/
theorem replies_around_failure {whole : Source} (hwhole : whole.BetweenLines) {pending : Bytes}
    (hpending : Bytes.newline ∉ pending) {before : Source}
    (hbefore : before.merged = Source.merged (whole ++ [.data pending])) (reason : Bytes)
    (rest : Source) :
    let s := ofSource (before ++ .failure reason :: rest)
    let n := whole.lineReadings.length
    (∀ i < n, s.reply i = (ofSource whole).reply i) ∧
      s.reply n = { tokens := .error ((s.after n).readFailure reason) } ∧
      s.after (n + 1) = resumed rest (s.after n).line := by
  intro s n
  have hreadings : s.readings = whole.lineReadings ++ .failure reason :: rest.lineReadings := by
    have hmerged : Source.merged (before ++ .failure reason :: rest) =
        Source.merged (whole ++ (.data pending :: .failure reason :: rest)) := by
      rw [Source.merged_eq_merged_iff] at hbefore ⊢
      rw [Source.signals_append, hbefore, ← Source.signals_append, List.append_assoc]
      rfl
    have hs : s.readings = Source.lineReadings (before ++ .failure reason :: rest) := rfl
    rw [hs, Source.lineReadings_congr hmerged, Source.lineReadings_append hwhole,
      Source.lineReadings_failure hpending]
  obtain ⟨hafter, hreplies⟩ :=
    replies_of_append (t := ofSource whole) hreadings rfl
  have hnext : (s.after n).nextLine =
      ({ tokens := .error ((s.after n).readFailure reason) },
        { s.after n with readings := rest.lineReadings }) := by
    rw [hafter]
    rfl
  have hreporting : (s.after n).reporting = true := by
    refine Function.Iterate.rec (fun u : Scanner => u.reporting = true) rfl (fun u hu => ?_) n
    unfold nextLine
    split <;> exact hu
  refine ⟨hreplies, by rw [reply, hnext], ?_⟩
  rw [after_succ', hnext, resumed, ← hreporting]

/-- Reading a source line by line.

The script matters only as far as merging leaves it. A request for a line takes the bytes of one
line off it: a line is scanned, a failure is passed on, and the end is told if there is no byte.
From data alone come the scans of the lines of the text, each with its number, and then the end;
a newline at the end and carriage returns before the newlines change nothing that is found. A
failure takes away what has come of a line and is told with the number of that line, which the
next line that can be read then gets. -/
theorem reads_source_by_lines :
    (∀ (source : Source) (n : Nat),
      (ofSource source).reply n = (ofSource source.merged).reply n) ∧
    (∀ (source : Source) (line : Nat),
      Settles line (source.readLine []) (resumed source line).nextLine) ∧
    (∀ (pieces : List Bytes) (n : Nat),
      let given := (ofSource (.ofPieces pieces)).reply n
      (match (sourceLines pieces.flatten)[n]? with
        | some line => ∃ trimmed, line.Trims trimmed ∧ given = (scanLine n trimmed).answer
        | none => given = .ending) ∧
      ∀ t ∈ given.found, t.position.line = n) ∧
    (∀ (text : Bytes) (n : Nat),
      let given := (ofSource (.ofText text)).reply n
      let ended := (ofSource (.ofText (text ++ [Bytes.newline]))).reply n
      ended.found = given.found ∧ ended.warnings = given.warnings ∧
        (ofSource (.ofText text.withCarriageReturns)).reply n = given) ∧
    ∀ (before : Source) (reason : Bytes) (rest : Source),
      let s := ofSource (before ++ .failure reason :: rest)
      ∃ (whole : Source) (pending : Bytes),
        before.merged = Source.merged (whole ++ [.data pending]) ∧ whole.BetweenLines ∧
        Bytes.newline ∉ pending ∧
        let n := whole.lineReadings.length
        let line := (List.range n).countP fun i => (s.reply i).tokens.isOk
        (∀ i < n, s.reply i = (ofSource whole).reply i) ∧
        s.reply n = { tokens := .error (.explain .sourceRead
          (utf8 "line " ++ decimal (line + 1) ++ utf8 ": " ++ reason)) } ∧
        s.after (n + 1) = resumed rest line := by
  refine ⟨?_, settles_nextLine, ?_, ?_, ?_⟩
  · intro source n
    have hmerged : source.merged.merged = source.merged :=
      Source.merged_eq_merged_iff.mpr source.signals_merged
    rw [ofSource, ofSource, Source.lineReadings_congr hmerged]
  · intro pieces n given
    have hgiven : given = _ := reply_ofPieces pieces n
    cases hline : (sourceLines pieces.flatten)[n]? with
    | none =>
      rw [hline] at hgiven
      refine ⟨hgiven, ?_⟩
      rw [hgiven]
      intro t ht
      cases ht
    | some line =>
      rw [hline] at hgiven
      refine ⟨⟨_, trims_trimLineEnd line, hgiven⟩, ?_⟩
      rw [hgiven]
      exact fun t ht => (of_mem_scanLine ht).1
  · intro text n given ended
    obtain ⟨hfound, hwarnings⟩ := found_newline text n
    refine ⟨hfound, hwarnings, ?_⟩
    rw [reply_ofText, trimmed_withCarriageReturns, ← reply_ofText]
  · intro before reason rest s
    obtain ⟨whole, pending, hbefore, hwhole, hpending⟩ := before.exists_betweenLines
    obtain ⟨hreplies, hfailure, hafter⟩ :=
      replies_around_failure hwhole hpending hbefore reason rest
    refine ⟨whole, pending, hbefore, hwhole, hpending, hreplies, ?_, ?_⟩
    · rw [← line_after]
      exact hfailure
    · rw [← line_after]
      exact hafter

/-- Two lines in two pieces with three sorts of line ends, and a failure inside a line. -/
theorem reads_source_by_lines_of_two :
    let s := ofSource (.ofPieces [utf8 "x\r", utf8 "\n y\r\r\n"])
    let failing : Source := [.data (utf8 "x = "), .failure (utf8 "disk"), .data (utf8 "1\n")]
    s.reply 0 = (scanLine 0 (utf8 "x")).answer ∧ s.reply 1 = (scanLine 1 (utf8 " y")).answer ∧
      s.reply 2 = .ending ∧
      (ofSource failing).nextLine =
        ({ tokens := .error (.explain .sourceRead (utf8 "line 1: disk")) },
          resumed [.data (utf8 "1\n")] 0) := by
  intro s failing
  obtain ⟨-, hsettles, hpieces, -, -⟩ := reads_source_by_lines
  have hreply : ∀ {pieces : List Bytes} {n : Nat} {line trimmed : Bytes},
      (sourceLines pieces.flatten)[n]? = some line → line.Trims trimmed →
      (ofSource (.ofPieces pieces)).reply n = (scanLine n trimmed).answer := by
    intro pieces n line trimmed hline htrims
    obtain ⟨hgiven, -⟩ := hpieces pieces n
    rw [hline] at hgiven
    obtain ⟨trimmed', htrims', hgiven⟩ := hgiven
    rw [hgiven, ← trims_iff.mp htrims', trims_iff.mp htrims]
  have hlines : sourceLines [utf8 "x\r", utf8 "\n y\r\r\n"].flatten =
      [utf8 "x\r", utf8 " y\r\r"] := by decide +kernel
  have hfirst : (utf8 "x\r").Trims (utf8 "x") :=
    ⟨⟨utf8 "\r", by decide +kernel, by decide +kernel⟩, by decide +kernel⟩
  have hsecond : (utf8 " y\r\r").Trims (utf8 " y") :=
    ⟨⟨utf8 "\r\r", by decide +kernel, by decide +kernel⟩, by decide +kernel⟩
  refine ⟨hreply (by rw [hlines]; rfl) hfirst, hreply (by rw [hlines]; rfl) hsecond, ?_, ?_⟩
  · obtain ⟨hgiven, -⟩ := hpieces [utf8 "x\r", utf8 "\n y\r\r\n"] 2
    exact hgiven
  · have hnext : Settles 0 (utf8 "x = ", .failure (utf8 "disk"), [.data (utf8 "1\n")])
        (resumed failing 0).nextLine := hsettles failing 0
    have hstart : ofSource failing = resumed failing 0 := rfl
    rw [hstart]
    generalize (resumed failing 0).nextLine = next at hnext ⊢
    cases hnext with
    | failure => rfl
    | line hstop => simp at hstop

end Scanner

end ThreeAddress
