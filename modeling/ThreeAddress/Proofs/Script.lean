import Mathlib.Data.List.Induction
import ThreeAddress.Proofs.SourceLines

namespace ThreeAddress

inductive LineStop where
  | newline
  | failure (reason : Bytes)
  | ending

namespace Source

def prepend : SourceEvent → Source → Source
  | .data [], source => source
  | .data bytes, .data more :: source => .data (bytes ++ more) :: source
  | event, source => event :: source

/-- The script with neighbouring data put together and empty data left out. -/
def merged (source : Source) : Source := source.foldr prepend []

/-- Takes the bytes up to a newline, and the newline, off a source. Without a newline it takes what
there is before a failure or an end, and that event too. `pending` has been taken before. Gives
the bytes, what has stopped it and the source that is left. -/
def readLine (pending : Bytes) : Source → Bytes × LineStop × Source
  | [] => (pending, .ending, [])
  | .failure reason :: source => (pending, .failure reason, source)
  | .ending :: source => (pending, .ending, source)
  | .data bytes :: source =>
    match bytes.dropWhile (· ≠ Bytes.newline) with
    | [] => readLine (pending ++ bytes) source
    | b :: rest =>
      (pending ++ bytes.takeWhile (· ≠ Bytes.newline) ++ [b], .newline, .data rest :: source)

def BetweenLines (source : Source) : Prop :=
  ∀ b, source.signals.getLast? = some (.byte b) → b = Bytes.newline

theorem signals_cons (event : SourceEvent) (source : Source) :
    signals (event :: source) = event.signals ++ source.signals := List.flatMap_cons

theorem signals_append (source source' : Source) :
    signals (source ++ source') = source.signals ++ source'.signals := List.flatMap_append

theorem signals_prepend (event : SourceEvent) (source : Source) :
    (prepend event source).signals = event.signals ++ source.signals := by
  unfold prepend
  split
  · rfl
  · simp [signals_cons, SourceEvent.signals]
  · exact signals_cons event source

theorem signals_merged (source : Source) : source.merged.signals = source.signals := by
  induction source with
  | nil => rfl
  | cons event source ih =>
    have hmerged : merged (event :: source) = prepend event (merged source) := rfl
    rw [hmerged, signals_prepend, ih, signals_cons]

end Source

def Signal.event : Signal → SourceEvent
  | byte b => .data [b]
  | failure reason => .failure reason
  | ending => .ending

namespace Source

theorem signals_map_event (signals : List Signal) :
    Source.signals (signals.map Signal.event) = signals := by
  induction signals with
  | nil => rfl
  | cons s signals ih =>
    rw [List.map_cons, signals_cons, ih]
    cases s <;> rfl

theorem prepend_byte (b : UInt8) (bytes : Bytes) (source : Source) :
    prepend (.data [b]) (prepend (.data bytes) source) = prepend (.data (b :: bytes)) source := by
  cases bytes with
  | nil => rfl
  | cons c bytes =>
    cases source with
    | nil => rfl
    | cons event source => cases event <;> rfl

theorem prepend_eq_foldr (event : SourceEvent) (source : Source) :
    prepend event source = event.signals.foldr (fun s => prepend s.event) source := by
  cases event with
  | failure reason | ending => rfl
  | data bytes =>
    induction bytes with
    | nil => rfl
    | cons b bytes ih =>
      rw [← prepend_byte, ih]
      rfl

theorem merged_eq_foldr (source : Source) :
    source.merged = source.signals.foldr (fun s => prepend s.event) [] := by
  induction source with
  | nil => rfl
  | cons event source ih =>
    have hmerged : merged (event :: source) = prepend event (merged source) := rfl
    rw [hmerged, signals_cons, List.foldr_append, ← ih, prepend_eq_foldr]

theorem merged_eq_merged_iff {a b : Source} : a.merged = b.merged ↔ a.signals = b.signals := by
  constructor
  · intro h
    rw [← signals_merged a, ← signals_merged b, h]
  · intro h
    rw [merged_eq_foldr, merged_eq_foldr, h]

theorem lineReadings_congr {a b : Source} (h : a.merged = b.merged) :
    a.lineReadings = b.lineReadings := by
  rw [lineReadings, lineReadings, merged_eq_merged_iff.mp h]

end Source

namespace LineReader

def complete (r : LineReader) : List LineReading :=
  r.readings.reverse ++ if r.pending = [] then [] else [r.atEnding]

/-- What requests for a line give if `pending` has been read of a line and then the signals come. -/
def readingsAfter (pending : Bytes) (signals : List Signal) : List LineReading :=
  (signals.foldl accept { pending := pending.reverse }).complete

theorem readings_accept (r : LineReader) (s : Signal) :
    r.accept s = { ({ pending := r.pending } : LineReader).accept s with
      readings := (({ pending := r.pending } : LineReader).accept s).readings ++ r.readings } := by
  cases s with
  | byte b =>
    by_cases hb : b = Bytes.newline <;> simp [accept, hb]
  | failure reason | ending => rfl

/-- The readings that are there do not matter for those to come. -/
theorem complete_foldl_accept (signals : List Signal) (r : LineReader) :
    (signals.foldl accept r).complete =
      r.readings.reverse ++ readingsAfter r.pending.reverse signals := by
  induction signals generalizing r with
  | nil =>
    rw [readingsAfter, List.reverse_reverse]
    rfl
  | cons s signals ih =>
    rw [readingsAfter, List.foldl_cons, List.foldl_cons, ih, ih, List.reverse_reverse,
      readings_accept r s]
    simp

theorem readingsAfter_nil (pending : Bytes) :
    readingsAfter pending [] = if pending = [] then [] else [.text pending] := by
  by_cases h : pending = [] <;> simp [readingsAfter, complete, atEnding, h]

theorem readingsAfter_newline (pending : Bytes) (signals : List Signal) :
    readingsAfter pending (.byte Bytes.newline :: signals) =
      .text (pending ++ [Bytes.newline]) :: readingsAfter [] signals := by
  rw [readingsAfter, List.foldl_cons, complete_foldl_accept]
  simp [accept]

theorem readingsAfter_byte {b : UInt8} (hb : b ≠ Bytes.newline) (pending : Bytes)
    (signals : List Signal) :
    readingsAfter pending (.byte b :: signals) = readingsAfter (pending ++ [b]) signals := by
  rw [readingsAfter, List.foldl_cons, complete_foldl_accept]
  simp [accept, hb]

theorem readingsAfter_failure (pending reason : Bytes) (signals : List Signal) :
    readingsAfter pending (.failure reason :: signals) =
      .failure reason :: readingsAfter [] signals := by
  rw [readingsAfter, List.foldl_cons, complete_foldl_accept]
  rfl

theorem readingsAfter_ending (pending : Bytes) (signals : List Signal) :
    readingsAfter pending (.ending :: signals) =
      (if pending = [] then .ending else .text pending) :: readingsAfter [] signals := by
  rw [readingsAfter, List.foldl_cons, complete_foldl_accept]
  simp [accept, atEnding]

theorem readingsAfter_bytes {bytes : Bytes} (h : Bytes.newline ∉ bytes) (pending : Bytes)
    (signals : List Signal) :
    readingsAfter pending (bytes.map Signal.byte ++ signals) =
      readingsAfter (pending ++ bytes) signals := by
  induction bytes generalizing pending with
  | nil => simp
  | cons b bytes ih =>
    obtain ⟨hb, hbytes⟩ := not_or.mp (mt List.mem_cons.mpr h)
    rw [List.map_cons, List.cons_append, readingsAfter_byte (Ne.symm hb), ih hbytes,
      List.append_assoc, List.singleton_append]

theorem readingsAfter_line {bytes rest : Bytes} {b : UInt8}
    (h : bytes.dropWhile (· ≠ Bytes.newline) = b :: rest) (pending : Bytes)
    (signals : List Signal) :
    readingsAfter pending (bytes.map Signal.byte ++ signals) =
      .text (pending ++ bytes.takeWhile (· ≠ Bytes.newline) ++ [b]) ::
        readingsAfter [] (rest.map Signal.byte ++ signals) := by
  have hbefore : Bytes.newline ∉ bytes.takeWhile (· ≠ Bytes.newline) := by
    intro hmem
    simpa using List.mem_takeWhile_imp hmem
  obtain rfl : b = Bytes.newline := by
    have hhead := List.head?_dropWhile_not (· ≠ Bytes.newline) bytes
    rw [h] at hhead
    simpa using hhead
  have hbytes : bytes = bytes.takeWhile (· ≠ Bytes.newline) ++ Bytes.newline :: rest := by
    rw [← h, List.takeWhile_append_dropWhile]
  nth_rewrite 1 [hbytes]
  rw [List.map_append, List.append_assoc, readingsAfter_bytes hbefore, List.map_cons,
    List.cons_append, readingsAfter_newline]

theorem pending_foldl_accept {signals : List Signal}
    (h : ∀ b, signals.getLast? = some (.byte b) → b = Bytes.newline) :
    (signals.foldl accept {}).pending = [] := by
  induction signals using List.reverseRecOn with
  | nil => rfl
  | append_singleton signals s =>
    rw [List.foldl_append, List.foldl_cons, List.foldl_nil]
    cases s with
    | byte b =>
      obtain rfl : b = Bytes.newline := h b (by simp)
      simp [accept]
    | failure reason | ending => rfl

end LineReader

namespace Source

open LineReader

theorem lineReadings_eq (source : Source) :
    source.lineReadings = readingsAfter [] source.signals := rfl

theorem lineReadings_append {source : Source} (h : source.BetweenLines) (source' : Source) :
    lineReadings (source ++ source') = source.lineReadings ++ source'.lineReadings := by
  have hpending := pending_foldl_accept h
  have hreadings : source.lineReadings = (source.signals.foldl accept {}).readings.reverse := by
    simp [lineReadings, hpending]
  rw [lineReadings_eq, readingsAfter, signals_append, List.foldl_append, complete_foldl_accept,
    List.reverse_nil, hpending, hreadings]
  rfl

/-- A failure to read takes away the bytes of the line that has been begun. -/
theorem lineReadings_failure {pending : Bytes} (h : Bytes.newline ∉ pending) (reason : Bytes)
    (source : Source) :
    lineReadings (.data pending :: .failure reason :: source) =
      .failure reason :: source.lineReadings := by
  have hsignals : signals (.data pending :: .failure reason :: source) =
      pending.map Signal.byte ++ .failure reason :: source.signals := rfl
  rw [lineReadings_eq, hsignals, readingsAfter_bytes h, readingsAfter_failure, lineReadings_eq]

/-- Every script consists of whole lines and failures and the beginning of a line. -/
theorem exists_betweenLines (source : Source) :
    ∃ (whole : Source) (pending : Bytes), source.merged = merged (whole ++ [.data pending]) ∧
      whole.BetweenLines ∧ Bytes.newline ∉ pending := by
  suffices h : ∀ signals : List Signal, ∃ (whole : List Signal) (pending : Bytes),
      signals = whole ++ pending.map Signal.byte ∧
        (∀ b, whole.getLast? = some (.byte b) → b = Bytes.newline) ∧ Bytes.newline ∉ pending by
    obtain ⟨whole, pending, hsignals, hwhole, hpending⟩ := h source.signals
    refine ⟨whole.map Signal.event, pending, ?_, ?_, hpending⟩
    · rw [merged_eq_merged_iff, signals_append, signals_map_event, hsignals]
      simp [signals, SourceEvent.signals]
    · intro b hb
      rw [signals_map_event] at hb
      exact hwhole b hb
  intro signals
  induction signals using List.reverseRecOn with
  | nil =>
    refine ⟨[], [], rfl, ?_, List.not_mem_nil⟩
    intro b hb
    cases hb
  | append_singleton signals s ih =>
    by_cases hs : ∃ b, s = .byte b ∧ b ≠ Bytes.newline
    · obtain ⟨b, rfl, hb⟩ := hs
      obtain ⟨whole, pending, rfl, hwhole, hpending⟩ := ih
      refine ⟨whole, pending ++ [b], by simp, hwhole, ?_⟩
      rw [List.mem_append, List.mem_singleton]
      rintro (h | h)
      · exact hpending h
      · exact hb h.symm
    · refine ⟨signals ++ [s], [], by simp, ?_, List.not_mem_nil⟩
      intro b hb
      rw [List.getLast?_append, List.getLast?_singleton, Option.some_or] at hb
      by_contra hne
      exact hs ⟨b, Option.some.inj hb, hne⟩

end Source

def Bytes.withCarriageReturns (text : Bytes) : Bytes :=
  text.flatMap fun b => if b = newline then [carriageReturn, newline] else [b]

namespace Split

def cutLines (p : Pieces) (text : Bytes) : Pieces :=
  text.foldl (fun p b => if b = Bytes.newline then p.cut else p.push b) p

def Pieces.returned (p : Pieces) : Pieces :=
  { p with done := p.done.map (· ++ [Bytes.carriageReturn]) }

theorem cutLines_withCarriageReturns (p : Pieces) (text : Bytes) :
    cutLines p.returned text.withCarriageReturns = (cutLines p text).returned := by
  induction text generalizing p with
  | nil => rfl
  | cons b text ih =>
    rw [Bytes.withCarriageReturns, List.flatMap_cons]
    by_cases hb : b = Bytes.newline
    · subst hb
      have hcut : cutLines p.returned [Bytes.carriageReturn, Bytes.newline] = p.cut.returned := by
        simp [cutLines, Pieces.returned, Pieces.cut, Pieces.push, Bytes.carriageReturn,
          Bytes.newline]
      rw [if_pos rfl, cutLines, List.foldl_append]
      exact (congrArg (cutLines · _) hcut).trans (ih p.cut)
    · have hpush : cutLines p.returned [b] = (p.push b).returned := by
        simp [cutLines, Pieces.returned, Pieces.push, hb]
      rw [if_neg hb, cutLines, List.foldl_append]
      refine (congrArg (cutLines · _) hpush).trans ((ih (p.push b)).trans ?_)
      simp [cutLines, hb]

end Split

theorem lines_eq_cutLines (text : Bytes) :
    lines text = (Split.cutLines {} text).done.reverse ++
      [(Split.cutLines {} text).current.reverse] := by
  rw [lines, cutAt, Split.Pieces.toList, Split.Pieces.cut, List.reverse_cons]
  rfl

theorem sourceLines_eq_cutLines (text : Bytes) :
    sourceLines text = (Split.cutLines {} text).done.reverse ++
      if (Split.cutLines {} text).current = [] then []
      else [(Split.cutLines {} text).current.reverse] := by
  by_cases h : (Split.cutLines {} text).current = [] <;>
    simp [sourceLines, lines_eq_cutLines, h]

theorem trimLineEnd_carriageReturn (line : Bytes) :
    Scanner.trimLineEnd (line ++ [Bytes.carriageReturn]) = Scanner.trimLineEnd line := by
  simp [Scanner.trimLineEnd, Bytes.dropEndWhile]

/-- Carriage returns before the newlines leave no trace in the lines. -/
theorem trimmed_withCarriageReturns (text : Bytes) :
    (sourceLines text.withCarriageReturns).map Scanner.trimLineEnd =
      (sourceLines text).map Scanner.trimLineEnd := by
  have hcut : Split.cutLines {} text.withCarriageReturns = (Split.cutLines {} text).returned :=
    Split.cutLines_withCarriageReturns {} text
  rw [sourceLines_eq_cutLines, sourceLines_eq_cutLines, hcut]
  by_cases h : (Split.cutLines {} text).current = [] <;>
    simp [Split.Pieces.returned, trimLineEnd_carriageReturn, Function.comp_def, h]

theorem sourceLines_newline (text : Bytes) :
    sourceLines (text ++ [Bytes.newline]) = sourceLines text ∨
      sourceLines (text ++ [Bytes.newline]) = sourceLines text ++ [[]] := by
  have hcut : Split.cutLines {} (text ++ [Bytes.newline]) = (Split.cutLines {} text).cut := by
    simp [Split.cutLines]
  rw [sourceLines_eq_cutLines, sourceLines_eq_cutLines, hcut]
  by_cases h : (Split.cutLines {} text).current = [] <;> simp [Split.Pieces.cut, h]

end ThreeAddress
