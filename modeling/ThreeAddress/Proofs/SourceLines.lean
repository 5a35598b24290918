import ThreeAddress.Proofs.Feed
import ThreeAddress.Proofs.Segmentation
import ThreeAddress.Text.Split

namespace ThreeAddress

def Source.ofPieces (pieces : List Bytes) : Source := pieces.map SourceEvent.data

/-- The lines of a text: what stands between its newlines, without an empty piece at the end. -/
def sourceLines (text : Bytes) : List Bytes :=
  if (lines text).getLast? = some [] then (lines text).dropLast else lines text

def scans (text : Bytes) : List LineScan :=
  ((sourceLines text).map Scanner.trimLineEnd).mapIdx scanLine

def LineScan.answer (scan : LineScan) : LineAnswer := ⟨.ok scan.tokens, scan.warnings⟩

namespace LineReader

structure Cuts (r : LineReader) (p : Split.Pieces) : Prop where
  pending : r.pending = p.current
  readings : r.readings = p.done.map fun line => LineReading.text (line ++ [Bytes.newline])

theorem Cuts.foldl_accept {r : LineReader} {p : Split.Pieces} (h : r.Cuts p) (text : Bytes) :
    ((text.map Signal.byte).foldl accept r).Cuts
      (text.foldl (fun p b => if b = Bytes.newline then p.cut else p.push b) p) := by
  induction text generalizing r p with
  | nil => exact h
  | cons b text ih =>
    refine ih ?_
    by_cases hb : b = Bytes.newline
    · constructor <;> simp [accept, Split.Pieces.cut, hb, h.pending, h.readings]
    · constructor <;> simp [accept, Split.Pieces.push, hb, h.pending, h.readings]

end LineReader

namespace Source

theorem signals_ofPieces (pieces : List Bytes) :
    (ofPieces pieces).signals = pieces.flatten.map Signal.byte := by
  have hsignals : SourceEvent.signals ∘ SourceEvent.data = List.map Signal.byte := rfl
  rw [ofPieces, signals, List.flatMap_def, List.map_map, hsignals, List.map_flatten]

/-- The lines of a source of data, as they are read: all but the last with their newlines. -/
theorem lineReadings_ofPieces (pieces : List Bytes) :
    ∃ texts : List Bytes, (ofPieces pieces).lineReadings = texts.map LineReading.text ∧
      texts.map Scanner.trimLineEnd = (sourceLines pieces.flatten).map Scanner.trimLineEnd := by
  have hstart : ({} : LineReader).Cuts {} := ⟨rfl, rfl⟩
  obtain ⟨hpending, hreadings⟩ := hstart.foldl_accept pieces.flatten
  generalize hp : pieces.flatten.foldl
    (fun p b => if b = Bytes.newline then p.cut else p.push b) ({} : Split.Pieces) = p
    at hpending hreadings
  have hlines : lines pieces.flatten = p.done.reverse ++ [p.current.reverse] := by
    rw [lines, cutAt, hp]
    simp [Split.Pieces.toList, Split.Pieces.cut]
  have htrim : ∀ line, Scanner.trimLineEnd (line ++ [Bytes.newline]) = Scanner.trimLineEnd line :=
    fun line => by simp [Scanner.trimLineEnd, Bytes.dropEndWhile]
  refine ⟨p.done.reverse.map (· ++ [Bytes.newline]) ++
    if p.current = [] then [] else [p.current.reverse], ?_, ?_⟩
  · rw [lineReadings, signals_ofPieces]
    simp only [hpending, hreadings, LineReader.atEnding]
    split <;> simp
  · by_cases hlast : p.current = [] <;>
      simp [sourceLines, hlines, hlast, Function.comp_def, htrim]

end Source

namespace Scanner

theorem answers_of_texts {s : Scanner} {texts : List Bytes}
    (h : s.readings = texts.map LineReading.text) (hr : s.reporting = true) :
    s.answers =
      ((texts.map trimLineEnd).mapIdx fun k => scanLine (s.line + k)).map LineScan.answer := by
  induction texts generalizing s with
  | nil => exact answers_nil h
  | cons text texts ih =>
    let s' : Scanner := { s with readings := texts.map LineReading.text, line := s.line + 1 }
    have hnext : s.nextLine = ((scanLine s.line (trimLineEnd text)).answer, s') := by
      simp [nextLine, h, scanText, hr, LineScan.answer, s']
    rw [answers_cons h, hnext, ih (s := s') rfl hr, List.map_cons, List.mapIdx_cons, List.map_cons]
    simp only [s', Nat.add_zero, Nat.add_assoc, Nat.add_comm 1]

theorem answers_ofPieces (pieces : List Bytes) :
    (ofSource (.ofPieces pieces)).answers = (scans pieces.flatten).map LineScan.answer := by
  obtain ⟨texts, hreadings, htrim⟩ := Source.lineReadings_ofPieces pieces
  rw [answers_of_texts hreadings rfl, htrim, scans]
  simp only [ofSource, Nat.zero_add]

end Scanner

namespace Cursor

variable (lines : List LineScan)

theorem feedTokens_answers :
    feedTokens (lines.map LineScan.answer) = lines.flatMap LineScan.tokens := by
  induction lines with
  | nil => rfl
  | cons line lines ih => rw [List.flatMap_cons, ← ih]; rfl

theorem feedFailure_answers :
    feedFailure (lines.map LineScan.answer) = { cause := .unexpectedEnd } := by
  induction lines with
  | nil => rfl
  | cons line lines ih => exact ih

theorem feedSupply_answers :
    feedSupply (lines.map LineScan.answer) = (lines.flatMap LineScan.tokens).length := by
  induction lines with
  | nil => rfl
  | cons line lines ih => rw [List.flatMap_cons, List.length_append, ← ih]; rfl

end Cursor

theorem Source.tokens_ofPieces (pieces : List Bytes) :
    (ofPieces pieces).tokens = (scans pieces.flatten).flatMap LineScan.tokens := by
  rw [Source.tokens, Scanner.answers_ofPieces, Cursor.feedTokens_answers]

theorem Segment.Cuts.of_mem_tokens {cs : List Char} {gs : List Segment} (h : Cuts cs gs)
    {line column : Nat} {t : Token} (ht : t ∈ tokens line column gs) :
    t.position.line = line ∧
      ∃ text rest, IsLexeme t.kind text rest ∧ t.lexeme = encode text := by
  induction h generalizing column with
  | nil => cases ht
  | @cons g rest gs hg h ih =>
    rcases List.mem_append.mp ht with ht | ht
    · cases g with
      | lexeme kind text =>
        obtain rfl : t = ⟨kind, encode text, ⟨line, column⟩⟩ := by simpa [token?] using ht
        exact ⟨rfl, text, rest, hg, rfl⟩
      | blank c | comment body | unclosed body => simp [token?] at ht
    · exact ih ht

theorem of_mem_scanLine {line : Nat} {text : Bytes} {t : Token}
    (ht : t ∈ (scanLine line text).tokens) :
    t.position.line = line ∧
      ∃ word rest, Segment.IsLexeme t.kind word rest ∧ t.lexeme = encode word := by
  obtain ⟨gs, hgs, -⟩ := Segment.existsUnique_cuts (decode text)
  rw [hgs.scanLine_eq] at ht
  exact hgs.of_mem_tokens ht

theorem line_of_mem_scans {text : Bytes} {k : Nat} {scan : LineScan}
    (h : (scans text)[k]? = some scan) : ∀ t ∈ scan.tokens, t.position.line = k := by
  intro t ht
  rw [scans, List.getElem?_mapIdx] at h
  obtain ⟨line, -, rfl⟩ := Option.map_eq_some_iff.mp h
  exact (of_mem_scanLine ht).1

end ThreeAddress
