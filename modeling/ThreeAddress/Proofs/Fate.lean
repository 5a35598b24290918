import ThreeAddress.Command.Run
import ThreeAddress.Proofs.Course
import ThreeAddress.Proofs.Places

namespace ThreeAddress

def Source.warnings (source : Source) : List Diagnostic :=
  { Translator.ofSource source with reporting := false }.analyze.2.log.reverse

namespace World

def warned (w : World) (source : Source) : World :=
  { w with complaints := (source.warnings.map Diagnostic.line).reverse ++ w.complaints }

theorem errorText_warned (w : World) (source : Source) :
    (w.warned source).errorText = w.errorText ++ source.warnings.flatMap Diagnostic.line := by
  simp [errorText, warned, List.flatMap_def]

theorem errorText_complain (w : World) (text : Bytes) :
    (w.complain text).errorText = w.errorText ++ (text ++ [Bytes.newline]) := by
  simp [errorText, complain]

def failureLine (name : Path) (f : Failure) : Bytes :=
  utf8 (if f.isGrammar then "ParseError: " else "[FATAL] ") ++ name ++ utf8 ": " ++ f.message ++
    [Bytes.newline]

theorem errorText_reportFailure (w : World) (name : Path) (f : Failure) :
    (w.reportFailure name f).errorText = w.errorText ++ failureLine name f := by
  rw [reportFailure, errorText_complain, failureLine]
  cases f.isGrammar <;> rfl

theorem openSource_eq_error {w : World} {path : Path} {f : Failure}
    (h : w.openSource path = .error f) :
    ∃ e, w.files.lookup path = .error e ∧ f = openFailure path e := by
  unfold openSource at h
  split at h
  · cases h
  · cases h
  · next e he =>
    cases h
    exact ⟨e, he, rfl⟩

theorem translateTo_eq (w : World) (source : Source) {sink : Sink} (h : sink.limit = none) :
    ∃ sink', w.translateTo source sink = ((translate source).1, sink', w.warned source) ∧
      sink'.limit = none ∧ sink'.text = sink.text ++ (translate source).2 := by
  let t : Translator Cursor :=
    { Translator.ofSource source with emitter := { sink }, reporting := false }
  let quiet : Translator Cursor := { Translator.ofSource source with reporting := false }
  let alone := Translator.ofSource source
  have ht : t.Ready := ⟨rfl, rfl, h⟩
  have halone : alone.Ready := ⟨rfl, rfl, rfl⟩
  have hagree : t.Agree alone := ⟨rfl, rfl⟩
  have hanswer : t.analyze.1 = (translate source).1 := by
    rw [ht.analyze_answer, hagree.course, ← halone.analyze_answer]
    rfl
  have hlog : t.analyze.2.log = quiet.analyze.2.log := by
    have hwords : ∀ x, Translator.lastWords false x = [] := fun x => by cases x <;> rfl
    rw [Translator.analyze_log, Translator.analyze_log]
    exact congrArg (· ++ _) ((hwords _).trans (hwords _).symm)
  refine ⟨t.analyze.2.emitter.sink, ?_, ht.analyze.limit, ?_⟩
  · have htranslate : w.translateTo source sink = (t.analyze.1, t.analyze.2.emitter.sink,
        { w with complaints := t.analyze.2.log.map Diagnostic.line ++ w.complaints }) := rfl
    rw [htranslate, hanswer, hlog, warned, Source.warnings, List.map_reverse, List.reverse_reverse]
  · have htext : (translate source).2 = alone.analyze.2.emitter.sink.written.reverse.flatten := rfl
    have hempty : alone.emitter.sink.written = [] := rfl
    rw [Sink.text, ht.analyze_written, htext, halone.analyze_written, hagree.emitted, hempty]
    simp [Sink.text, t]

end World

namespace Batch

/-- The code of a source: what its translation emits, with the labels resolved if this is asked for
and the translation succeeds. -/
def code (o : Options) (source : Source) : Bytes :=
  match (translate source).1 with
  | .ok () => if o.resolve then resolveLabels (translate source).2 else (translate source).2
  | .error _ => (translate source).2

inductive Fate where
  /-- Its code would go into the file itself. -/
  | skipped
  | unopened
  /-- It is translated, and its code can be written or not. -/
  | translated (source : Source) (writable : Bool)

def fate (o : Options) (w : World) (input : Path) : Fate :=
  if overwrites o input then .skipped
  else
    match w.openSource input with
    | .error _ => .unopened
    | .ok source => .translated source (w.files.write (outputPath o input) []).isOk

namespace Fate

def succeeds : Fate → Bool
  | skipped | unopened => false
  | translated source writable => (translate source).1.isOk && writable

def fatal : Fate → Bool
  | skipped => false
  | unopened => true
  | translated source writable =>
    match (translate source).1 with
    | .ok () => !writable
    | .error f => !f.isGrammar

def written? (o : Options) : Fate → Option Bytes
  | translated source true => some (code o source)
  | _ => none

def Writes (o : Options) (input : Path) (x : Fate) (t t' : FileTree) : Prop :=
  match x.written? o with
  | some code => t.write (outputPath o input) code = .ok t'
  | none => t' = t

/-- What is said about the file on standard error, where `t` has the directories that there are. Why
a path leads to no file may also depend on the files that were written before. -/
inductive Told (o : Options) (t : FileTree) (input : Path) : Fate → Bytes → Prop where
  | skipped : Told o t input skipped
      (input ++ utf8 ": output file would overwrite the input, choose another -ext" ++
        [Bytes.newline])
  | unopened {t' : FileTree} (ht : t.SameDirectories t') {e : FileError}
      (he : t'.lookup input = .error e) : Told o t input unopened
        (World.failureLine input
          ((World.openFailure input e).within (utf8 "cannot open input file")))
  | translated {source : Source} (h : (translate source).1 = .ok ()) :
      Told o t input (translated source true) (source.warnings.flatMap Diagnostic.line)
  | unwritten {source : Source} (h : (translate source).1 = .ok ()) {t' : FileTree}
      (ht : t.SameDirectories t') {e : FileError}
      (he : t'.write (outputPath o input) (code o source) = .error e) :
      Told o t input (translated source false)
        (source.warnings.flatMap Diagnostic.line ++ World.failureLine input
          ((World.openFailure (outputPath o input) e).within (utf8 "cannot write output file")))
  | rejected {source : Source} {f : Failure} (h : (translate source).1 = .error f)
      (writable : Bool) : Told o t input (translated source writable)
        (source.warnings.flatMap Diagnostic.line ++ World.failureLine input f)

theorem Told.congr {o : Options} {t t' : FileTree} {input : Path} {x : Fate} {report : Bytes}
    (ht : t.SameDirectories t') (h : x.Told o t' input report) : x.Told o t input report := by
  cases h with
  | skipped => exact .skipped
  | unopened ht' he => exact .unopened (ht.trans ht') he
  | translated hok => exact .translated hok
  | unwritten hok ht' he => exact .unwritten hok (ht.trans ht') he
  | rejected hf writable => exact .rejected hf writable

end Fate

/-- Only the output changes, and no directory. -/
theorem Fate.Writes.kept {o : Options} {input : Path} {x : Fate} {t t' : FileTree}
    (h : x.Writes o input t t') :
    t.SameDirectories t' ∧
      ∀ l, ((x.written? o).isSome → l ≠ t.place (outputPath o input)) → t'.get? l = t.get? l := by
  unfold Fate.Writes at h
  cases hcode : x.written? o with
  | none =>
    rw [hcode] at h
    cases h
    exact ⟨.refl t, fun _ _ => rfl⟩
  | some code =>
    rw [hcode] at h
    exact ⟨FileTree.sameDirectories_write h,
      fun l hl => (FileTree.get?_write h).2 l (hl rfl)⟩

theorem isOk_write_iff {t : FileTree} {path : Path} {content : Bytes} :
    (t.write path content).isOk = true ↔ t.Takes path := by
  cases h : t.write path content with
  | ok t' => exact ⟨fun _ => (FileTree.write_eq_ok_iff.mp h).1, fun _ => rfl⟩
  | error e =>
    refine ⟨nofun, fun htakes => ?_⟩
    rw [FileTree.write_eq_ok_iff.mpr ⟨htakes, rfl⟩] at h
    cases h

theorem fate_of_file {o : Options} {input : Path} {w : World} {content : Bytes}
    (hskip : overwrites o input = false) (hcontent : w.files.lookup input = .ok (.file content))
    (htakes : w.files.Takes (outputPath o input)) :
    fate o w input = .translated (.ofText content) true := by
  have hopen : w.openSource input = .ok (.ofText content) := by rw [World.openSource, hcontent]
  have hwritable : (w.files.write (outputPath o input) []).isOk = true :=
    isOk_write_iff.mpr htakes
  rw [fate, hskip, hopen, hwritable]
  rfl

section

variable {o : Options} {input : Path} {w : World} {source : Source}

theorem translateFile_of_error {f : Failure} (h : w.openSource input = .error f) :
    translateFile o input w = (.error (f.within (utf8 "cannot open input file")), w) := by
  simp only [translateFile, h]

/-- The answer for a file that can be opened is that of its translation, except that code that
cannot be written is a failure if there is no other. -/
theorem translateFile_of_ok (h : w.openSource input = .ok source) :
    let writable := (w.files.write (outputPath o input) []).isOk
    ∃ answer files, translateFile o input w = (answer, { w.warned source with files }) ∧
      (Fate.translated source writable).Writes o input w.files files ∧
      ((translate source).1 = .ok () ∧ writable = true ∧ answer = .ok () ∨
        (translate source).1 = .ok () ∧ writable = false ∧
          (∃ e, w.files.write (outputPath o input) (code o source) = .error e ∧
            answer = .error ((World.openFailure (outputPath o input) e).within
              (utf8 "cannot write output file"))) ∨
        ∃ f, (translate source).1 = .error f ∧ answer = .error f) := by
  intro writable
  obtain ⟨sink, htranslate, -, htext⟩ := @World.translateTo_eq w source {} rfl
  have hcode : sink.text = (translate source).2 := htext
  have hfiles : (w.warned source).files = w.files := rfl
  have hwritable : writable = (w.files.write (outputPath o input) (code o source)).isOk := by
    rw [Bool.eq_iff_iff, isOk_write_iff, isOk_write_iff]
  simp only [translateFile, h, htranslate, hcode, World.save, hfiles, hwritable, Fate.Writes,
    Fate.written?]
  cases hanswer : (translate source).1 with
  | ok =>
    have hsource : code o source =
        if o.resolve then resolveLabels (translate source).2 else (translate source).2 := by
      rw [code, hanswer]
    rw [← hsource]
    cases hwrite : w.files.write (outputPath o input) (code o source) with
    | ok files => exact ⟨.ok (), files, rfl, hwrite, .inl ⟨rfl, rfl, rfl⟩⟩
    | error e => exact ⟨_, w.files, rfl, rfl, .inr (.inl ⟨rfl, rfl, e, rfl, rfl⟩)⟩
  | error f =>
    have hsource : code o source = (translate source).2 := by rw [code, hanswer]
    rw [← hsource]
    cases hwrite : w.files.write (outputPath o input) (code o source) with
    | ok files => exact ⟨.error f, files, rfl, hwrite, .inr (.inr ⟨f, rfl, rfl⟩)⟩
    | error e => exact ⟨.error f, w.files, rfl, rfl, .inr (.inr ⟨f, rfl, rfl⟩)⟩

end

structure Handled (o : Options) (input : Path) (x : Fate) (w w' : World) : Prop where
  told : ∃ report, x.Told o w.files input report ∧ w'.errorText = w.errorText ++ report
  printed : w'.out =
    (w.out.write (title input ++ [Bytes.newline])).write (separator ++ [Bytes.newline])
  files : x.Writes o input w.files w'.files

def proceed (o : Options) (rest : List Path) (status : Nat) (x : Fate) (w : World) : Nat × World :=
  if x.fatal then (1, w) else run o rest (if x.succeeds then status else 1) w

section

variable {o : Options} {input : Path} {w w' : World} {source : Source} (rest : List Path)
  (status : Nat)

theorem run_of_overwrites (h : overwrites o input = true) :
    ∃ w', Handled o input .skipped w w' ∧
      run o (input :: rest) status w = proceed o rest status .skipped w' := by
  let told := (w.printLine (title input)).complain
    (input ++ utf8 ": output file would overwrite the input, choose another -ext")
  refine ⟨told.printLine separator, ⟨⟨_, .skipped, ?_⟩, rfl, rfl⟩, ?_⟩
  · exact World.errorText_complain (w.printLine (title input)) _
  · rw [run, if_pos h]
    rfl

theorem run_of_failure (h : overwrites o input = false) {f : Failure}
    (ht : translateFile o input (w.printLine (title input)) = (.error f, w'))
    (hout : w'.out = w.out.write (title input ++ [Bytes.newline])) {x : Fate} {report : Bytes}
    (herror : w'.errorText = w.errorText ++ report)
    (htold : x.Told o w.files input (report ++ World.failureLine input f))
    (hfiles : x.Writes o input w.files w'.files) (hfatal : x.fatal = !f.isGrammar)
    (hsucceeds : x.succeeds = false) :
    ∃ w', Handled o input x w w' ∧
      run o (input :: rest) status w = proceed o rest status x w' := by
  refine ⟨(w'.printLine separator).reportFailure input f, ⟨⟨_, htold, ?_⟩, ?_, hfiles⟩, ?_⟩
  · have hprinted : (w'.printLine separator).errorText = w'.errorText := rfl
    rw [World.errorText_reportFailure, hprinted, herror, List.append_assoc]
  · rw [← hout]
    rfl
  · simp only [run, h, ht, proceed, hfatal, hsucceeds]
    cases f.isGrammar <;> rfl

theorem run_of_unopened (h : overwrites o input = false) {f : Failure}
    (hopen : w.openSource input = .error f) :
    ∃ w', Handled o input .unopened w w' ∧
      run o (input :: rest) status w = proceed o rest status .unopened w' := by
  obtain ⟨e, he, rfl⟩ := World.openSource_eq_error hopen
  have ht := translateFile_of_error (o := o) (w := w.printLine (title input)) hopen
  have herror : (w.printLine (title input)).errorText = w.errorText ++ [] :=
    (List.append_nil _).symm
  exact run_of_failure rest status h ht rfl herror (.unopened (.refl _) he) rfl rfl rfl

theorem run_of_opened (h : overwrites o input = false) (hopen : w.openSource input = .ok source) :
    let x := Fate.translated source (w.files.write (outputPath o input) []).isOk
    ∃ w', Handled o input x w w' ∧
      run o (input :: rest) status w = proceed o rest status x w' := by
  obtain ⟨answer, files, ht, hfiles, hanswer⟩ :=
    translateFile_of_ok (o := o) (w := w.printLine (title input)) hopen
  have hsame : (w.printLine (title input)).files = w.files := rfl
  rw [hsame] at hfiles hanswer
  generalize (w.files.write (outputPath o input) []).isOk = writable at hfiles hanswer ⊢
  let told : World := { (w.printLine (title input)).warned source with files }
  have herror : told.errorText = w.errorText ++ source.warnings.flatMap Diagnostic.line :=
    w.errorText_warned source
  obtain ⟨hok, rfl, rfl⟩ | ⟨hok, rfl, e, he, rfl⟩ | ⟨f, hf, rfl⟩ := hanswer
  · refine ⟨told.printLine separator, ⟨⟨_, .translated hok, herror⟩, rfl, hfiles⟩, ?_⟩
    simp only [run, h, ht, proceed, Fate.fatal, Fate.succeeds, hok]
    rfl
  · apply run_of_failure rest status h ht rfl herror (.unwritten hok (.refl _) he) hfiles
    · simp only [Fate.fatal, hok]
      rfl
    · simp only [Fate.succeeds, hok]
      rfl
  · apply run_of_failure rest status h ht rfl herror (.rejected hf writable) hfiles
    · simp only [Fate.fatal, hf]
    · simp only [Fate.succeeds, hf]
      rfl

end

/-- One step of a batch. -/
theorem run_cons (o : Options) (input : Path) (rest : List Path) (status : Nat) (w : World) :
    ∃ w', Handled o input (fate o w input) w w' ∧
      run o (input :: rest) status w = proceed o rest status (fate o w input) w' := by
  cases h : overwrites o input with
  | true =>
    rw [fate, if_pos h]
    exact run_of_overwrites rest status h
  | false =>
    rw [fate, h]
    cases hopen : w.openSource input with
    | error f => exact run_of_unopened rest status h hopen
    | ok source => exact run_of_opened rest status h hopen

end Batch

theorem Command.run_batch {arguments : List Bytes} {o : Options} {files : List Path}
    (hparse : Options.parse {} arguments = .ok (o, files)) (hbatch : o.interactive = false)
    (hfiles : files ≠ []) (input : Source) (w : World) :
    run arguments input w = Batch.run o files 0 (w.complain signature) := by
  simp only [run, hparse, hbatch, if_neg hfiles]
  rfl

end ThreeAddress
