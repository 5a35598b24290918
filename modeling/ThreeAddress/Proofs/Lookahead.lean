import ThreeAddress.Proofs.Acceptance
import ThreeAddress.Proofs.FeedQueue
import ThreeAddress.Proofs.SourceLines
import ThreeAddress.Proofs.Unambiguity

namespace ThreeAddress

variable {ρ : Type}

namespace FeedItem

theorem answers_ofFeed (calls : Nat) (lines : List LineScan) :
    (ofFeed calls (lines.map LineScan.answer)).map answer =
      (lines.flatMap LineScan.tokens).map Except.ok := by
  induction lines generalizing calls with
  | nil => rfl
  | cons line lines ih =>
    rw [List.map_cons, ofFeed, List.map_append, ih, List.flatMap_cons, List.map_append]
    simp [ofLine, LineScan.answer, Function.comp_def]

end FeedItem

namespace Cursor

theorem pull_of_cons {c : Cursor} {k : Nat} {t : Token} {items : List FeedItem}
    (h : c.toQueue.items = ⟨k, .ok t⟩ :: items) (r : Request) :
    let p := TokenStream.pull r c
    p.answer = .ok t ∧ p.stream.calls = k ∧
      p.stream.toQueue.items = r.rest (⟨k, .ok t⟩ :: items) ∧
      p.stream.toQueue.ending = c.toQueue.ending := by
  obtain ⟨hpull, -⟩ := c.toQueue_pull r
  rw [FeedQueue.pull, h] at hpull
  obtain ⟨hitem, hqueue⟩ := Prod.mk.inj hpull
  obtain ⟨hcall, hanswer⟩ := FeedItem.mk.inj hitem
  refine ⟨hanswer.symm, hcall.symm, ?_, ?_⟩
  · rw [← hqueue]
    cases r
    · exact h
    · rfl
  · rw [← hqueue]
    cases r <;> rfl

theorem pull_of_line {c : Cursor} {k : Nat} {t : Token} {w : List Token} {items : List FeedItem}
    (h : c.toQueue.items = (t :: w).map (fun t => ⟨k, .ok t⟩) ++ items) (r : Request) :
    let p := TokenStream.pull r c
    p.answer = .ok t ∧ p.stream.calls = k ∧
      p.stream.toQueue.items =
        (r.rest (t :: w)).map (fun t => ⟨p.stream.calls, .ok t⟩) ++ items := by
  obtain ⟨hanswer, hcalls, hleft, -⟩ := pull_of_cons h r
  refine ⟨hanswer, hcalls, ?_⟩
  rw [hleft, hcalls, ← r.rest_map]
  exact r.rest_append _ _ _

theorem pull_of_nil {c : Cursor} (h : c.toQueue.items = []) (r : Request) :
    let p := TokenStream.pull r c
    p.answer = .error { cause := .unexpectedEnd } ∧ p.stream.calls = c.toQueue.ending ∧
      p.stream.toQueue.items = [] := by
  obtain ⟨hpull, -⟩ := c.toQueue_pull r
  rw [FeedQueue.pull, h] at hpull
  obtain ⟨hitem, hqueue⟩ := Prod.mk.inj hpull
  obtain ⟨hcall, hanswer⟩ := FeedItem.mk.inj hitem
  exact ⟨hanswer.symm, hcall.symm, by rw [← hqueue]⟩

def Holds (c : Cursor) (w : List Token) : Prop :=
  c.toQueue.items.map FeedItem.answer = w.map Except.ok

theorem Holds.nil {c : Cursor} (h : c.Holds []) : c.toQueue.items = [] := List.map_eq_nil_iff.mp h

theorem Holds.pull {c : Cursor} {t : Token} {w : List Token} (h : c.Holds (t :: w)) (r : Request) :
    let p := TokenStream.pull r c
    p.answer = .ok t ∧ p.stream.Holds (r.rest (t :: w)) ∧
      p.stream.toQueue.ending = c.toQueue.ending := by
  obtain ⟨⟨k, x⟩, items, hitems, hx, -⟩ := List.map_eq_cons_iff.mp h
  obtain rfl : x = .ok t := hx
  obtain ⟨hanswer, -, hleft, hending⟩ := pull_of_cons hitems r
  refine ⟨hanswer, ?_, hending⟩
  rw [Holds, hleft, ← hitems, ← r.rest_map, h, r.rest_map]

theorem calls_course_of_line (d : Dialogue ρ) {c : Cursor} {w : List Token}
    {items : List FeedItem} {f : Failure} {n : Names}
    (h : c.toQueue.items = w.map (fun t => ⟨c.calls, .ok t⟩) ++ items)
    (hgo : (d.course (⟨w, f⟩ : TokenRow) n).answer ≠ .error f) :
    (d.course c n).stream.calls = c.calls := by
  induction d using Dialogue.inductionOnRequests generalizing c w n with
  | done result | reject error | outOfFuel => rfl
  | ask r next ih =>
    cases w with
    | nil =>
      rw [TokenRow.course_ask_nil] at hgo
      exact absurd rfl hgo
    | cons t w =>
      rw [TokenRow.course_ask_cons] at hgo
      obtain ⟨hanswer, hcalls, hline⟩ := pull_of_line h r
      rw [Dialogue.course_ask_ok hanswer]
      exact (ih t hline hgo).trans hcalls
  | temporary next ih | label next ih => exact ih _ h hgo
  | releaseTemporaries next ih | emit quad next ih => exact ih h hgo

/-- If a dialogue cannot go on without the token `t` and needs none behind it, then the line of `t`
is the last one that is asked for. -/
theorem calls_course (d : Dialogue ρ) {c : Cursor} {w : List Token} {t : Token} {k : Nat}
    {items items' : List FeedItem} {n : Names}
    (h : c.toQueue.items = items ++ ⟨k, .ok t⟩ :: items')
    (hw : items.map FeedItem.answer = w.map Except.ok)
    (hend : (d.course (⟨w, { cause := .unexpectedEnd }⟩ : TokenRow) n).answer =
      .error { cause := .unexpectedEnd })
    (hgo : (d.course (⟨w ++ [t], { cause := .unexpectedEnd }⟩ : TokenRow) n).answer ≠
      .error { cause := .unexpectedEnd }) :
    (d.course c n).stream.calls = k := by
  induction d using Dialogue.inductionOnRequests generalizing c w items n with
  | done result | reject error | outOfFuel => cases hend
  | ask r next ih =>
    cases items with
    | nil =>
      obtain rfl : w = [] := List.map_eq_nil_iff.mp hw.symm
      rw [List.nil_append, TokenRow.course_ask_cons] at hgo
      obtain ⟨hanswer, hcalls, hline⟩ := pull_of_line (w := []) h r
      rw [Dialogue.course_ask_ok hanswer]
      exact (calls_course_of_line (next t) hline hgo).trans hcalls
    | cons item items =>
      obtain ⟨u, w, rfl, hu, -⟩ := List.map_eq_cons_iff.mp hw.symm
      obtain ⟨j, x⟩ := item
      obtain rfl : x = .ok u := hu.symm
      obtain ⟨hanswer, -, hleft, -⟩ := pull_of_cons h r
      rw [TokenRow.course_ask_cons] at hend
      rw [List.cons_append, TokenRow.course_ask_cons, ← List.cons_append, r.rest_append] at hgo
      rw [Dialogue.course_ask_ok hanswer]
      have hrests : (r.rest (⟨j, .ok u⟩ :: items)).map FeedItem.answer =
          (r.rest (u :: w)).map Except.ok := by
        rw [← r.rest_map, hw, r.rest_map]
      exact ih u (hleft.trans (r.rest_append _ _ _)) hrests hend hgo
  | temporary next ih | label next ih => exact ih _ h hw hend hgo
  | releaseTemporaries next ih | emit quad next ih => exact ih h hw hend hgo

theorem course_of_end (d : Dialogue ρ) {c : Cursor} {w : List Token} {n : Names}
    (h : c.Holds w)
    (hend : (d.course (⟨w, { cause := .unexpectedEnd }⟩ : TokenRow) n).answer =
      .error { cause := .unexpectedEnd }) :
    (d.course c n).stream.calls = c.toQueue.ending ∧
      (d.course c n).stream.toQueue.items = [] := by
  induction d using Dialogue.inductionOnRequests generalizing c w n with
  | done result | reject error | outOfFuel => cases hend
  | ask r next ih =>
    cases w with
    | nil =>
      obtain ⟨hanswer, hcalls, hleft⟩ := pull_of_nil h.nil r
      rw [Dialogue.course_ask_error hanswer]
      exact ⟨hcalls, hleft⟩
    | cons t w =>
      obtain ⟨hanswer, hleft, hending⟩ := h.pull r
      rw [TokenRow.course_ask_cons] at hend
      rw [Dialogue.course_ask_ok hanswer, ← hending]
      exact ih t hleft hend
  | temporary next ih | label next ih => exact ih _ h hend
  | releaseTemporaries next ih | emit quad next ih => exact ih h hend

end Cursor

def Course.complaint (reporting : Bool) : Except Failure ρ → List Diagnostic
  | .ok _ => []
  | .error f =>
    match f.cause with
    | .grammar e => if reporting then [.error e] else []
    | _ => []

/-- The lines that are asked for in a course, and all that is said in it. -/
theorem Cursor.course_reads (d : Dialogue ρ) {c : Cursor} {w : List Token} (h : c.Holds w)
    (n : Names) (reporting : Bool) :
    ∃ m ws, c.Reads m (d.course c n).stream ws ∧
      (d.course c n).acts.flatMap (Act.remarks reporting) =
        ws ++ Course.complaint reporting (d.course c n).answer := by
  induction d using Dialogue.inductionOnRequests generalizing c w n with
  | done result | outOfFuel => exact ⟨0, [], ⟨rfl, rfl, rfl⟩, rfl⟩
  | reject error =>
    refine ⟨0, [], ⟨rfl, rfl, rfl⟩, ?_⟩
    exact List.append_nil _
  | ask r next ih =>
    obtain ⟨-, m, hreads⟩ := c.toQueue_pull r
    cases w with
    | nil =>
      obtain ⟨hanswer, -, -⟩ := pull_of_nil h.nil r
      rw [Dialogue.course_ask_error hanswer]
      exact ⟨m, _, hreads, rfl⟩
    | cons t w =>
      obtain ⟨hanswer, hleft, -⟩ := h.pull r
      obtain ⟨m', ws, hrest, hremarks⟩ := ih t hleft n
      rw [Dialogue.course_ask_ok hanswer]
      refine ⟨m + m', _, hreads.trans hrest, ?_⟩
      rw [Course.push, List.flatMap_cons, hremarks, ← List.append_assoc]
      rfl
  | temporary next ih | label next ih => exact ih _ h _
  | releaseTemporaries next ih | emit quad next ih => exact ih h _

namespace Translator

/-- The tokens `w` are not enough to decide about a program, and one more token is. -/
structure Decides (fuel : Nat) (w : List Token) (t : Token) : Prop where
  ends : (reading fuel w { cause := .unexpectedEnd }).1 = .error { cause := .unexpectedEnd }
  goes : (reading fuel (w ++ [t]) { cause := .unexpectedEnd }).1 ≠
    .error { cause := .unexpectedEnd }

variable {fuel : Nat} {w : List Token} {t : Token}

theorem decides_of_spelled {q : Program} (h : q.Spelled (w ++ [t]))
    (hfuel : (w ++ [t]).length ≤ fuel) : Decides fuel w t := by
  constructor
  · refine Program.reading_of_begins ?_ ⟨[t], q, h⟩ ?_ _
    · rw [List.length_append] at hfuel
      exact Nat.le_of_add_right_le hfuel
    · rintro q' p r rfl hq'
      -- No program starts with another one.
      have hp : p ++ (r ++ [t]) = p ++ r ++ [t] ++ [] := by simp
      obtain ⟨-, hr⟩ := hq'.unique h hp
      simp at hr
  · rw [← List.append_nil (w ++ [t])] at hfuel
    have hread := h.reading hfuel { cause := .unexpectedEnd }
    rw [List.append_nil] at hread
    rw [hread]
    nofun

theorem decides_of_wrong {r : List Token} {e : GrammarError}
    (hfuel : (w ++ t :: r).length ≤ fuel) (hw : Begins Program.Spelled w)
    (hn : ¬Begins Program.Spelled (w ++ [t]))
    (h : (reading fuel (w ++ t :: r) { cause := .unexpectedEnd }).1 =
      .error { cause := .grammar e }) : Decides fuel w t := by
  have hlength : w.length + (r.length + 1) ≤ fuel := by simpa using hfuel
  constructor
  · refine Program.reading_of_begins (by omega) hw ?_ _
    rintro q p r' rfl hq
    rw [List.append_assoc] at hfuel h
    rw [hq.reading hfuel] at h
    cases h
  · intro hend
    have hshort : (w ++ [t]).length ≤ fuel := by
      rw [List.length_append, List.length_singleton]
      omega
    obtain ⟨q, p, r, -, -, hread⟩ | ⟨hts, -, -⟩ | ⟨p, r, u, e, -, -, -, -, -, -, hread⟩ :=
      Program.answered hshort
    · rw [hread] at hend
      cases hend
    · exact hn hts
    · obtain ⟨n, qs, hread⟩ := hread { cause := .unexpectedEnd }
      rw [hread] at hend
      cases hend

end Translator

namespace Cursor

variable (lines : List LineScan)

theorem holds_answers :
    ({ feed := lines.map LineScan.answer } : Cursor).Holds (lines.flatMap LineScan.tokens) :=
  FeedItem.answers_ofFeed 0 lines

variable {lines}

theorem calls_of_decides {w r : List Token} {t : Token}
    (hts : lines.flatMap LineScan.tokens = w ++ t :: r) {fuel : Nat}
    (h : Translator.Decides fuel w t) :
    let c : Cursor := { feed := lines.map LineScan.answer }
    ∃ k line, lines[k]? = some line ∧ t ∈ line.tokens ∧
      ((Production.program fuel Dialogue.done).course c {}).stream.calls = k + 1 := by
  intro c
  have hholds : c.Holds (w ++ t :: r) := hts ▸ holds_answers lines
  rw [Holds, List.map_append, List.map_cons] at hholds
  obtain ⟨items, items', hitems, hw, hrest⟩ := List.map_eq_append_iff.mp hholds
  obtain ⟨⟨j, x⟩, items', rfl, hx, -⟩ := List.map_eq_cons_iff.mp hrest
  obtain rfl : x = .ok t := hx
  have hcalls := calls_course _ hitems hw h.ends h.goes
  have hmem : (⟨j, .ok t⟩ : FeedItem) ∈ FeedItem.ofFeed 0 (lines.map LineScan.answer) := by
    have hfeed : c.toQueue.items = FeedItem.ofFeed 0 (lines.map LineScan.answer) := rfl
    rw [← hfeed, hitems]
    simp
  obtain ⟨k, answer, hanswer, hitem⟩ := FeedItem.mem_ofFeed.mp hmem
  obtain ⟨hj, ts, hts', ht⟩ := FeedItem.token_mem_ofLine.mp hitem
  rw [List.getElem?_map] at hanswer
  obtain ⟨line, hk, rfl⟩ := Option.map_eq_some_iff.mp hanswer
  cases hts'
  refine ⟨k, line, hk, ht, ?_⟩
  rw [hcalls, hj, Nat.zero_add]

end Cursor

namespace Translator

/-- The translator `u` has read the lines up to number `k`, which is that of the token `d`, and no
more. Its log holds the warnings of these lines and then `last`. The next analysis does what an
analysis of the tokens `rest` does. -/
structure HasReadTo (lines : List LineScan) (k : Nat) (d : Token) (rest : List Token)
    (last : List Diagnostic) (u : Translator Cursor) : Prop where
  line : ∃ line, lines[k]? = some line ∧ d ∈ line.tokens
  position : d.position.line = k
  calls : u.tokens.calls = k + 1
  feed : u.tokens.feed = (lines.drop (k + 1)).map LineScan.answer
  log : u.log.reverse = (lines.take (k + 1)).flatMap LineScan.warnings ++ last
  tokens : u.tokens.queue ++ (lines.drop (k + 1)).flatMap LineScan.tokens = rest
  answer : u.course.answer = (ofTokens rest).course.answer
  quads : Act.quads u.course.acts = Act.quads (ofTokens rest).course.acts

section

variable (lines : List LineScan) (sink : Sink)

abbrev ofLines : Translator Cursor := ofStream { feed := lines.map LineScan.answer } sink

theorem supply_ofLines :
    TokenStream.supply (ofLines lines sink).tokens = (lines.flatMap LineScan.tokens).length := by
  rw [← Cursor.feedSupply_answers, ← Nat.zero_add (Cursor.feedSupply _)]
  rfl

theorem course_ofLines :
    let t := ofLines lines sink
    let ts := lines.flatMap LineScan.tokens
    let x := reading (ts.length + 1) ts { cause := .unexpectedEnd }
    t.course.answer = x.1 ∧ (x.1 ≠ .error { cause := .unexpectedEnd } →
      t.analyze.2.tokens.Delivers x.2.tokens { cause := .unexpectedEnd }) := by
  intro t ts
  have hdelivers : t.tokens.Delivers ts { cause := .unexpectedEnd } :=
    ⟨(Cursor.feedTokens_answers lines).symm, (Cursor.feedFailure_answers lines).symm⟩
  obtain ⟨hanswer, -, hstream⟩ := course_eq_reading Cursor.delivery hdelivers rfl
  rw [supply_ofLines] at hanswer hstream
  rw [analyze_tokens]
  exact ⟨hanswer, hstream⟩

theorem analyze_ofLines :
    let t := ofLines lines sink
    let u := t.analyze.2
    u.tokens.feed = (lines.drop u.tokens.calls).map LineScan.answer ∧
      u.log.reverse = (lines.take u.tokens.calls).flatMap LineScan.warnings ++
        Course.complaint true t.course.answer ++ (lastWords true t.analyze.1).reverse := by
  intro t u
  obtain ⟨m, ws, hreads, hremarks⟩ :=
    Cursor.course_reads t.dialogue (Cursor.holds_answers lines) {} true
  have hcalls : u.tokens.calls = m := by
    rw [analyze_tokens]
    exact hreads.calls.trans (Nat.zero_add m)
  have hwarnings : ws = (lines.take m).flatMap LineScan.warnings := by
    rw [hreads.warnings, ← List.map_take, List.flatMap_map]
    rfl
  rw [hcalls]
  constructor
  · rw [analyze_tokens, List.map_drop]
    exact hreads.feed
  · have hlog : u.log = lastWords true t.analyze.1 ++
        ((t.course.acts.flatMap (Act.remarks true)).reverse ++ []) := analyze_log t
    have hcourse : t.course.acts.flatMap (Act.remarks true) =
        ws ++ Course.complaint true t.course.answer := hremarks
    rw [hlog, hcourse, hwarnings]
    simp only [List.append_nil, List.reverse_append, List.reverse_reverse]

end

theorem course_of_delivers {u : Translator Cursor} {rest : List Token} (hn : u.names = {})
    (h : u.tokens.Delivers rest { cause := .unexpectedEnd })
    (hsupply : TokenStream.supply u.tokens = rest.length) :
    u.course.answer = (ofTokens rest).course.answer ∧
      Act.quads u.course.acts = Act.quads (ofTokens rest).course.acts := by
  have hlist : (ofTokens rest).tokens.Delivers rest { cause := .unexpectedEnd } :=
    ⟨rfl, rfl, rfl, rfl⟩
  obtain ⟨hanswer, hquads, -⟩ := course_eq_reading Cursor.delivery h hn
  obtain ⟨hanswer', hquads', -⟩ := course_eq_reading CountedTokens.delivery hlist rfl
  rw [hsupply] at hanswer hquads
  exact ⟨hanswer.trans hanswer'.symm, hquads.trans hquads'.symm⟩

/-- What a token decides is known once its line has been read. -/
theorem hasReadTo_of_decides (text : Bytes) (sink : Sink) {w r rest : List Token} {d : Token} :
    let lines := scans text
    let t := ofLines lines sink
    let ts := lines.flatMap LineScan.tokens
    ts = w ++ d :: r → Decides (ts.length + 1) w d →
      t.analyze.2.tokens.Delivers rest { cause := .unexpectedEnd } →
        ∃ k, t.analyze.2.HasReadTo lines k d rest
          (Course.complaint true t.course.answer ++ (lastWords true t.analyze.1).reverse) := by
  intro lines t ts hts hd hrest
  obtain ⟨k, line, hline, hmem, hcalls⟩ := Cursor.calls_of_decides hts hd
  have hnumber : t.analyze.2.tokens.calls = k + 1 := by
    rw [analyze_tokens, course, dialogue, supply_ofLines]
    exact hcalls
  obtain ⟨hfeed, hlog⟩ := analyze_ofLines lines sink
  rw [hnumber] at hfeed hlog
  have htokens : rest = t.analyze.2.tokens.queue ++
      (lines.drop (k + 1)).flatMap LineScan.tokens := by
    rw [← Cursor.feedTokens_answers, ← hfeed]
    exact hrest.1
  have hsupply : TokenStream.supply t.analyze.2.tokens = rest.length := by
    rw [htokens, List.length_append, ← Cursor.feedSupply_answers, ← hfeed]
    rfl
  obtain ⟨hanswer, hquads⟩ := course_of_delivers (analyze_names t) hrest hsupply
  exact ⟨k, ⟨line, hline, hmem⟩, line_of_mem_scans hline d hmem, hnumber, hfeed,
    hlog.trans (List.append_assoc ..), htokens.symm, hanswer, hquads⟩

theorem answer_of_error {σ : Type} [TokenStream σ] {s : σ} {sink : Sink} {f : Failure}
    (h : (ofStream s sink).analyze.1 = .error f) (hf : f.cause ≠ .outputWrite) :
    (ofStream s sink).course.answer = .error f := by
  rw [analyze_outcome] at h
  refine (outcome_eq_error h).resolve_right fun hfailure => hf ?_
  rw [analyze_emitter] at hfailure
  exact Emitter.failure_foldl_emit (P := fun g => g.cause = .outputWrite) rfl _
    (by simp [ofStream]) hfailure

theorem hasReadTo_of_ok (text : Bytes) (sink : Sink) :
    let lines := scans text
    let t := ofLines lines sink
    let ts := lines.flatMap LineScan.tokens
    t.analyze.1 = .ok () →
      ∃ p d r k, ts = p ++ d :: r ∧ (p ++ [d]).map Token.kind ∈ grammar.language ∧
        d.kind = .period ∧ t.analyze.2.HasReadTo lines k d r [] := by
  intro lines t ts hok
  have hcourse := answer_of_analyze_ok hok
  obtain ⟨hanswer, hleft⟩ := course_ofLines lines sink
  obtain ⟨q, p, r, hts, hq, hread⟩ | ⟨-, -, hread⟩ | ⟨p, r, x, e, -, -, -, -, -, -, hread⟩ :=
    Program.answered (Nat.le_succ ts.length)
  · have hlanguage := (mem_language_iff p).mpr ⟨q, hq⟩
    rw [hread] at hleft
    cases hq with
    | @program b e d q us hb hus he hd =>
      have hsplit : b :: (us ++ [e, d]) = b :: (us ++ [e]) ++ [d] := by simp
      rw [hsplit] at hts hlanguage
      rw [List.append_assoc, List.singleton_append] at hts
      have hdecides : Decides (ts.length + 1) (b :: (us ++ [e])) d := by
        refine decides_of_spelled (q := q) (hsplit ▸ .program hb hus he hd) ?_
        simp [hts]
      obtain ⟨k, hk⟩ := hasReadTo_of_decides text sink hts hdecides (hleft nofun)
      rw [hcourse, hok] at hk
      exact ⟨_, d, r, k, hts, hlanguage, hd, hk⟩
  · rw [hanswer, hread] at hcourse
    cases hcourse
  · obtain ⟨n, qs, hread⟩ := hread { cause := .unexpectedEnd }
    rw [hanswer, hread] at hcourse
    cases hcourse

theorem error_ofLines (lines : List LineScan) (sink : Sink) {f : Failure}
    (hf : (ofLines lines sink).analyze.1 = .error f) (hw : f.cause ≠ .outputWrite) :
    let ts := lines.flatMap LineScan.tokens
    (ofLines lines sink).course.answer = .error f ∧
      (reading (ts.length + 1) ts { cause := .unexpectedEnd }).1 = .error f ∧
      (f = { cause := .unexpectedEnd } ∨ ∃ e, f = { cause := .grammar e }) := by
  intro ts
  have hcourse := answer_of_error hf hw
  have hread : (reading (ts.length + 1) ts { cause := .unexpectedEnd }).1 = .error f :=
    (course_ofLines lines sink).1.symm.trans hcourse
  refine ⟨hcourse, hread, ?_⟩
  obtain hx | hx | ⟨e, hx⟩ :=
    Program.answer_reading (Nat.le_succ ts.length) { cause := .unexpectedEnd }
  · cases hread.symm.trans hx
  · cases hread.symm.trans hx
    exact .inl rfl
  · cases hread.symm.trans hx
    exact .inr ⟨e, rfl⟩

theorem hasReadTo_of_grammar (text : Bytes) (sink : Sink) {f : Failure} {e : GrammarError} :
    let lines := scans text
    let t := ofLines lines sink
    let ts := lines.flatMap LineScan.tokens
    t.analyze.1 = .error f → f.cause = .grammar e →
      ∃ p d r k, ts = p ++ d :: r ∧ Viable (p.map Token.kind) ∧
        ¬Viable ((p ++ [d]).map Token.kind) ∧ e.found = d.lexeme ∧ e.position = d.position ∧
        t.analyze.2.HasReadTo lines k d (d :: r) [.error e] := by
  intro lines t ts hf he
  obtain ⟨hcourse, hread, rfl | ⟨e', rfl⟩⟩ := error_ofLines lines sink hf (by rw [he]; nofun)
  · cases he
  · cases he
    have hfuel : ts.length ≤ ts.length + 1 := Nat.le_succ _
    obtain ⟨p, d, r, hts, hp, hn, hfound, hposition, htokens⟩ :=
      Program.exists_rejected hfuel hread
    have hdecides : Decides (ts.length + 1) p d :=
      decides_of_wrong (by rw [← hts]; exact hfuel) hp hn (by rw [← hts]; exact hread)
    have hrest : t.analyze.2.tokens.Delivers (d :: r) { cause := .unexpectedEnd } := by
      rw [← htokens]
      exact (course_ofLines lines sink).2 (by rw [hread]; nofun)
    obtain ⟨k, hk⟩ := hasReadTo_of_decides text sink hts hdecides hrest
    rw [hcourse, hf] at hk
    exact ⟨p, d, r, k, hts, (viable_iff p).mpr hp, fun hv => hn ((viable_iff _).mp hv), hfound,
      hposition, hk⟩

theorem analyze_of_end (lines : List LineScan) (sink : Sink) {f : Failure} :
    let t := ofLines lines sink
    let u := t.analyze.2
    t.analyze.1 = .error f → f.cause = .unexpectedEnd →
      u.tokens.calls = lines.length + 1 ∧ u.tokens.feed = [] ∧ u.tokens.queue = [] ∧
        u.log.reverse = lines.flatMap LineScan.warnings ++ [.fatal f] := by
  intro t u hf he
  obtain ⟨hcourse, hread, rfl | ⟨e, rfl⟩⟩ := error_ofLines lines sink hf (by rw [he]; nofun)
  · obtain ⟨hstream, hitems⟩ := Cursor.course_of_end _ (Cursor.holds_answers lines) hread
    rw [← supply_ofLines lines sink] at hstream hitems
    have hcalls : u.tokens.calls = lines.length + 1 := by
      have hending : t.tokens.toQueue.ending = lines.length + 1 := by
        simp [t, ofStream, Cursor.toQueue]
      rw [analyze_tokens]
      exact hstream.trans hending
    have hqueue : u.tokens.queue = [] := by
      rw [analyze_tokens]
      exact List.map_eq_nil_iff.mp (List.append_eq_nil_iff.mp hitems).1
    have hover : lines.length ≤ lines.length + 1 := Nat.le_succ _
    obtain ⟨hfeed, hlog⟩ := analyze_ofLines lines sink
    rw [hcalls, List.drop_of_length_le hover] at hfeed
    rw [hcalls, List.take_of_length_le hover, hcourse, hf, List.append_assoc] at hlog
    exact ⟨hcalls, hfeed, hqueue, hlog⟩
  · cases he

/-- No analysis of a source of data reads ahead. If it finds a program, it has read the lines up to
that of the period, and the next analysis starts behind the period. If it finds a wrong token, it
has read the lines up to that of the wrong token, and the next analysis starts with it. The log
holds the warnings of these lines and then the complaint. Only if the end comes too early have all
lines been read. -/
theorem analysis_reads_to_deciding_line (pieces : List Bytes) (sink : Sink) :
    let t := ofStream (Cursor.ofScanner (.ofSource (.ofPieces pieces))) sink
    let u := t.analyze.2
    let lines := scans pieces.flatten
    let ts := lines.flatMap LineScan.tokens
    (t.analyze.1 = .ok () →
      ∃ p d r k, ts = p ++ d :: r ∧ (p ++ [d]).map Token.kind ∈ grammar.language ∧
        d.kind = .period ∧ u.HasReadTo lines k d r []) ∧
    (∀ f e, t.analyze.1 = .error f → f.cause = .grammar e →
      ∃ p d r k, ts = p ++ d :: r ∧ Viable (p.map Token.kind) ∧
        ¬Viable ((p ++ [d]).map Token.kind) ∧ e.found = d.lexeme ∧ e.position = d.position ∧
        u.HasReadTo lines k d (d :: r) [.error e]) ∧
    ∀ f, t.analyze.1 = .error f → f.cause = .unexpectedEnd →
      u.tokens.calls = lines.length + 1 ∧ u.tokens.feed = [] ∧ u.tokens.queue = [] ∧
        u.log.reverse = lines.flatMap LineScan.warnings ++ [.fatal f] := by
  intro t u lines ts
  have ht : t = ofLines lines sink :=
    congrArg (fun feed => ofStream ({ feed } : Cursor) sink) (Scanner.answers_ofPieces pieces)
  simp only [u, ht]
  exact ⟨hasReadTo_of_ok pieces.flatten sink, fun f e => hasReadTo_of_grammar pieces.flatten sink,
    fun f => analyze_of_end lines sink⟩

/-- Two texts with unknown characters on the second and the third line, behind the period of a
program and in the place of one, and a text that ends too early. -/
theorem analysis_reads_to_deciding_line_of_three_lines :
    let run := fun text : Bytes =>
      ofStream (Cursor.ofScanner (.ofSource (.ofPieces [text]))) {}
    let two := utf8 "program\nend. ? program\n? end."
    let wrong := utf8 "program\nend ? .\n? end."
    let short := utf8 "program\n\nend"
    let e : GrammarError := ⟨utf8 "Expected Period", utf8 "?", [utf8 "."], ⟨1, 4⟩⟩
    ((run two).analyze.1 = .ok () ∧
      ∃ d r, d.kind = .period ∧ (run two).analyze.2.HasReadTo (scans two) 1 d r []) ∧
    ((run wrong).analyze.1 = .error { cause := .grammar e } ∧
      ∃ d r, d.lexeme = utf8 "?" ∧
        (run wrong).analyze.2.HasReadTo (scans wrong) 1 d (d :: r) [.error e]) ∧
    (run short).analyze.1 = .error { cause := .unexpectedEnd } ∧
      (run short).analyze.2.tokens.calls = 4 := by
  intro run two wrong short e
  have htwo : (run two).analyze.1 = .ok () := by decide +kernel
  have hwrong : (run wrong).analyze.1 = .error { cause := .grammar e } := by decide +kernel
  have hshort : (run short).analyze.1 = .error { cause := .unexpectedEnd } := by decide +kernel
  refine ⟨⟨htwo, ?_⟩, ⟨hwrong, ?_⟩, hshort, ?_⟩
  · obtain ⟨p, d, r, k, -, -, hd, hk⟩ := (analysis_reads_to_deciding_line [two] {}).1 htwo
    obtain rfl : k = 1 := Nat.succ.inj (hk.calls.symm.trans (by decide +kernel))
    exact ⟨d, r, hd, hk⟩
  · obtain ⟨p, d, r, k, -, -, -, hfound, -, hk⟩ :=
      (analysis_reads_to_deciding_line [wrong] {}).2.1 _ e hwrong rfl
    obtain rfl : k = 1 := Nat.succ.inj (hk.calls.symm.trans (by decide +kernel))
    exact ⟨d, r, hfound.symm, hk⟩
  · obtain ⟨hcalls, -⟩ := (analysis_reads_to_deciding_line [short] {}).2.2 _ hshort rfl
    exact hcalls.trans (by decide +kernel)

end Translator

end ThreeAddress
