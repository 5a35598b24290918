import ThreeAddress.Proofs.Course

namespace ThreeAddress

/-- How a request for a token tells of a failure to get a line. There the end of the input is
unexpected, and what is not known to be a failure of reading becomes one. -/
def Failure.onRequest (f : Failure) : Failure :=
  if f.cause = .endOfInput then { cause := .unexpectedEnd }
  else if f.cause = .sourceRead then f
  else { cause := .sourceRead, after := utf8 ": " ++ f.message }

theorem Cursor.lineFailure_eq (f : Failure) : lineFailure f = f.onRequest := by
  unfold lineFailure Failure.onRequest
  split <;> simp_all [Failure.explain]

structure FeedItem where
  /-- The number of requests for a line that it takes to get it. -/
  call : Nat
  answer : Except Failure Token

namespace FeedItem

def ofLine (call : Nat) (line : LineAnswer) : List FeedItem :=
  match line.tokens with
  | .ok tokens => tokens.map fun token => ⟨call, .ok token⟩
  | .error f => [⟨call, .error f.onRequest⟩]

def ofFeed : Nat → List LineAnswer → List FeedItem
  | _, [] => []
  | calls, line :: feed => ofLine (calls + 1) line ++ ofFeed (calls + 1) feed

theorem token_mem_ofLine {j call : Nat} {t : Token} {line : LineAnswer} :
    ⟨j, .ok t⟩ ∈ ofLine call line ↔ j = call ∧ ∃ ts, line.tokens = .ok ts ∧ t ∈ ts := by
  unfold ofLine
  cases line.tokens with
  | ok ts =>
    constructor
    · intro h
      obtain ⟨t', ht, heq⟩ := List.mem_map.mp h
      cases heq
      exact ⟨rfl, ts, rfl, ht⟩
    · rintro ⟨rfl, ts', hts, ht⟩
      cases hts
      exact List.mem_map_of_mem ht
  | error f => simp

theorem mem_ofFeed {calls : Nat} {feed : List LineAnswer} {item : FeedItem} :
    item ∈ ofFeed calls feed ↔
      ∃ k line, feed[k]? = some line ∧ item ∈ ofLine (calls + k + 1) line := by
  induction feed generalizing calls with
  | nil => simp [ofFeed]
  | cons line feed ih =>
    rw [ofFeed, List.mem_append, ih]
    constructor
    · rintro (hitem | ⟨k, line', hline, hitem⟩)
      · exact ⟨0, line, rfl, hitem⟩
      · refine ⟨k + 1, line', hline, ?_⟩
        rwa [Nat.add_right_comm calls 1 k] at hitem
    · rintro ⟨k, line', hline, hitem⟩
      cases k with
      | zero =>
        cases hline
        exact .inl hitem
      | succ k =>
        refine .inr ⟨k, line', hline, ?_⟩
        rwa [Nat.add_right_comm calls 1 k]

/-- A token stays if it is only looked at. Everything else is gone once it has been given. -/
def leaves (item : FeedItem) (r : Request) : Bool :=
  match r, item.answer with
  | .peek, .ok _ => false
  | _, _ => true

end FeedItem

structure FeedQueue where
  items : List FeedItem
  /-- The number of requests for a line that it takes to meet the end, again if it has been met. -/
  ending : Nat

namespace FeedQueue

def ofFeed (feed : List LineAnswer) : FeedQueue := ⟨FeedItem.ofFeed 0 feed, feed.length + 1⟩

def pull (r : Request) (q : FeedQueue) : FeedItem × FeedQueue :=
  match q.items with
  | [] => (⟨q.ending, .error { cause := .unexpectedEnd }⟩, { q with ending := q.ending + 1 })
  | item :: items => (item, if item.leaves r then { q with items } else q)

def replies : List Request → FeedQueue → List FeedItem
  | [], _ => []
  | r :: rs, q => (q.pull r).1 :: replies rs (q.pull r).2

def passed : List Request → List FeedItem → List (Except Failure Token)
  | r :: rs, item :: items =>
    (if item.leaves r then [item.answer] else []) ++ passed rs items
  | _, _ => []

/-- Everything in a queue is passed in its order, and then the end as often as it is met. -/
theorem passed_replies (q : FeedQueue) (rs : List Request) {n : Nat} (hn : rs.length ≤ n) :
    passed rs (q.replies rs) <+: q.items.map FeedItem.answer ++
      List.replicate n (.error { cause := .unexpectedEnd }) := by
  induction rs generalizing q n with
  | nil => exact List.nil_prefix
  | cons r rs ih =>
    obtain ⟨items, ending⟩ := q
    cases items with
    | nil =>
      obtain ⟨n, rfl⟩ := Nat.exists_eq_add_of_lt hn
      have hrest := ih ⟨[], ending + 1⟩ (n := rs.length + n) (Nat.le_add_right ..)
      have hleaves : FeedItem.leaves ⟨ending, .error { cause := .unexpectedEnd }⟩ r = true := by
        cases r <;> rfl
      simp only [replies, pull, passed, hleaves, ↓reduceIte, List.map_nil, List.nil_append,
        List.replicate_succ] at hrest ⊢
      exact List.cons_prefix_cons.mpr ⟨rfl, hrest⟩
    | cons item items =>
      have hle : rs.length ≤ n := Nat.le_of_succ_le hn
      cases hleaves : item.leaves r with
      | true =>
        simp only [replies, pull, passed, hleaves, ↓reduceIte]
        exact List.cons_prefix_cons.mpr ⟨rfl, ih ⟨items, ending⟩ hle⟩
      | false =>
        simp only [replies, pull, passed, hleaves, Bool.false_eq_true, ↓reduceIte]
        exact ih ⟨item :: items, ending⟩ hle

end FeedQueue

namespace Cursor

def replies : List Request → Cursor → List FeedItem
  | [], _ => []
  | r :: rs, c =>
    let p := TokenStream.pull r c
    ⟨p.stream.calls, p.answer⟩ :: replies rs p.stream

def after (c : Cursor) (rs : List Request) : Cursor :=
  rs.foldl (fun c r => (TokenStream.pull r c).stream) c

def toQueue (c : Cursor) : FeedQueue :=
  ⟨(c.queue.map fun token => ⟨c.calls, .ok token⟩) ++ FeedItem.ofFeed c.calls c.feed,
    c.calls + c.feed.length + 1⟩

/-- The cursor `c'` has made `m` requests for a line more than `c`, which gave `warnings`. -/
structure Reads (c : Cursor) (m : Nat) (c' : Cursor) (warnings : List Diagnostic) : Prop where
  calls : c'.calls = c.calls + m
  feed : c'.feed = c.feed.drop m
  warnings : warnings = (c.feed.take m).flatMap LineAnswer.warnings

theorem Reads.trans {c c' c'' : Cursor} {m n : Nat} {ws ws' : List Diagnostic}
    (h : c.Reads m c' ws) (h' : c'.Reads n c'' ws') : c.Reads (m + n) c'' (ws ++ ws') := by
  refine ⟨?_, ?_, ?_⟩
  · rw [h'.calls, h.calls, Nat.add_assoc]
  · rw [h'.feed, h.feed, List.drop_drop]
  · rw [h.warnings, h'.warnings, h.feed, List.take_add, List.flatMap_append]

/-- What the next token or failure of the queue `q` is to a cursor that has got it. A token is still
in front of it, a failure has been passed. -/
def Gets (q : FeedQueue) (c : Cursor) : Except Failure (Token × List Token) → Prop
  | .ok (token, rest) => c.queue = token :: rest ∧ c.toQueue = q
  | .error f => q.pull .peek = (⟨c.calls, .error f⟩, c.toQueue)

theorem toQueue_of_line (line : LineAnswer) (feed : List LineAnswer) (calls : Nat) :
    ({ feed := line :: feed, calls } : Cursor).toQueue =
      ⟨FeedItem.ofLine (calls + 1) line ++ FeedItem.ofFeed (calls + 1) feed,
        calls + 1 + feed.length + 1⟩ := by
  have hending : calls + (feed.length + 1) + 1 = calls + 1 + feed.length + 1 := by omega
  simp only [toQueue, FeedItem.ofFeed, List.map_nil, List.nil_append, List.length_cons, hending]

theorem reads_line (line : LineAnswer) (feed : List LineAnswer) (calls : Nat)
    (queue : List Token) :
    ({ feed := line :: feed, calls } : Cursor).Reads 1 { queue, feed, calls := calls + 1 }
      line.warnings :=
  ⟨rfl, rfl, by simp⟩

theorem refill_spec (warnings : List Diagnostic) (calls : Nat) (feed : List LineAnswer) :
    let c : Cursor := { feed, calls }
    let x := refill warnings calls feed
    Gets c.toQueue x.2.1 x.1 ∧ ∃ m more, x.2.2 = warnings ++ more ∧ c.Reads m x.2.1 more := by
  induction feed generalizing warnings calls with
  | nil => exact ⟨rfl, 1, [], (List.append_nil _).symm, rfl, rfl, rfl⟩
  | cons line feed ih =>
    simp only [toQueue_of_line, FeedItem.ofLine]
    cases hline : line.tokens with
    | error f =>
      simp only [refill, hline, lineFailure_eq]
      exact ⟨rfl, 1, line.warnings, rfl, reads_line line feed calls []⟩
    | ok tokens =>
      cases tokens with
      | nil =>
        -- An empty line leaves no trace but its warnings.
        obtain ⟨hgets, m, more, hmore, hreads⟩ := ih (warnings ++ line.warnings) (calls + 1)
        simp only [refill, hline]
        exact ⟨hgets, 1 + m, line.warnings ++ more, hmore.trans (List.append_assoc ..),
          (reads_line line feed calls []).trans hreads⟩
      | cons token rest =>
        simp only [refill, hline]
        exact ⟨⟨rfl, rfl⟩, 1, line.warnings, rfl, reads_line line feed calls (token :: rest)⟩

theorem fill_spec (c : Cursor) :
    let x := c.fill
    Gets c.toQueue x.2.1 x.1 ∧ ∃ m, c.Reads m x.2.1 x.2.2 := by
  cases hq : c.queue with
  | nil =>
    obtain ⟨queue, feed, calls⟩ := c
    obtain rfl : queue = [] := hq
    obtain ⟨hgets, m, more, hmore, hreads⟩ := refill_spec [] calls feed
    rw [List.nil_append] at hmore
    exact ⟨hgets, m, hmore ▸ hreads⟩
  | cons token rest =>
    simp only [fill, hq]
    exact ⟨⟨hq, rfl⟩, 0, rfl, rfl, rfl⟩

theorem toQueue_pull_token {c : Cursor} {token : Token} {rest : List Token}
    (h : c.queue = token :: rest) (r : Request) :
    c.toQueue.pull r = (⟨c.calls, .ok token⟩,
      match r with
      | .peek => c.toQueue
      | .pop => { c with queue := rest }.toQueue) := by
  cases r <;> simp [toQueue, h, FeedQueue.pull, FeedItem.leaves]

end Cursor

theorem FeedQueue.pull_of_error {q q' : FeedQueue} {call : Nat} {f : Failure}
    (h : q.pull .peek = (⟨call, .error f⟩, q')) (r : Request) :
    q.pull r = (⟨call, .error f⟩, q') := by
  cases r with
  | peek => exact h
  | pop =>
    obtain ⟨items, ending⟩ := q
    cases items with
    | nil => exact h
    | cons item items =>
      obtain ⟨hitem, hq⟩ := Prod.mk.inj h
      obtain rfl : item = ⟨call, .error f⟩ := hitem
      exact congrArg (Prod.mk _) hq

namespace Cursor

/-- A request to the cursor is one to the queue that it stands for. -/
theorem toQueue_pull (r : Request) (c : Cursor) :
    let p := TokenStream.pull r c
    c.toQueue.pull r = (⟨p.stream.calls, p.answer⟩, p.stream.toQueue) ∧
      ∃ m, c.Reads m p.stream p.warnings := by
  obtain ⟨hgets, m, hreads⟩ := c.fill_spec
  rcases hfill : c.fill with ⟨answer, c', warnings⟩
  rw [hfill] at hgets hreads
  cases answer with
  | ok found =>
    obtain ⟨token, rest⟩ := found
    obtain ⟨hqueue, hsame⟩ := hgets
    have hpull := toQueue_pull_token hqueue r
    rw [hsame] at hpull
    cases r with
    | peek =>
      simp only [TokenStream.pull, TokenStream.peek, peek, hfill]
      exact ⟨hsame ▸ hpull, m, hreads⟩
    | pop =>
      simp only [TokenStream.pull, TokenStream.pop, pop, hfill]
      exact ⟨hpull, m, hreads.calls, hreads.feed, hreads.warnings⟩
  | error f =>
    have hpull := FeedQueue.pull_of_error hgets r
    cases r with
    | peek =>
      simp only [TokenStream.pull, TokenStream.peek, peek, hfill]
      exact ⟨hpull, m, hreads⟩
    | pop =>
      simp only [TokenStream.pull, TokenStream.pop, pop, hfill]
      exact ⟨hpull, m, hreads⟩

theorem replies_eq_toQueue (rs : List Request) (c : Cursor) :
    c.replies rs = c.toQueue.replies rs := by
  induction rs generalizing c with
  | nil => rfl
  | cons r rs ih =>
    obtain ⟨hpull, -⟩ := c.toQueue_pull r
    simp only [replies, FeedQueue.replies, hpull, ih]

theorem after_reads (rs : List Request) (c : Cursor) : ∃ m ws, c.Reads m (c.after rs) ws := by
  induction rs generalizing c with
  | nil => exact ⟨0, [], rfl, rfl, rfl⟩
  | cons r rs ih =>
    obtain ⟨-, m, hreads⟩ := c.toQueue_pull r
    obtain ⟨n, ws, hrest⟩ := ih (TokenStream.pull r c).stream
    exact ⟨m + n, _, hreads.trans hrest⟩

/-- A token that has been looked at is the next one to be taken, and taking it needs no line. -/
theorem pop_of_peek {c : Cursor} {token : Token} (h : (TokenStream.peek c).answer = .ok token) :
    (TokenStream.pop (TokenStream.peek c).stream).answer = .ok token ∧
      (TokenStream.pop (TokenStream.peek c).stream).stream = (TokenStream.pop c).stream := by
  obtain ⟨hgets, -⟩ := c.fill_spec
  rcases hfill : c.fill with ⟨answer, c', warnings⟩
  simp only [TokenStream.peek, peek, hfill] at h ⊢
  rw [hfill] at hgets
  cases answer with
  | error f => cases h
  | ok found =>
    obtain ⟨token', rest⟩ := found
    obtain rfl : token' = token := Except.ok.inj h
    obtain ⟨hqueue, -⟩ : c'.queue = token' :: rest ∧ _ := hgets
    have hagain : c'.fill = (.ok (token', rest), c', []) := by simp only [fill, hqueue]
    simp only [TokenStream.pop, pop, hfill, hagain, and_self]

/-- The cursor is a queue over its feed. Whatever requests are made, its answers are those of the
row of tokens and failures that the feed holds, and it has asked for just those lines that it takes
to get the last answer. So nothing is lost, doubled or put in another place, and a token that was
looked at is the next one taken. -/
theorem replies_as_queue (feed : List LineAnswer) (rs : List Request) :
    let c : Cursor := { feed }
    c.replies rs = (FeedQueue.ofFeed feed).replies rs ∧
      (c.after rs).feed = feed.drop (c.after rs).calls ∧
      FeedQueue.passed rs (c.replies rs) <+: (FeedItem.ofFeed 0 feed).map FeedItem.answer ++
        List.replicate rs.length (.error { cause := .unexpectedEnd }) ∧
      ∀ token, (TokenStream.peek (c.after rs)).answer = .ok token →
        let p := TokenStream.pop (TokenStream.peek (c.after rs)).stream
        p.answer = .ok token ∧ p.stream = (TokenStream.pop (c.after rs)).stream := by
  intro c
  have hqueue : c.toQueue = FeedQueue.ofFeed feed := by
    simp [c, toQueue, FeedQueue.ofFeed]
  have hreplies : c.replies rs = (FeedQueue.ofFeed feed).replies rs := by
    rw [replies_eq_toQueue, hqueue]
  refine ⟨hreplies, ?_, ?_, fun token => pop_of_peek⟩
  · obtain ⟨m, ws, hreads⟩ := c.after_reads rs
    have hcalls : (c.after rs).calls = m := hreads.calls.trans (Nat.zero_add m)
    rw [hreads.feed, hcalls]
  · rw [hreplies]
    exact (FeedQueue.ofFeed feed).passed_replies rs (Nat.le_refl _)

/-- Failures of three sorts between two lines of tokens, with an empty line in front. The first
token is looked at twice and the last one is still to be taken. -/
theorem replies_as_queue_around_failures :
    let name (x : String) : Token := ⟨.ident, utf8 x, {}⟩
    let feed : List LineAnswer :=
      [⟨.ok [], []⟩, ⟨.ok [name "a", name "b"], []⟩, ⟨.error (.ofText (utf8 "no disk")), []⟩,
        ⟨.error { cause := .endOfInput, before := utf8 "closed: " }, []⟩,
        ⟨.error (.explain .sourceRead (utf8 "line 3")), []⟩, ⟨.ok [name "c"], []⟩]
    let rs : List Request := [.peek, .peek, .pop, .pop, .peek, .pop, .peek]
    let c := ({ feed } : Cursor).after rs
    (TokenStream.peek c).answer = .ok (name "c") ∧
      (TokenStream.pop (TokenStream.peek c).stream).answer = .ok (name "c") ∧
      c.feed = [⟨.ok [name "c"], []⟩] ∧
      ({ feed } : Cursor).replies rs =
        [⟨2, .ok (name "a")⟩, ⟨2, .ok (name "a")⟩, ⟨2, .ok (name "a")⟩, ⟨2, .ok (name "b")⟩,
          ⟨3, .error (.explain .sourceRead (utf8 "no disk"))⟩,
          ⟨4, .error { cause := .unexpectedEnd }⟩,
          ⟨5, .error (.explain .sourceRead (utf8 "line 3"))⟩] := by
  intro name feed rs c
  have hpeek : (TokenStream.peek c).answer = .ok (name "c") := rfl
  obtain ⟨hreplies, hfeed, -, hpop⟩ := replies_as_queue feed rs
  exact ⟨hpeek, (hpop _ hpeek).1, hfeed.trans rfl, hreplies.trans rfl⟩

end Cursor

end ThreeAddress
