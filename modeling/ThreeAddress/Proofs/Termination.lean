import ThreeAddress.Proofs.FeedQueue
import ThreeAddress.Proofs.Interruption
import ThreeAddress.Proofs.Reports

namespace ThreeAddress

variable {σ ρ α β : Type}

namespace Dialogue

/-- Whatever it is told, the dialogue does not run out of fuel as long as it has taken no more than
`k` tokens. -/
def Lasts : Dialogue ρ → Nat → Prop
  | .done _, _ | .reject _, _ | .pop _, 0 => True
  | .peek next, k => ∀ token, (next token).Lasts k
  | .pop next, k + 1 => ∀ token, (next token).Lasts k
  | .temporary next, k | .label next, k => ∀ name, (next name).Lasts k
  | .releaseTemporaries next, k | .emit _ next, k => next.Lasts k
  | .outOfFuel, _ => False

theorem Lasts.mono {d : Dialogue ρ} {j k : Nat} (h : d.Lasts k) (hjk : j ≤ k) : d.Lasts j := by
  induction d generalizing j k with
  | done result | reject error => trivial
  | peek next ih | temporary next ih | label next ih => exact fun x => ih x (h x) hjk
  | pop next ih =>
    cases j with
    | zero => trivial
    | succ j =>
      obtain ⟨i, rfl⟩ := Nat.exists_eq_add_of_lt hjk
      exact fun token => ih token (h token) (by omega)
  | releaseTemporaries next ih | emit quad next ih => exact ih h hjk
  | outOfFuel => exact h

def Concludes [TokenStream σ] : Dialogue ρ → σ → Names → Prop
  | .done _, _, _ | .reject _, _, _ => True
  | .peek next, s, n =>
    let p := TokenStream.peek s
    ∀ token, p.answer = .ok token → (next token).Concludes p.stream n
  | .pop next, s, n =>
    let p := TokenStream.pop s
    ∀ token, p.answer = .ok token → (next token).Concludes p.stream n
  | .temporary next, s, n => (next n.temporary.1).Concludes s n.temporary.2
  | .label next, s, n => (next n.label.1).Concludes s n.label.2
  | .releaseTemporaries next, s, n => next.Concludes s n.releaseTemporaries
  | .emit _ next, s, n => next.Concludes s n
  | .outOfFuel, _, _ => False

end Dialogue

def Request.takes : Request → Nat
  | .peek => 0
  | .pop => 1

/-- No request adds to the supply of a stream, and each token that is taken lowers it. -/
class Dwindles (σ : Type) [TokenStream σ] : Prop where
  pull (r : Request) {s : σ} {token : Token} (h : (TokenStream.pull r s).answer = .ok token) :
    TokenStream.supply (TokenStream.pull r s).stream + r.takes ≤ TokenStream.supply s

namespace Dialogue

variable [TokenStream σ] {d d' : Dialogue ρ} {s : σ} {n : Names}

theorem Lasts.concludes [Dwindles σ] {k : Nat} (h : d.Lasts k) (hs : TokenStream.supply s ≤ k) :
    d.Concludes s n := by
  induction d generalizing s n k with
  | done result | reject error => trivial
  | peek next ih =>
    intro token ht
    have hle := Dwindles.pull .peek ht
    exact ih token (h token) (hle.trans hs)
  | pop next ih =>
    intro token ht
    have hlt := (Dwindles.pull .pop ht).trans hs
    cases k with
    | zero => cases hlt
    | succ k => exact ih token (h token) (Nat.le_of_succ_le_succ hlt)
  | temporary next ih | label next ih => exact ih _ (h _) hs
  | releaseTemporaries next ih | emit quad next ih => exact ih h hs
  | outOfFuel => exact h

theorem concludes_ask {r : Request} {next : Token → Dialogue ρ} {token : Token}
    (h : (ask r next).Concludes s n) (ht : (TokenStream.pull r s).answer = .ok token) :
    (next token).Concludes (TokenStream.pull r s).stream n := by
  cases r with
  | peek => exact h token ht
  | pop => exact h token ht

/-- A greater bound changes nothing where a smaller one is not reached. -/
theorem Extends.course_of_concludes (h : d.Extends d') (hd : d.Concludes s n) :
    d'.course s n = d.course s n := by
  induction h generalizing s n with
  | done result | reject error => rfl
  | ask r h ih =>
    cases hp : (TokenStream.pull r s).answer with
    | ok token => rw [course_ask_ok hp, course_ask_ok hp, ih token (concludes_ask hd hp)]
    | error f => rw [course_ask_error hp, course_ask_error hp]
  | temporary h ih | label h ih => exact congrArg (Course.push _) (ih _ hd)
  | releaseTemporaries h ih | emit quad h ih => exact congrArg (Course.push _) (ih hd)
  | outOfFuel d' => exact hd.elim

theorem Concludes.answer {I : σ → Prop} {P : Failure → Prop} (hd : d.Concludes s n) (hs : I s)
    (hI : ∀ s r, I s → I (TokenStream.pull r s).stream)
    (hP : ∀ s r f, I s → (TokenStream.pull r s).answer = .error f → P f)
    (hgrammar : ∀ e, P { cause := .grammar e }) {f : Failure}
    (h : (d.course s n).answer = .error f) : P f := by
  induction d using inductionOnRequests generalizing s n with
  | done result => cases h
  | ask r next ih =>
    cases hp : (TokenStream.pull r s).answer with
    | ok token =>
      rw [course_ask_ok hp] at h
      exact ih token (concludes_ask hd hp) (hI s r hs) h
    | error g =>
      rw [course_ask_error hp] at h
      cases h
      exact hP s r f hs hp
  | temporary next ih | label next ih => exact ih _ hd hs h
  | releaseTemporaries next ih | emit quad next ih => exact ih hd hs h
  | reject error =>
    cases h
    exact hgrammar error
  | outOfFuel => exact hd.elim

end Dialogue

namespace Production

/-- The production does not run out of fuel as long as no more than `k` tokens have been taken, if
what follows it does not. -/
def Lasts (P : Production ρ α) (k : Nat) : Prop :=
  ∀ next : α → Dialogue ρ, (∀ a, (next a).Lasts k) → (P next).Lasts k

variable {k fuel : Nat}

namespace Lasts

theorem pure (a : α) : Lasts (Pure.pure a : Production ρ α) k := fun _ h => h a

theorem bind {P : Production ρ α} {Q : α → Production ρ β} (hP : Lasts P k)
    (hQ : ∀ a, Lasts (Q a) k) : Lasts (P >>= Q) k :=
  fun next h => hP _ fun a => hQ a next h

theorem peek : Lasts (Production.peek : Production ρ Token) k := fun _ h => h

theorem temporary : Lasts (Production.temporary : Production ρ Bytes) k := fun _ h => h

theorem label : Lasts (Production.label : Production ρ Bytes) k := fun _ h => h

theorem releaseTemporaries : Lasts (Production.releaseTemporaries : Production ρ Unit) k :=
  fun _ h => h ()

theorem emit (q : Quad) : Lasts (Production.emit q : Production ρ Unit) k := fun _ h => h ()

theorem reject (found : Token) (message : Bytes) (expected : List TokenKind) :
    Lasts (Production.reject found message expected : Production ρ α) k :=
  fun _ _ => trivial

/-- What comes after a token that is taken has to last for one token less. -/
theorem bind_pop {Q : Token → Production ρ β} (hQ : ∀ token, ∀ j < k, Lasts (Q token) j) :
    Lasts (Production.pop >>= Q) k := by
  intro next h
  cases k with
  | zero => trivial
  | succ k =>
    intro token
    exact hQ token k (Nat.lt_succ_self k) next fun a => (h a).mono (Nat.le_succ k)

theorem bind_accept {kind : TokenKind} {Q : Bool → Production ρ β}
    (htrue : ∀ j < k, Lasts (Q true) j) (hfalse : Lasts (Q false) k) :
    Lasts (Production.accept kind >>= Q) k := by
  rw [accept, bind_assoc]
  refine .bind .peek fun token => ?_
  split
  · exact .bind_pop (Q := fun _ => Q true) fun _ => htrue
  · exact hfalse

theorem expect (kind : TokenKind) (message : Bytes) :
    Lasts (Production.expect kind message : Production ρ Unit) k := by
  refine .bind .peek fun token => ?_
  split
  · exact .bind_pop fun _ _ _ => .pure ()
  · exact .reject token message [kind]

end Lasts

theorem lasts_chain (operation? : TokenKind → Option Opcode) {operand : Production ρ Bytes}
    (h : ∀ j < k, Lasts operand j) (hk : k < fuel) (left : Bytes) :
    Lasts (chain operation? operand fuel left) k := by
  induction fuel generalizing k left with
  | zero => cases hk
  | succ fuel ih =>
    refine .bind .peek fun token => ?_
    split
    · exact .pure left
    · refine .bind_pop fun _ j hj => .bind (h j hj) fun right => .bind .temporary fun result =>
        .bind (.emit _) fun _ => ih (fun i hi => h i (hi.trans hj)) (by omega) result

theorem lasts_base {value : Production ρ Bytes} (h : ∀ j ≤ k, Lasts value j) :
    Lasts (base value) k := by
  refine .bind .peek fun token => ?_
  split
  · exact h k (Nat.le_refl k)
  · exact .bind_pop fun _ j hj => .bind (h j hj.le) fun operand => .bind .temporary fun result =>
      .bind (.emit _) fun _ => .pure result

theorem lasts_factor {value : Production ρ Bytes} (h : ∀ j ≤ k, Lasts value j) (hk : k < fuel) :
    Lasts (factor value fuel) k := by
  induction fuel generalizing k with
  | zero => cases hk
  | succ fuel ih =>
    refine .bind (lasts_base h) fun left => .bind_accept (fun j hj => ?_) (.pure left)
    exact .bind (ih (fun i hi => h i (hi.trans hj.le)) (by omega)) fun right =>
      .bind .temporary fun result => .bind (.emit _) fun _ => .pure result

theorem lasts_term {value : Production ρ Bytes} (h : ∀ j ≤ k, Lasts value j) (hk : k < fuel) :
    Lasts (term value fuel) k := by
  have hfactor : ∀ j ≤ k, Lasts (factor value fuel) j := fun j hj =>
    lasts_factor (fun i hi => h i (hi.trans hj)) (by omega)
  exact .bind (hfactor k (Nat.le_refl k)) fun left =>
    lasts_chain _ (fun j hj => hfactor j hj.le) hk left

theorem lasts_sum {value : Production ρ Bytes} (h : ∀ j ≤ k, Lasts value j) (hk : k < fuel) :
    Lasts (sum value fuel) k := by
  have hterm : ∀ j ≤ k, Lasts (term value fuel) j := fun j hj =>
    lasts_term (fun i hi => h i (hi.trans hj)) (by omega)
  exact .bind (hterm k (Nat.le_refl k)) fun left =>
    lasts_chain _ (fun j hj => hterm j hj.le) hk left

theorem lasts_value (hk : k < fuel) : Lasts (value fuel : Production ρ Bytes) k := by
  induction fuel generalizing k with
  | zero => cases hk
  | succ fuel ih =>
    refine .bind .peek fun token => ?_
    split
    · refine .bind_pop fun _ j hj => ?_
      exact .bind (lasts_sum (fun i hi => ih (by omega)) (by omega)) fun operand =>
        .bind (.expect _ _) fun _ => .pure operand
    · exact .bind_pop fun _ _ _ => .pure token.lexeme
    · exact .bind_pop fun _ _ _ => .pure token.lexeme
    · exact .reject _ _ _

theorem lasts_expression (hk : k < fuel) : Lasts (expression fuel : Production ρ Bytes) k :=
  lasts_sum (fun _ hj => lasts_value (hj.trans_lt hk)) hk

theorem lasts_comparator : Lasts (comparator : Production ρ (Option Comparator)) k := by
  refine .bind .peek fun token => ?_
  split
  · exact .pure none
  · exact .bind_pop fun _ _ _ => .pure _

theorem lasts_condition (place : Bytes) (hk : k < fuel) :
    Lasts (condition place fuel : Production ρ (Bytes × Bytes × Comparator)) k := by
  refine .bind (lasts_expression hk) fun left => .bind lasts_comparator fun c? => ?_
  split
  · exact .bind .peek fun token => .reject _ _ _
  · exact .bind (lasts_expression hk) fun right => .pure _

theorem lasts_guarded (left right : Bytes) (c : Comparator) {body : Production ρ Unit}
    (h : Lasts body k) : Lasts (guarded left right c body) k :=
  .bind .label fun _ => .bind .label fun behind => .bind (.emit _) fun _ => .bind (.emit _) fun _ =>
    .bind (.emit _) fun _ => .bind h fun _ => .pure behind

theorem lasts_statementFrom (first : Token) {body : Production ρ Unit}
    (h : ∀ j < k, Lasts body j) (hk : k ≤ fuel) : Lasts (statementFrom first body fuel) k := by
  unfold statementFrom
  split
  · exact .bind_pop fun target j hj => .bind (.expect _ _) fun _ =>
      .bind (lasts_expression (hj.trans_le hk)) fun operand => .emit _
  · exact .bind_pop fun _ j hj => .bind (lasts_condition _ (hj.trans_le hk)) fun test =>
      .bind (.expect _ _) fun _ => .bind (lasts_guarded _ _ _ (h j hj)) fun _ => .emit _
  · exact .bind_pop fun _ j hj => .bind .label fun again => .bind (.emit _) fun _ =>
      .bind (lasts_condition _ (hj.trans_le hk)) fun test => .bind (.expect _ _) fun _ =>
        .bind (lasts_guarded _ _ _ (h j hj)) fun _ => .bind (.emit _) fun _ => .emit _
  · exact .reject _ _ _

theorem lasts_statement (hk : k < fuel) : Lasts (statement fuel : Production ρ Unit) k := by
  induction fuel generalizing k with
  | zero => cases hk
  | succ fuel ih =>
    exact .bind .releaseTemporaries fun _ => .bind .peek fun first =>
      .bind (lasts_statementFrom first (fun j hj => ih (by omega)) (by omega)) fun _ =>
        .releaseTemporaries

theorem lasts_statements (hk : k < fuel) : Lasts (statements fuel : Production ρ Unit) k := by
  induction fuel generalizing k with
  | zero => cases hk
  | succ fuel ih =>
    refine .bind .peek fun token => ?_
    split
    · exact .bind (lasts_statement hk) fun _ => .bind_accept (fun j hj => ih (by omega)) (.pure ())
    · exact .pure ()

theorem lasts_program (hk : k < fuel) : Lasts (program fuel : Production ρ Unit) k :=
  .bind (.expect _ _) fun _ => .bind (lasts_statements hk) fun _ =>
    .bind (.expect _ _) fun _ => .expect _ _

end Production

namespace CountedTokens

instance : Dwindles CountedTokens where
  pull r {s token} h := by
    have htokens := congrArg List.length (s.pull_tokens r)
    rw [h, List.length_append] at htokens
    have htakes : (Act.taken [.ask r (.ok token) []]).length = r.takes := by cases r <;> rfl
    rw [htakes, Nat.add_comm] at htokens
    exact Nat.le_of_eq htokens.symm

end CountedTokens

namespace FeedQueue

def tokens (q : FeedQueue) : List Token := q.items.filterMap fun item => item.answer.toOption

theorem tokens_pull {q : FeedQueue} {r : Request} {token : Token}
    (h : (q.pull r).1.answer = .ok token) :
    (q.pull r).2.tokens.length + r.takes = q.tokens.length := by
  obtain ⟨items, ending⟩ := q
  cases items with
  | nil => cases h
  | cons item items =>
    obtain ⟨call, answer⟩ := item
    obtain rfl : answer = .ok token := h
    cases r <;> rfl

theorem mem_of_pull {q : FeedQueue} {r : Request} {f : Failure}
    (h : (q.pull r).1.answer = .error f) :
    f = { cause := .unexpectedEnd } ∨ ∃ call, ⟨call, .error f⟩ ∈ q.items := by
  obtain ⟨items, ending⟩ := q
  cases items with
  | nil =>
    cases h
    exact .inl rfl
  | cons item items =>
    obtain ⟨call, answer⟩ := item
    obtain rfl : answer = .error f := h
    exact .inr ⟨call, List.mem_cons_self ..⟩

end FeedQueue

theorem Failure.cause_onRequest (f : Failure) : f.onRequest.cause ≠ .outOfFuel := by
  unfold onRequest
  split
  · decide
  · split
    · next h =>
      rw [h]
      decide
    · exact fun h => by cases h

theorem FeedItem.failure_of_mem {calls j : Nat} {feed : List LineAnswer} {f : Failure}
    (h : ⟨j, .error f⟩ ∈ ofFeed calls feed) : ∃ g : Failure, f = g.onRequest := by
  obtain ⟨k, line, -, hline⟩ := mem_ofFeed.mp h
  unfold ofLine at hline
  split at hline
  · obtain ⟨token, -, heq⟩ := List.mem_map.mp hline
    cases heq
  · next g hg =>
    cases List.mem_singleton.mp hline
    exact ⟨g, rfl⟩

namespace Cursor

theorem tokens_toQueue (c : Cursor) : c.toQueue.tokens.length = TokenStream.supply c := by
  have hfeed (calls : Nat) (feed : List LineAnswer) :
      ((FeedItem.ofFeed calls feed).filterMap fun item => item.answer.toOption).length =
        feedSupply feed := by
    induction feed generalizing calls with
    | nil => rfl
    | cons line feed ih =>
      rw [FeedItem.ofFeed, List.filterMap_append, List.length_append, ih, feedSupply, lineSupply,
        FeedItem.ofLine]
      cases line.tokens with
      | ok tokens => simp [List.filterMap_map, Except.toOption]
      | error f => rfl
  change _ = c.queue.length + feedSupply c.feed
  rw [FeedQueue.tokens, toQueue, List.filterMap_append, List.length_append, hfeed]
  simp [List.filterMap_map, Except.toOption]

instance : Dwindles Cursor where
  pull r {c token} h := by
    obtain ⟨hpull, -⟩ := c.toQueue_pull r
    have hanswer : (c.toQueue.pull r).1.answer = .ok token := by rw [hpull, h]
    have htokens := FeedQueue.tokens_pull hanswer
    rw [hpull, tokens_toQueue, tokens_toQueue] at htokens
    exact Nat.le_of_eq htokens

/-- The failures of a cursor are failures to read its source, or its end. -/
theorem cause_of_pull {c : Cursor} {r : Request} {f : Failure}
    (h : (TokenStream.pull r c).answer = .error f) : f.cause ≠ .outOfFuel := by
  obtain ⟨hpull, -⟩ := c.toQueue_pull r
  have hanswer : (c.toQueue.pull r).1.answer = .error f := by rw [hpull, h]
  obtain rfl | ⟨call, hmem⟩ := FeedQueue.mem_of_pull hanswer
  · decide
  · rcases List.mem_append.mp hmem with hmem | hmem
    · obtain ⟨token, -, heq⟩ := List.mem_map.mp hmem
      cases heq
    · obtain ⟨g, rfl⟩ := FeedItem.failure_of_mem hmem
      exact g.cause_onRequest

end Cursor

namespace Translator

variable [TokenStream σ]

/-- The analysis comes to an end of its own, and so a greater bound makes no difference to it. -/
structure Ends (t : Translator σ) : Prop where
  concludes : t.dialogue.Concludes t.tokens t.names
  run_eq {fuel : Nat} (h : TokenStream.supply t.tokens < fuel) :
    t.run (Production.program fuel Dialogue.done) = t.run t.dialogue

theorem ends [Dwindles σ] (t : Translator σ) : t.Ends := by
  have hlasts : t.dialogue.Lasts (TokenStream.supply t.tokens) :=
    Production.lasts_program (Nat.lt_succ_self _) _ fun _ => trivial
  have hconcludes : t.dialogue.Concludes t.tokens t.names := hlasts.concludes (Nat.le_refl _)
  refine ⟨hconcludes, fun h => ?_⟩
  have hextends := Production.extends_program h _ _ Dialogue.Extends.done
  rw [run_eq_course, run_eq_course, hextends.course_of_concludes hconcludes]

theorem Ends.failure {t : Translator σ} (ht : t.Ends) {I : σ → Prop} {P : Failure → Prop}
    (hs : I t.tokens) (hI : ∀ s r, I s → I (TokenStream.pull r s).stream)
    (hP : ∀ s r f, I s → (TokenStream.pull r s).answer = .error f → P f)
    (hgrammar : ∀ e, P { cause := .grammar e }) (hwrite : P (.explain .outputWrite Sink.refusal))
    (hemitter : ∀ f, t.emitter.failure = some f → P f) {f : Failure}
    (h : t.analyze.1 = .error f) : P f := by
  rw [analyze_outcome] at h
  rcases outcome_eq_error h with h | h
  · exact ht.concludes.answer hs hI hP hgrammar h
  · rw [analyze_emitter] at h
    exact Emitter.failure_foldl_emit hwrite _ hemitter h

/-- The translator comes to an end over every list of tokens, whichever requests are made to fail,
and over every feed of lines and failures. No production is entered again before a token has been
taken, and so none reaches a bound that is greater than the number of tokens it can take. -/
theorem analyze_comes_to_an_end :
    (∀ (ρ : Type) (fuel k : Nat), k < fuel →
      (Production.statements fuel : Production ρ Unit).Lasts k ∧
      (Production.statement fuel : Production ρ Unit).Lasts k ∧
      (∀ first, (Production.statementFrom first (.statement fuel) fuel :
        Production ρ Unit).Lasts k) ∧
      (Production.expression fuel : Production ρ Bytes).Lasts k ∧
      (∀ left, (Production.chain Opcode.ofTermOperator? (.term (.value fuel) fuel) fuel left :
        Production ρ Bytes).Lasts k) ∧
      (Production.term (.value fuel) fuel : Production ρ Bytes).Lasts k ∧
      (∀ left, (Production.chain Opcode.ofFactorOperator? (.factor (.value fuel) fuel) fuel left :
        Production ρ Bytes).Lasts k) ∧
      (Production.factor (.value fuel) fuel : Production ρ Bytes).Lasts k ∧
      (Production.base (.value fuel) : Production ρ Bytes).Lasts k ∧
      (Production.value fuel : Production ρ Bytes).Lasts k) ∧
    (∀ t : Translator CountedTokens, t.Ends ∧
      ∀ f, t.analyze.1 = .error f → f.cause = .outOfFuel →
        t.emitter.failure = some f ∨ ∃ r k, t.tokens.fault r = some (k, f)) ∧
    ∀ t : Translator Cursor, t.Ends ∧
      ∀ f, t.analyze.1 = .error f → f.cause = .outOfFuel → t.emitter.failure = some f := by
  refine ⟨fun ρ fuel k hk => ?_, fun t => ⟨t.ends, fun f h => ?_⟩, fun t => ⟨t.ends, fun f h => ?_⟩⟩
  · have hvalue : ∀ j ≤ k, (Production.value fuel : Production ρ Bytes).Lasts j :=
      fun j hj => Production.lasts_value (hj.trans_lt hk)
    have hfactor : ∀ j ≤ k, (Production.factor (.value fuel) fuel : Production ρ Bytes).Lasts j :=
      fun j hj => Production.lasts_factor (fun i hi => hvalue i (hi.trans hj)) (hj.trans_lt hk)
    have hterm : ∀ j ≤ k, (Production.term (.value fuel) fuel : Production ρ Bytes).Lasts j :=
      fun j hj => Production.lasts_term (fun i hi => hvalue i (hi.trans hj)) (hj.trans_lt hk)
    exact ⟨Production.lasts_statements hk, Production.lasts_statement hk,
      fun first => Production.lasts_statementFrom first
        (fun j hj => Production.lasts_statement (hj.trans hk)) hk.le,
      Production.lasts_expression hk,
      Production.lasts_chain _ (fun j hj => hterm j hj.le) hk, hterm k (Nat.le_refl k),
      Production.lasts_chain _ (fun j hj => hfactor j hj.le) hk, hfactor k (Nat.le_refl k),
      Production.lasts_base hvalue, hvalue k (Nat.le_refl k)⟩
  · refine t.ends.failure (I := fun s => ∀ r, s.fault r = t.tokens.fault r)
      (P := fun f => f.cause = .outOfFuel →
        t.emitter.failure = some f ∨ ∃ r k, t.tokens.fault r = some (k, f))
      (fun _ => rfl) (fun s r hs r' => (s.pull_fault r r').trans (hs r')) ?_
      (fun e he => by cases he) (fun he => by cases he) (fun f hf _ => .inl hf) h
    intro s r g hs hg hcause
    obtain ⟨k, hk⟩ | rfl := CountedTokens.fault_of_pull hg
    · exact .inr ⟨r, k, (hs r).symm.trans hk⟩
    · cases hcause
  · exact t.ends.failure (I := fun _ => True)
      (P := fun f => f.cause = .outOfFuel → t.emitter.failure = some f) trivial
      (fun _ _ _ => trivial) (fun s r g _ hg hcause => absurd hcause (Cursor.cause_of_pull hg))
      (fun e he => by cases he) (fun he => by cases he) (fun f hf _ => hf) h

/-- A request that is made to fail as if the bound had been reached: the answer comes from the
request. -/
theorem analyze_comes_to_an_end_of_failing_request :
    let word (kind : TokenKind) : Token := ⟨kind, [], {}⟩
    let s : CountedTokens :=
      { tokens := [word .programWord, word .ident, word .equal]
        popFault := some (2, { cause := .outOfFuel }) }
    let t : Translator CountedTokens := .ofStream s
    (Production.statements 4 : Production Unit Unit).Lasts 3 ∧
      t.analyze.1 = .error { cause := .outOfFuel } ∧
      (t.emitter.failure = some { cause := .outOfFuel } ∨
        ∃ r k, s.fault r = some (k, { cause := .outOfFuel })) := by
  intro word s t
  have hanswer : t.analyze.1 = .error { cause := .outOfFuel } := by decide +kernel
  obtain ⟨hlasts, hends, -⟩ := analyze_comes_to_an_end
  exact ⟨(hlasts Unit 4 3 (by decide)).1, hanswer, (hends t).2 _ hanswer rfl⟩

end Translator

end ThreeAddress
