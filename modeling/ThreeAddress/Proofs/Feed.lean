import ThreeAddress.Proofs.Delivery
import ThreeAddress.Proofs.Scanning

namespace ThreeAddress

namespace Cursor

def feedTokens : List LineAnswer → List Token
  | [] => []
  | answer :: feed =>
    match answer.tokens with
    | .ok tokens => tokens ++ feedTokens feed
    | .error _ => []

/-- The first failure of a feed, as the cursor passes it on. -/
def feedFailure : List LineAnswer → Failure
  | [] => { cause := .unexpectedEnd }
  | answer :: feed =>
    match answer.tokens with
    | .ok _ => feedFailure feed
    | .error f => lineFailure f

def Delivers (c : Cursor) (ts : List Token) (f : Failure) : Prop :=
  ts = c.queue ++ feedTokens c.feed ∧ f = feedFailure c.feed

theorem refill_of_nil {feed : List LineAnswer} (h : feedTokens feed = [])
    (warnings : List Diagnostic) (calls : Nat) :
    (refill warnings calls feed).1 = .error (feedFailure feed) := by
  induction feed generalizing warnings calls with
  | nil => rfl
  | cons answer feed ih =>
    simp only [feedTokens, feedFailure, refill] at h ⊢
    cases ha : answer.tokens with
    | error f => rfl
    | ok tokens =>
      rw [ha] at h
      obtain ⟨rfl, h⟩ := List.append_eq_nil_iff.mp h
      exact ih h _ _

theorem refill_of_cons {feed : List LineAnswer} {t : Token} {ts : List Token}
    (h : feedTokens feed = t :: ts) (warnings : List Diagnostic) (calls : Nat) :
    let c := (refill warnings calls feed).2.1
    ∃ queue, (refill warnings calls feed).1 = .ok (t, queue) ∧ c.queue = t :: queue ∧
      ts = queue ++ feedTokens c.feed ∧ feedFailure feed = feedFailure c.feed := by
  induction feed generalizing warnings calls with
  | nil => cases h
  | cons answer feed ih =>
    simp only [feedTokens, feedFailure, refill] at h ⊢
    cases ha : answer.tokens with
    | error f => rw [ha] at h; cases h
    | ok tokens =>
      rw [ha] at h
      cases tokens with
      | nil => exact ih h _ _
      | cons u us =>
        obtain ⟨rfl, rfl⟩ := List.cons.inj h
        exact ⟨us, rfl, rfl, rfl, rfl⟩

theorem fill_of_cons {c : Cursor} {t : Token} {ts : List Token} {f : Failure}
    (h : c.Delivers (t :: ts) f) :
    let c' := c.fill.2.1
    ∃ queue, c.fill.1 = .ok (t, queue) ∧ c'.queue = t :: queue ∧
      ts = queue ++ feedTokens c'.feed ∧ f = feedFailure c'.feed := by
  obtain ⟨ht, rfl⟩ := h
  unfold fill
  cases hq : c.queue with
  | nil =>
    rw [hq] at ht
    exact refill_of_cons ht.symm [] c.calls
  | cons u us =>
    rw [hq] at ht
    obtain ⟨rfl, rfl⟩ := List.cons.inj ht
    exact ⟨us, rfl, hq, rfl, rfl⟩

theorem fill_of_nil {c : Cursor} {f : Failure} (h : c.Delivers [] f) :
    c.fill.1 = .error f := by
  obtain ⟨ht, rfl⟩ := h
  obtain ⟨hq, hfeed⟩ := List.append_eq_nil_iff.mp ht.symm
  simp only [fill, hq]
  exact refill_of_nil hfeed [] c.calls

theorem delivery : Delivery Delivers where
  peek_nil := by
    intro c f h
    simp only [TokenStream.peek, peek, fill_of_nil h]
    rfl
  peek_cons := by
    intro c t ts f h
    obtain ⟨queue, hfill, hq, hts, hf⟩ := fill_of_cons h
    simp only [TokenStream.peek, peek, hfill]
    exact ⟨rfl, by rw [hq, hts]; rfl, hf⟩
  pop_nil := by
    intro c f h
    have hfill := fill_of_nil h
    simp only [TokenStream.pop, pop]
    split
    · rename_i hp
      rw [hp] at hfill
      cases hfill
    · rename_i hp
      rw [hp] at hfill
      cases hfill
      rfl
  pop_cons := by
    intro c t ts f h
    obtain ⟨queue, hfill, hq, hts, hf⟩ := fill_of_cons h
    simp only [TokenStream.pop, pop]
    split
    · rename_i hp
      rw [hp] at hfill hts hf
      cases hfill
      exact ⟨rfl, hts, hf⟩
    · rename_i hp
      rw [hp] at hfill
      cases hfill

theorem exists_line {feed : List LineAnswer} {t : Token} (h : t ∈ feedTokens feed) :
    ∃ line ∈ feed, ∃ ts, line.tokens = .ok ts ∧ t ∈ ts := by
  induction feed with
  | nil => cases h
  | cons line feed ih =>
    rw [feedTokens] at h
    split at h
    · rename_i ts hts
      rcases List.mem_append.mp h with h | h
      · exact ⟨line, List.mem_cons_self .., ts, hts, h⟩
      · obtain ⟨line', hline, hrest⟩ := ih h
        exact ⟨line', List.mem_cons_of_mem line hline, hrest⟩
    · cases h

theorem length_feedTokens_le (feed : List LineAnswer) :
    (feedTokens feed).length ≤ feedSupply feed := by
  induction feed with
  | nil => exact Nat.le_refl _
  | cons answer feed ih =>
    simp only [feedTokens, feedSupply, lineSupply]
    cases answer.tokens with
    | error f => exact Nat.zero_le _
    | ok tokens =>
      rw [List.length_append]
      exact Nat.add_le_add_left ih _

end Cursor

def Source.tokens (source : Source) : List Token :=
  Cursor.feedTokens (Scanner.ofSource source).answers

theorem Source.regular_tokens (source : Source) : ∀ t ∈ source.tokens, t.Regular := by
  intro t ht
  obtain ⟨line, hline, ts, hts, ht⟩ := Cursor.exists_line ht
  exact (Scanner.ofSource source).regular_answers line hline ts hts t ht

end ThreeAddress
