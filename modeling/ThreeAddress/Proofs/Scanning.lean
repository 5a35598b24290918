import ThreeAddress.Proofs.Lexeme
import ThreeAddress.Scan.Scanner

namespace ThreeAddress

structure Token.Regular (t : Token) : Prop where
  identifier (h : t.kind = .ident) : Identifier t.lexeme
  numeral (h : t.kind = .number) : Numeral t.lexeme

namespace ScanState

variable {s : ScanState} {a : Acceptor} {cs : List Char} {k : CharClass}

theorem ofWord_ne_number (cs : List Char) : TokenKind.ofWord cs ≠ .number := by
  unfold TokenKind.ofWord
  cases h : Keyword.table.lookup (cs.map Keyword.capital) with
  | none => simp
  | some kind =>
    obtain ⟨l, l', hl, -⟩ := List.lookup_eq_some_iff.mp h
    have hm : (cs.map Keyword.capital, kind) ∈ Keyword.table := by simp [hl]
    have hne : ∀ p ∈ Keyword.table, p.2 ≠ .number := by decide
    exact hne _ hm

theorem operatorKind_ne (cs : List Char) :
    operatorKind cs ≠ .ident ∧ operatorKind cs ≠ .number := by
  unfold operatorKind
  split <;> simp

theorem eq_endIdent (h : s.acceptor? = some a) (hk : a.kind? cs = some .ident) :
    s = .endIdent ∧ a.retract = true := by
  cases s <;> simp only [acceptor?, always, reduceCtorEq, Option.some.injEq] at h <;> subst h <;>
    simp_all [operatorKind_ne]

theorem eq_endNumber (h : s.acceptor? = some a) (hk : a.kind? cs = some .number) :
    s = .endNumber ∧ a.retract = true := by
  cases s <;> simp only [acceptor?, always, reduceCtorEq, Option.some.injEq] at h <;> subst h <;>
    simp_all [operatorKind_ne, ofWord_ne_number]

theorem next_eq_endIdent (h : s.next k = .endIdent) : s = .inIdent := by
  cases s <;> cases k <;> simp [next] at h ⊢

theorem next_eq_endNumber (h : s.next k = .endNumber) : s = .inNumber := by
  cases s <;> cases k <;> simp [next] at h ⊢

theorem next_eq_inIdent (h : s.next k = .inIdent) :
    s = .start ∧ k = .letter ∨ s = .inIdent ∧ (k = .letter ∨ k = .digit) := by
  cases s <;> cases k <;> simp [next] at h ⊢

theorem next_eq_inNumber (h : s.next k = .inNumber) :
    (s = .start ∨ s = .inNumber) ∧ k = .digit := by
  cases s <;> cases k <;> simp [next] at h ⊢

end ScanState

theorem IsWord.snoc {cs : List Char} (h : IsWord cs) {c : Char}
    (hc : CharClass.ofChar c = .letter ∨ CharClass.ofChar c = .digit) : IsWord (cs ++ [c]) := by
  obtain ⟨d, r, rfl, hd, hr⟩ := h
  refine ⟨d, r ++ [c], rfl, hd, fun e he => ?_⟩
  rcases List.mem_append.mp he with he | he
  · exact hr e he
  · exact List.mem_singleton.mp he ▸ hc

theorem IsDigits.snoc {cs : List Char} (h : ∀ d ∈ cs, CharClass.ofChar d = .digit) {c : Char}
    (hc : CharClass.ofChar c = .digit) : IsDigits (cs ++ [c]) := by
  refine ⟨by simp, fun e he => ?_⟩
  rcases List.mem_append.mp he with he | he
  · exact h e he
  · exact List.mem_singleton.mp he ▸ hc

namespace ScanMachine

structure Sound (m : ScanMachine) : Prop where
  start (h : m.state = .start) : m.pending = []
  word (h : m.state = .inIdent) : IsWord m.pending.reverse
  digits (h : m.state = .inNumber) : IsDigits m.pending.reverse
  tokens : ∀ t ∈ m.tokens, t.Regular

variable {m : ScanMachine}

theorem Sound.warn (h : m.Sound) (line : Nat) (c : Char) : (m.warn line c).Sound := by
  unfold ScanMachine.warn
  split
  · exact ⟨h.start, h.word, h.digits, h.tokens⟩
  · exact h

theorem Sound.finish (h : m.Sound) (line : Nat) {kind? : List Char → Option TokenKind}
    {pending : List Char} (column : Nat)
    (hi : kind? pending.reverse = some .ident → IsWord pending.reverse)
    (hn : kind? pending.reverse = some .number → IsDigits pending.reverse) :
    (m.finish line kind? pending column).Sound := by
  refine ⟨fun _ => rfl, nofun, nofun, fun t ht => ?_⟩
  simp only [ScanMachine.finish] at ht
  split at ht
  · rename_i kind hk
    rcases List.mem_cons.mp ht with rfl | ht
    · exact ⟨fun h => (hi (h ▸ hk)).identifier, fun h => (hn (h ▸ hk)).numeral⟩
    · exact h.tokens t ht
  · exact h.tokens t ht

theorem Sound.step (h : m.Sound) (line : Nat) (c : Char) : (m.step line c).1.Sound := by
  simp only [ScanMachine.step]
  split
  · rename_i a ha
    have hi : ∀ {cs}, a.kind? cs = some .ident → m.state = .inIdent := fun hk =>
      ScanState.next_eq_endIdent (ScanState.eq_endIdent ha hk).1
    have hn : ∀ {cs}, a.kind? cs = some .number → m.state = .inNumber := fun hk =>
      ScanState.next_eq_endNumber (ScanState.eq_endNumber ha hk).1
    split
    · exact h.finish line _ (fun hk => h.word (hi hk)) fun hk => h.digits (hn hk)
    · -- a lexeme that takes the character in is neither a name nor a numeral
      rename_i hr
      exact h.finish line _ (fun hk => absurd (ScanState.eq_endIdent ha hk).2 hr)
        fun hk => absurd (ScanState.eq_endNumber ha hk).2 hr
  · split
    · exact ⟨fun _ => rfl, fun hs => by simp_all, fun hs => by simp_all, h.tokens⟩
    · refine ⟨fun hs => by simp_all, fun hs => ?_, fun hs => ?_, h.tokens⟩
      · simp only [List.reverse_cons]
        obtain ⟨hs, hk⟩ | ⟨hs, hk⟩ := ScanState.next_eq_inIdent hs
        · rw [h.start hs]
          exact ⟨c, [], rfl, hk, nofun⟩
        · exact (h.word hs).snoc hk
      · simp only [List.reverse_cons]
        obtain ⟨hs | hs, hk⟩ := ScanState.next_eq_inNumber hs
        · rw [h.start hs]
          exact IsDigits.snoc (by simp) hk
        · exact IsDigits.snoc (h.digits hs).2 hk

theorem Sound.read (h : m.Sound) (line : Nat) (c : Char) : (m.read line c).Sound := by
  unfold ScanMachine.read
  have hs := (h.warn line c).step line c
  split
  · rename_i hm
    rw [hm] at hs
    exact hs
  · rename_i hm
    rw [hm] at hs
    exact Sound.step hs line c

theorem Sound.foldl_read (h : m.Sound) (line : Nat) (cs : List Char) :
    (cs.foldl (ScanMachine.read line) m).Sound := by
  induction cs generalizing m with
  | nil => exact h
  | cons c cs ih => exact ih (h.read line c)

end ScanMachine

theorem regular_scanLine (line : Nat) (text : Bytes) : ∀ t ∈ (scanLine line text).tokens,
    t.Regular := by
  have h : ScanMachine.Sound {} := ⟨fun _ => rfl, nofun, nofun, nofun⟩
  intro t ht
  exact (h.foldl_read line _).tokens t (List.mem_reverse.mp ht)

namespace Scanner

theorem readings_nextLine {s : Scanner} {r : LineReading} {rs : List LineReading}
    (h : s.readings = r :: rs) : s.nextLine.2.readings = rs := by
  unfold nextLine
  split <;> simp_all

theorem answers_nil {s : Scanner} (h : s.readings = []) : s.answers = [] := by
  simp [answers, h]

theorem answers_cons {s : Scanner} {r : LineReading} {rs : List LineReading}
    (h : s.readings = r :: rs) : s.answers = s.nextLine.1 :: s.nextLine.2.answers := by
  let ask := fun (p : Scanner × List LineAnswer) (_ : LineReading) =>
    (p.1.nextLine.2, p.1.nextLine.1 :: p.2)
  have hfold : ∀ (rs : List LineReading) (s : Scanner) (done : List LineAnswer),
      (rs.foldl ask (s, done)).2 = (rs.foldl ask (s, [])).2 ++ done := by
    intro rs
    induction rs with
    | nil => exact fun _ _ => rfl
    | cons r rs ih =>
      intro s done
      rw [List.foldl_cons, List.foldl_cons, ih, ih _ [_], List.append_assoc]
      rfl
  have hanswers : ∀ s : Scanner, s.answers = (s.readings.foldl ask (s, [])).2.reverse :=
    fun _ => rfl
  rw [hanswers, hanswers, readings_nextLine h, h, List.foldl_cons, hfold, List.reverse_append]
  rfl

theorem exists_scanLine (s : Scanner) : ∀ a ∈ s.answers, ∀ ts, a.tokens = .ok ts →
    ∃ line text, ts = (scanLine line text).tokens := by
  generalize h : s.readings = rs
  induction rs generalizing s with
  | nil =>
    rw [answers_nil h]
    exact nofun
  | cons r rs ih =>
    rw [answers_cons h]
    refine List.forall_mem_cons.mpr ⟨fun ts hts => ?_, ih _ (readings_nextLine h)⟩
    unfold nextLine at hts
    split at hts <;> cases hts
    exact ⟨_, _, rfl⟩

theorem regular_answers (s : Scanner) : ∀ a ∈ s.answers, ∀ ts, a.tokens = .ok ts →
    ∀ t ∈ ts, t.Regular := by
  intro a ha ts hts
  obtain ⟨line, text, rfl⟩ := s.exists_scanLine a ha ts hts
  exact regular_scanLine line text

end Scanner

end ThreeAddress
