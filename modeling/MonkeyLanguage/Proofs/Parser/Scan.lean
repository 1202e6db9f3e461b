import MonkeyLanguage.Parser.Stream
import MonkeyLanguage.Proofs.Parser.Settling

/-!
# Reading one statement token by token

`scan` runs the automaton over a stream up to the end of the first statement that it completes, or up
to the first token that cannot be taken.  It looks at the next token only, so it takes the tokens up to
the end of the statement (`moves_of_scan_ok`), or up to the token that the error blames (`moves_of_scan_error`).
-/

namespace MonkeyLanguage

open Automaton

/-! ## Streams -/

theorem TokenStream.tail_of_nil {s : TokenStream} (h : s.tokens = []) : s.tail = s := by
  rw [TokenStream.tail, h]

theorem TokenStream.peek_of_nil {s : TokenStream} (h : s.tokens = []) : s.peek = .endAt s.finish := by
  rw [TokenStream.peek, h]
  rfl

theorem TokenStream.length_tail (s : TokenStream) : s.tail.tokens.length = s.tokens.length - 1 := by
  rw [TokenStream.tail]
  cases h : s.tokens with
  | nil => simp [h]
  | cons t ts => simp

theorem tokens_ne_nil_of_take {σ σ' : State} {s : TokenStream} (h : σ.take s.peek = some σ') :
    s.tokens ≠ [] := by
  intro hs
  rw [TokenStream.peek_of_nil hs, take_of_eof rfl] at h
  cases h

namespace Automaton

/-- The statements of a program whose statement behind the first `count` is complete. -/
def State.completed (count : Nat) : State → Option (List Node)
  | .statement (.program before) => if count < before.length then some before else none
  | _ => none

/-- What is left of a stream whose next token the state complains of.  A token that stands in place of
an expression has been read. -/
def State.behind (state : State) (stream : TokenStream) : TokenStream :=
  if state.wanted.isSome then stream else stream.tail

/-- Reads the statement behind the first `count` statements of a program, from the state given. -/
def scan (count : Nat) (state : State) (stream : TokenStream) :
    EStateM.Result ParseError TokenStream (List Node) :=
  let settled := state.settle stream.peek.kind
  match settled.completed count with
  | some statements => .ok statements stream
  | none =>
    match _h : settled.take stream.peek with
    | some next => scan count next stream.tail
    | none => .error (settled.complaint stream.peek) (settled.behind stream)
termination_by stream.tokens.length
decreasing_by
  have := List.length_pos_iff.2 (tokens_ne_nil_of_take _h)
  rw [TokenStream.length_tail]
  omega

variable {count : Nat} {σ σ' : State} {s : TokenStream}

theorem scan_of_completed {nodes : List Node}
    (h : (σ.settle s.peek.kind).completed count = some nodes) : scan count σ s = .ok nodes s := by
  rw [scan, h]

theorem scan_of_take (hc : (σ.settle s.peek.kind).completed count = none)
    (ht : σ.take s.peek = some σ') : scan count σ s = scan count σ' s.tail := by
  rw [← take_settle] at ht
  rw [scan]
  simp only [hc]
  split <;> simp_all

theorem scan_of_stuck (hc : (σ.settle s.peek.kind).completed count = none)
    (ht : σ.take s.peek = none) :
    scan count σ s = .error ((σ.settle s.peek.kind).complaint s.peek)
      ((σ.settle s.peek.kind).behind s) := by
  rw [← take_settle] at ht
  rw [scan]
  simp only [hc]
  split <;> simp_all

/-- States that settle to the same state read the same. -/
theorem scan_congr (h : σ.settle s.peek.kind = σ'.settle s.peek.kind) :
    scan count σ s = scan count σ' s := by
  rw [scan, scan, h]

/-! ## The tokens read -/

/-- Taking the tokens between two places of a stream leads from one state to the other. -/
structure Moves (σ : State) (s : TokenStream) (tokens : List Token) (σ' : State) (s' : TokenStream) :
    Prop where
  tokens_eq : s.tokens = tokens ++ s'.tokens
  read_eq : s'.read = tokens.reverse ++ s.read
  finish_eq : s'.finish = s.finish
  takes_eq : σ.takes tokens = some σ'

theorem Moves.refl (σ : State) (s : TokenStream) : Moves σ s [] σ s :=
  ⟨rfl, rfl, rfl, rfl⟩

theorem Moves.head {σ₁ : State} {tokens : List Token} {s' : TokenStream}
    (ht : σ.take s.peek = some σ₁) (h : Moves σ₁ s.tail tokens σ' s') :
    Moves σ s (s.peek :: tokens) σ' s' := by
  have hs := tokens_ne_nil_of_take ht
  obtain ⟨htok, hread, hfin, htakes⟩ := h
  obtain ⟨read, _ | ⟨token, rest⟩, finish⟩ := s
  · exact absurd rfl hs
  · refine ⟨congrArg (token :: ·) htok, ?_, hfin, ?_⟩
    · simpa [TokenStream.tail, TokenStream.peek] using hread
    · rw [takes_cons, ht]
      exact htakes

theorem completed_eq_some {nodes : List Node} (h : σ.completed count = some nodes) :
    σ = .statement (.program nodes) := by
  unfold State.completed at h
  split at h
  · simp only [Option.ite_none_right_eq_some, Option.some.injEq] at h
    rw [h.2]
  · cases h

theorem moves_of_scan_ok {nodes : List Node} {s' : TokenStream} (h : scan count σ s = .ok nodes s') :
    ∃ tokens σ', Moves σ s tokens σ' s' ∧ σ'.settle s'.peek.kind = .statement (.program nodes) := by
  fun_induction scan count σ s with
  | case1 σ s settled nodes' hc =>
    cases h
    exact ⟨[], σ, .refl _ _, completed_eq_some hc⟩
  | case2 σ s settled hc next ht ih =>
    obtain ⟨tokens, σ', hmoves, hsettle⟩ := ih h
    exact ⟨s.peek :: tokens, σ', hmoves.head ((take_settle σ s.peek).symm.trans ht), hsettle⟩
  | case3 => cases h

theorem moves_of_scan_error {e : ParseError} {s' : TokenStream}
    (h : scan count σ s = .error e s') :
    ∃ tokens σ' s₁, Moves σ s tokens σ' s₁ ∧ σ'.take s₁.peek = none ∧
      (σ'.settle s₁.peek.kind).completed count = none ∧
      e = (σ'.settle s₁.peek.kind).complaint s₁.peek ∧ s' = (σ'.settle s₁.peek.kind).behind s₁ := by
  fun_induction scan count σ s with
  | case1 => cases h
  | case2 σ s settled hc next ht ih =>
    obtain ⟨tokens, σ', s₁, hmoves, hrest⟩ := ih h
    exact ⟨s.peek :: tokens, σ', s₁, hmoves.head ((take_settle σ s.peek).symm.trans ht), hrest⟩
  | case3 σ s settled hc ht =>
    cases h
    exact ⟨[], σ, s, .refl σ s, (take_settle σ s.peek).symm.trans ht, hc, rfl, rfl⟩

/-- Behind an error too the stream is the same, read further. -/
theorem read_append_tokens_of_error {e : ParseError} {s' : TokenStream} (h : scan count σ s = .error e s') :
    s'.read.reverse ++ s'.tokens = s.read.reverse ++ s.tokens := by
  obtain ⟨tokens, σ', s₁, hmoves, -, -, -, rfl⟩ := moves_of_scan_error h
  have htail : s₁.tail.read.reverse ++ s₁.tail.tokens = s₁.read.reverse ++ s₁.tokens := by
    obtain ⟨read, _ | ⟨t, ts⟩, finish⟩ := s₁
    · rfl
    · simp [TokenStream.tail]
  have hread : s₁.read.reverse ++ s₁.tokens = s.read.reverse ++ s.tokens := by
    rw [hmoves.read_eq, hmoves.tokens_eq, List.reverse_append, List.reverse_reverse, List.append_assoc]
  rw [State.behind]
  split
  · exact hread
  · exact htail.trans hread

end Automaton

end MonkeyLanguage
