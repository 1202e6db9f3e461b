import Mathlib.Data.List.Nodup
import MonkeyLanguage.Prompt.Completion
import MonkeyLanguage.Proofs.Prompt.Conversation
import MonkeyLanguage.Proofs.Session.Names

/-!
# What completions offer

Behind a word that can begin a name, the prompt offers the names that go on from it and stand for a value in the
session, each once (`completions_resolve`): those that programs have bound, in the order in which they were bound
first, and then the other builtins, sorted.

The first section is about any names and builtins, and what the session binds is brought in at the end.
-/

namespace MonkeyLanguage.Prompt

variable {names builtins : List String} {before word text : List Char} {name : String} {c : Char}

/-! ## Words and what goes on from them -/

/-- The name goes on from the word: the word is a proper prefix of it. -/
def GoesOn (word : List Char) (name : String) : Prop :=
  word <+: name.toList ∧ word ≠ name.toList

instance (word : List Char) (name : String) : Decidable (GoesOn word name) :=
  inferInstanceAs (Decidable (_ ∧ _))

/-- The text after a completion at a cursor. -/
def Completion.applyTo (completion : Completion) (text : List Char) (cursor : Nat) : List Char :=
  let before := text.take cursor
  before.take (before.length - completion.replaced) ++ completion.text.toList ++ text.drop cursor

def unhidden (names builtins : List String) : List String :=
  (builtins.mergeSort fun a b => a ≤ b).filter fun b => b ∉ names

theorem lastRun_suffix (before : List Char) : lastRun before <:+ before := by
  unfold lastRun
  split
  · exact List.nil_suffix
  · next c rest hreverse =>
    dsimp only
    split
    · exact List.nil_suffix
    · rw [← hreverse, ← List.reverse_prefix, List.reverse_reverse]
      exact List.takeWhile_prefix _

theorem mem_unhidden_iff : name ∈ unhidden names builtins ↔ name ∈ builtins ∧ name ∉ names := by
  rw [unhidden, List.mem_filter, List.mem_mergeSort, decide_eq_true_iff]

theorem nodup_append_unhidden (hnames : names.Nodup) (hbuiltins : builtins.Nodup) :
    (names ++ unhidden names builtins).Nodup := by
  refine List.nodup_append.2 ⟨hnames, ?_, ?_⟩
  · exact ((List.mergeSort_perm builtins _).nodup_iff.2 hbuiltins).filter _
  · rintro name hname _ hother rfl
    exact (mem_unhidden_iff.1 hother).2 hname

theorem pairwise_unhidden (names builtins : List String) : (unhidden names builtins).Pairwise (· ≤ ·) := by
  have htrans (a b d : String) (hab : decide (a ≤ b) = true) (hbd : decide (b ≤ d) = true) : decide (a ≤ d) = true :=
    decide_eq_true (String.le_trans (of_decide_eq_true hab) (of_decide_eq_true hbd))
  have htotal (a b : String) : (decide (a ≤ b) || decide (b ≤ a)) = true := by
    rw [Bool.or_eq_true, decide_eq_true_iff, decide_eq_true_iff]
    exact String.le_total a b
  exact ((List.pairwise_mergeSort htrans htotal builtins).filter _).imp of_decide_eq_true

theorem candidates_eq (names builtins : List String) (word : List Char) :
    candidates names builtins word = (names ++ unhidden names builtins).filter (GoesOn word) := by
  refine List.filter_congr fun name _ => ?_
  rw [Bool.eq_iff_iff, decide_eq_true_iff, Bool.and_eq_true, List.isPrefixOf_iff_prefix, bne_iff_ne]
  rfl

/-- What is shown beside a name. -/
def noteFor (names builtins : List String) (name : String) : String :=
  if name ∈ builtins ∧ name ∉ names then "builtin" else ""

theorem noteFor_eq_builtin_iff : noteFor names builtins name = "builtin" ↔ name ∉ names ∧ name ∈ builtins := by
  unfold noteFor
  split
  · next h => exact iff_of_true rfl h.symm
  · next h => exact iff_of_false (by decide) (mt And.symm h)

theorem noteFor_eq_empty (h : noteFor names builtins name ≠ "builtin") : noteFor names builtins name = "" :=
  if_neg fun hname => h (if_pos hname)

theorem complete_of_word (hslash : before.head? ≠ some '/') (hword : lastRun before = c :: word)
    (hc : Text.isAlphabetic c = true ∨ c = '_') :
    complete names builtins before = (candidates names builtins (c :: word)).map fun name =>
      ⟨name, (c :: word).length, noteFor names builtins name⟩ := by
  have hfirst : (Text.isAlphabetic c || decide (c = '_')) = true := by simpa using hc
  rw [complete, if_neg hslash, hword]
  exact if_pos hfirst

theorem applyTo_of_suffix {completion : Completion} {cursor : Nat} (hword : word <:+ text.take cursor)
    (hreplaced : completion.replaced = word.length) :
    ∃ front, text.take cursor = front ++ word ∧
      completion.applyTo text cursor = front ++ completion.text.toList ++ text.drop cursor := by
  obtain ⟨front, hfront⟩ := hword
  refine ⟨front, hfront.symm, ?_⟩
  rw [Completion.applyTo, hreplaced, ← hfront]
  simp

/-! ## The prompt -/

/-- The completions that are offered at the prompt behind a text. -/
def State.completions (s : State) (before : List Char) : List Completion :=
  complete s.session.names (OrderedMap.keys BuiltinTable.default) before

/-- The names that the programs of some texts bind outside of functions, in the order in which they do so first. -/
def boundNames (limit : Nat) (texts : List String) : List String :=
  let start := Session.empty limit
  ((start.logs .default (programs texts)).filterMap (Entry.boundName? start.scope)).eraseDups

theorem Follows.isOutermost {limit : Nat} {s : State} {texts : List String} (h : Follows limit s texts) :
    s.session.IsOutermost :=
  h.session_eq ▸ Session.isOutermost_empty.after _

theorem Follows.holds_storable {limit : Nat} {s : State} {texts : List String} (h : Follows limit s texts) :
    Invariant.storable.Holds s.session.world :=
  h.session_eq ▸ (storable_of_session .default _ _).1

theorem Follows.names_eq {limit : Nat} {s : State} {texts : List String} (h : Follows limit s texts) :
    s.session.names = boundNames limit texts ∧ s.session.names.Nodup :=
  h.session_eq ▸ Session.names_after .default _

/-- At every point of a conversation, behind a word that can begin a name, the names that go on from it and stand for a
value are offered, each once: the names that are bound in the order in which they were bound first, and then the
other builtins, sorted.  The note tells the builtins that no binding hides from what is bound, and a completion
replaces the word. -/
theorem completions_resolve (limit : Nat) (settings : Settings) (user : Option String) (events : List Event)
    {cursor : Nat}
    (hslash : text.head? ≠ some '/') (hword : lastRun (text.take cursor) = c :: word)
    (hc : Text.isAlphabetic c = true ∨ c = '_') :
    let s := events.foldl State.handle (State.greet limit settings user)
    let bound := boundNames limit (events.filterMap Event.text?)
    let offered := s.completions (text.take cursor)
    (offered.map Completion.text).Nodup ∧
    (∀ name, name ∈ offered.map Completion.text ↔ GoesOn (c :: word) name ∧ s.session.Resolves .default name) ∧
    (∃ others : List String, others.Pairwise (· ≤ ·) ∧
      (∀ name, name ∈ others ↔ name ∈ OrderedMap.keys BuiltinTable.default ∧ name ∉ bound) ∧
      offered.map Completion.text = (bound ++ others).filter (GoesOn (c :: word))) ∧
    ∀ completion ∈ offered,
      (completion.note = "builtin" ↔
        s.session.world.get? s.session.scope completion.text = none ∧
          completion.text ∈ OrderedMap.keys BuiltinTable.default) ∧
      (completion.note ≠ "builtin" → completion.note = "") ∧
      ∃ front, text.take cursor = front ++ c :: word ∧
        completion.applyTo text cursor = front ++ completion.text.toList ++ text.drop cursor := by
  intro s bound offered
  have hfollows : Follows limit s (events.filterMap Event.text?) := (follows_greet limit settings user).foldl events
  obtain ⟨hnames, hdistinct⟩ := hfollows.names_eq
  have hbuiltins : (OrderedMap.keys BuiltinTable.default).Nodup := by decide
  have hbefore : (text.take cursor).head? ≠ some '/' := by
    rw [List.head?_take]
    split
    · simp
    · exact hslash
  have hoffered : offered = _ := complete_of_word hbefore hword hc
  -- all that is said of the names follows from this list
  have htexts : offered.map Completion.text = (bound ++ unhidden bound (OrderedMap.keys BuiltinTable.default)).filter
      (GoesOn (c :: word)) := by
    rw [hoffered, List.map_map, hnames, ← candidates_eq]
    exact List.map_id _
  rw [hnames] at hdistinct
  refine ⟨?_, fun name => ?_, ⟨_, pairwise_unhidden bound _, fun name => mem_unhidden_iff, htexts⟩, ?_⟩
  · rw [htexts]
    exact (nodup_append_unhidden hdistinct hbuiltins).filter _
  · rw [htexts, List.mem_filter, List.mem_append, mem_unhidden_iff, decide_eq_true_iff,
      Session.resolves_iff hfollows.isOutermost hfollows.holds_storable, hnames, and_comm]
    refine and_congr_right fun _ => ?_
    change name ∈ bound ∨ _ ↔ name ∈ bound ∨ _
    by_cases hname : name ∈ bound <;> simp [hname]
  · intro completion hcompletion
    rw [hoffered] at hcompletion
    obtain ⟨name, -, rfl⟩ := List.mem_map.1 hcompletion
    have hunbound : name ∉ s.session.names ↔ s.session.world.get? s.session.scope name = none :=
      (not_congr hfollows.isOutermost.mem_names_iff).trans not_not
    exact ⟨noteFor_eq_builtin_iff.trans (and_congr_left fun _ => hunbound), noteFor_eq_empty,
      applyTo_of_suffix (hword ▸ lastRun_suffix _) rfl⟩

/-- Behind a program that binds `length` and a `len` of its own, the builtin is hidden and no name is offered twice. -/
theorem completions_resolve_of_hidden_builtin :
    let text := "1 + le".toList
    let s := [Event.line "let length = 3; let len = 1; f"].foldl State.handle (State.greet 1000 ⟨none, none, none⟩ none)
    text.head? ≠ some '/' ∧ lastRun (text.take 6) = 'l' :: ['e'] ∧ Text.isAlphabetic 'l' = true ∧
      (s.completions (text.take 6)).map Completion.text = ["length", "len"] := by
  intro text s
  have hslash : text.head? ≠ some '/' := by decide +kernel
  have hword : lastRun (text.take 6) = 'l' :: ['e'] := by decide +kernel
  have hfirst : Text.isAlphabetic 'l' = true := by decide +kernel
  have hbound : boundNames 1000 ["let length = 3; let len = 1; f"] = ["length", "len"] := by decide +kernel
  obtain ⟨-, -, ⟨others, -, hothers, hoffered⟩, -⟩ := completions_resolve 1000 ⟨none, none, none⟩ none
    [.line "let length = 3; let len = 1; f"] hslash hword (.inl hfirst)
  change _ = (boundNames 1000 ["let length = 3; let len = 1; f"] ++ others).filter _ at hoffered
  change ∀ name, _ ↔ _ ∧ name ∉ boundNames 1000 ["let length = 3; let len = 1; f"] at hothers
  rw [hbound, List.filter_append] at hoffered
  have hnone : others.filter (GoesOn ['l', 'e']) = [] := by
    refine List.filter_eq_nil_iff.2 fun name hname => ?_
    obtain ⟨hbuiltin, hfree⟩ := (hothers name).1 hname
    rw [hbound] at hfree
    have hall : ∀ name ∈ OrderedMap.keys BuiltinTable.default, name ∉ ["length", "len"] →
        decide (GoesOn ['l', 'e'] name) ≠ true := by decide +kernel
    exact hall name hbuiltin hfree
  rw [hnone, List.append_nil] at hoffered
  exact ⟨hslash, hword, hfirst, hoffered.trans (by decide +kernel)⟩

end MonkeyLanguage.Prompt
