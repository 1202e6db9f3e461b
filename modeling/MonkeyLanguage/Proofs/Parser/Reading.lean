import MonkeyLanguage.Proofs.Parser.Agreement
import MonkeyLanguage.Proofs.Parser.Grammar

/-!
# The automaton accepts the sentences of the grammar

`Category.Read` says what the automaton makes of a sentence: from the state where a part of a program starts
it comes to the state behind that part.  By induction on the derivation all sentences are read so
(`read_of_derives`).  An expression is read whole if no operator before it takes its first operand
(`Level.grip`) and no operator behind it takes its last (`Stops`).
-/

namespace MonkeyLanguage

open Automaton Category

/-- An expression may start in the state, in the hole given. -/
def Starts (σ : State) (hole : ExpressionHole) : Prop :=
  ∀ t σ', hole.start t = some σ' → σ.shift t = some σ'

/-- The first token is no operator that binds tighter than `level`, and no `else`. -/
def Stops (level : Level) (ts : List Token) : Prop :=
  ∀ t ∈ ts.head?, t.kind.level ≤ level ∧ t.kind ≠ .elseWord

/-- The automaton reads the tokens from `ts` up to `us` as a sentence of the category: it accepts `ts` from where
the sentence starts if it accepts `us` from behind the sentence. -/
def Category.Read (ts us : List Token) : Category → Prop
  | expression level e => ∀ {σ : State} {hole : ExpressionHole} {own : Level} {result : List Node},
    Starts σ hole → hole.Stays own → own < level.grip → Stops level us →
    Accepts (.operator e hole) us result → Accepts σ ts result
  | items nodes => ∀ {close : Token} {rest : List Token} {hole : List Node → ExpressionHole}
    {whole : List Node → State} {before : List Node} {σ : State} {result : List Node}, us = close :: rest →
    close.kind = .rightParen ∨ close.kind = .rightBracket → ListHole close.kind hole whole →
    Starts σ (hole before) → Accepts (whole (before.reverse ++ nodes)) rest result → Accepts σ ts result
  | list nodes => ∀ {close : Token} {rest : List Token} {hole : List Node → ExpressionHole}
    {whole : List Node → State} {σ : State} {result : List Node}, us = close :: rest →
    close.kind = .rightParen ∨ close.kind = .rightBracket → ListHole close.kind hole whole →
    Starts σ (hole []) → σ.take close = some (whole []) → Accepts (whole nodes) rest result →
    Accepts σ ts result
  | names xs => ∀ {close : Token} {rest : List Token} {before : List String} {hole : ExpressionHole} {σ : State}
    {result : List Node}, us = close :: rest → close.kind = .rightParen →
    (∀ t : Token, t.kind = .identifier → σ.take t = some (.parameterEnd (t.value :: before) hole)) →
    Accepts (.bodyBrace (before.reverse ++ xs) hole) rest result → Accepts σ ts result
  | parameters xs => ∀ {close : Token} {rest : List Token} {hole : ExpressionHole} {result : List Node},
    us = close :: rest → close.kind = .rightParen → Accepts (.bodyBrace xs hole) rest result →
    Accepts (.parameterList hole) ts result
  | entries pairs => ∀ {close : Token} {rest : List Token} {before : List (Node × Node)} {hole : ExpressionHole}
    {result : List Node}, us = close :: rest → close.kind = .rightBrace →
    Accepts (.operator (.hash (before.reverse ++ pairs)) hole) rest result →
    Accepts (.entries before hole) ts result
  | block nodes => ∀ {hole : List Node → StatementHole} {whole : Node → State} {σ : State} {result : List Node},
    BlockHole hole whole → (∀ t : Token, t.kind = .leftBrace → σ.take t = some (.statement (hole []))) →
    Accepts (whole (.block nodes)) us result → Accepts σ ts result
  | statement ended node => ∀ {hole : StatementHole} {result : List Node},
    (ended = false → ∀ t ∈ us.head?, t.kind.level = .expr) →
    Accepts (.statement (hole.add node)) us result → Accepts (.statement hole) ts result
  | statements nodes => ∀ {hole : StatementHole} {result : List Node},
    Accepts (.statement (nodes.foldl (fun hole node => hole.add node) hole)) us result →
    Accepts (.statement hole) ts result

variable {σ σ' : State} {hole hole' : ExpressionHole} {p q level : Level} {t u l r : Token}
  {ts us vs ws rest : List Token} {e e' left right : Node} {nodes result : List Node}

/-! ## What stands behind an expression -/

theorem Stops.mono (h : Stops p ts) (hle : p ≤ q) : Stops q ts :=
  fun t ht => ⟨Nat.le_trans (h t ht).1 hle, (h t ht).2⟩

theorem Stops.cons (hlow : t.kind.level ≤ p) (helse : t.kind ≠ .elseWord) : Stops p (t :: ts) := by
  intro u hu
  rw [← Option.some.inj hu]
  exact ⟨hlow, helse⟩

/-! ## Steps of the automaton -/

theorem accepts_take (ht : σ.take t = some σ') (h : Accepts σ' ts result) : Accepts σ (t :: ts) result :=
  Accepts.prepend (show σ.takes [t] = some σ' by rw [takes_cons, ht]; rfl) h

theorem take_of_shift (hl : t.isTooLarge = false) (h : σ.shift t = some σ') : σ.take t = some σ' := by
  rw [State.take, hl]
  exact h

theorem starts_operand (hole : ExpressionHole) : Starts (.operand hole) hole :=
  fun _ _ h => h

/-- An expression may start where a closing bracket may stand as well. -/
theorem starts_or_close {close : Token.Kind} {closed : State} (hclose : close.isCloser = true)
    (hσ : ∀ t, σ.shift t = if t.kind = close then some closed else hole.start t) : Starts σ hole := by
  intro t σ' ht
  rw [hσ, if_neg]
  · exact ht
  · rintro rfl
    unfold ExpressionHole.start at ht
    cases hk : t.kind <;> simp_all [Token.Kind.isCloser]

theorem accepts_start (hs : Starts σ hole) (hk : t.kind ≠ .integer) (hstart : hole.start t = some σ')
    (h : Accepts σ' ts result) : Accepts σ (t :: ts) result :=
  accepts_take (take_of_shift (not_tooLarge_of_kind hk) (hs t σ' hstart)) h

theorem accepts_finish (happ : hole.apply .expr e = (e, hole)) (hlow : t.kind.level = .expr)
    (hk : t.kind ≠ .integer) (hfinish : hole.finish e t = some σ') (h : Accepts σ' ts result) :
    Accepts (.operator e hole) (t :: ts) result := by
  refine accepts_take (take_of_shift (not_tooLarge_of_kind hk) ?_) h
  rw [State.shift, proceed_of_no_operator hlow happ]
  exact hfinish

theorem accepts_of_apply (hstop : Stops p ts)
    (happ : ∀ level, level ≤ p → hole.apply level e = hole'.apply level e')
    (h : Accepts (.operator e' hole') ts result) : Accepts (.operator e hole) ts result := by
  cases ts with
  | nil =>
    obtain ⟨σ', htakes, hend⟩ := h
    cases htakes
    refine ⟨_, rfl, ?_⟩
    rw [← hend, State.statements?, State.statements?, ExpressionHole.statements?, ExpressionHole.statements?,
      happ _ (Level.expr_le p)]
  | cons t ts =>
    obtain ⟨σ', htakes, hend⟩ := h
    refine ⟨σ', ?_, hend⟩
    rw [takes_cons, State.take, State.shift] at htakes ⊢
    rw [proceed_congr (happ _ (hstop t rfl).1)]
    exact htakes

theorem accepts_of_no_else {condition consequence : Node} (hstop : Stops p ts)
    (h : Accepts (.operator (.ifElse condition consequence .absent) hole) ts result) :
    Accepts (.elseWord condition consequence hole) ts result := by
  cases ts with
  | nil =>
    obtain ⟨σ', htakes, hend⟩ := h
    cases htakes
    exact ⟨_, rfl, hend⟩
  | cons t ts =>
    obtain ⟨σ', htakes, hend⟩ := h
    refine ⟨σ', ?_, hend⟩
    rw [takes_cons, State.take, State.shift, if_neg (hstop t rfl).2]
    exact htakes

/-! ## Expressions -/

theorem read_raise (hle : p ≤ q) (he : (expression q e).Read ts us) : (expression p e).Read ts us :=
  fun hs hstay hown hstop h => he hs hstay (Nat.lt_of_lt_of_le hown (grip_mono hle)) (hstop.mono hle) h

theorem kind_of_infix_level (hlow : .expr < t.kind.level) (hhigh : t.kind.level < .unary) :
    t.kind ∈ [.equal, .notEqual, .less, .greater, .plus, .minus, .asterisk, .slash] := by
  revert hlow hhigh
  cases t.kind <;> decide

theorem take_binary (hlow : .expr < t.kind.level) (hhigh : t.kind.level < .unary)
    (happ : hole.apply t.kind.level left = (left, hole)) :
    (State.operator left hole).take t =
      some (.operand (.binary left t.value t.kind.level hole)) := by
  have hkind := kind_of_infix_level hlow hhigh
  simp only [List.mem_cons, List.not_mem_nil, or_false] at hkind
  have hi : t.kind ≠ .integer := by
    intro h
    simp [h] at hkind
  rw [take_of_kind_ne hi, State.shift, ExpressionHole.proceed, happ]
  rcases hkind with h | h | h | h | h | h | h | h <;> simp [h]

theorem read_binary (hlow : .expr < t.kind.level) (hhigh : t.kind.level < .unary)
    (htight : t.kind.level < q) (hleft : (expression t.kind.level left).Read ts (t :: us))
    (hright : (expression q right).Read us vs) :
    (expression t.kind.level (.binary left t.value right)).Read ts vs := by
  intro σ hole own result hs hstay hown hstop h
  have hlt : own < t.kind.level := grip_eq_self hlow hhigh ▸ hown
  have helse : t.kind ≠ .elseWord := by
    intro hk
    rw [hk] at hlow
    exact absurd hlow (by decide)
  refine hleft hs hstay hown (.cons (Nat.le_refl _) helse) ?_
  refine accepts_take (take_binary hlow hhigh (apply_of_stays hstay hlt left)) ?_
  refine hright (starts_operand _) (Nat.le_refl _) (Nat.lt_of_lt_of_le htight (le_grip q))
    (hstop.mono (Nat.le_of_lt htight)) ?_
  refine accepts_of_apply hstop (fun level hlevel => ?_) h
  rw [ExpressionHole.apply, if_pos hlevel]

theorem read_unary (ht : t.kind = .bang ∨ t.kind = .minus) (he : (expression .unary e).Read ts us) :
    (expression .unary (.unary t.value e)).Read (t :: ts) us := by
  intro σ hole own result hs _ _ hstop h
  have hstart : hole.start t = some (.operand (.unary t.value hole)) := by
    rcases ht with ht | ht <;> simp [ExpressionHole.start, ht]
  have hk : t.kind ≠ .integer := by rcases ht with ht | ht <;> simp [ht]
  refine accepts_start hs hk hstart (he (starts_operand _) (Nat.le_refl _) (by decide) hstop ?_)
  refine accepts_of_apply hstop (fun level hlevel => ?_) h
  rw [ExpressionHole.apply, if_pos hlevel]

/-- Where no operator stands before an expression nor behind it, it is read whole. -/
theorem Category.Read.whole (he : (expression .expr e).Read ts us) (hs : Starts σ hole)
    (hstay : hole.Stays .expr) (hstop : Stops .expr us) (h : Accepts (.operator e hole) us result) :
    Accepts σ ts result :=
  he hs hstay (expr_lt_grip .expr) hstop h

theorem stops_of_kind {kind : Token.Kind} (ht : t.kind = kind) (hlow : kind.level = .expr)
    (helse : kind ≠ .elseWord) : Stops p (t :: ts) :=
  .cons (by rw [ht, hlow]; exact Level.expr_le p) (by rw [ht]; exact helse)

theorem read_atom (hsmall : t.isTooLarge = false)
    (hstart : ∀ hole : ExpressionHole, hole.start t = some (.operator e hole)) :
    (expression .suffix e).Read (t :: ts) ts :=
  fun hs _ _ _ h => accepts_take (take_of_shift hsmall (hs _ _ (hstart _))) h

theorem read_group (hl : l.kind = .leftParen) (he : (expression .expr e).Read ts (r :: us))
    (hr : r.kind = .rightParen) : (expression .suffix e).Read (l :: ts) us := by
  intro σ hole own result hs _ _ _ h
  have hstart : hole.start l = some (.operand (.group hole)) := by simp [ExpressionHole.start, hl]
  have hfinish : (ExpressionHole.group hole).finish e r = some (.operator e hole) := by
    simp [ExpressionHole.finish, hr]
  refine accepts_start hs (by simp [hl]) hstart ?_
  refine he.whole (starts_operand _) trivial (stops_of_kind hr rfl (by decide)) ?_
  exact accepts_finish rfl (by rw [hr]; rfl) (by simp [hr]) hfinish h

theorem read_call {callee : Node} {arguments : List Node} (hcallee : (expression .suffix callee).Read ts (l :: us))
    (hl : l.kind = .leftParen) (harguments : (list arguments).Read us (r :: vs)) (hr : r.kind = .rightParen) :
    (expression .suffix (.call callee arguments)).Read ts vs := by
  intro σ hole own result hs hstay hown _ h
  have happ : hole.apply l.kind.level callee = (callee, hole) := by
    rw [hl]
    exact apply_of_stays hstay hown callee
  have hopen : (State.operator callee hole).take l = some (.arguments callee hole) := by
    rw [take_of_kind_ne (by simp [hl]), State.shift, ExpressionHole.proceed, happ]
    simp [hl]
  have hstarts : Starts (.arguments callee hole) (.argument callee [] hole) :=
    starts_or_close (by decide) fun _ => rfl
  have hclose : (State.arguments callee hole).take r = some (.operator (.call callee []) hole) := by
    rw [take_of_kind_ne (by simp [hr]), State.shift, if_pos hr]
  refine hcallee hs hstay hown (.cons (Level.le_suffix _) (by simp [hl])) (accepts_take hopen ?_)
  exact harguments rfl (.inl hr) (hr ▸ listHole_call callee hole) hstarts hclose h

theorem read_index {position : Node} (hleft : (expression .suffix left).Read ts (l :: us))
    (hl : l.kind = .leftBracket) (hposition : (expression .expr position).Read us (r :: vs))
    (hr : r.kind = .rightBracket) : (expression .suffix (.index left position)).Read ts vs := by
  intro σ hole own result hs hstay hown _ h
  have happ : hole.apply l.kind.level left = (left, hole) := by
    rw [hl]
    exact apply_of_stays hstay hown left
  have hopen : (State.operator left hole).take l = some (.operand (.index left hole)) := by
    rw [take_of_kind_ne (by simp [hl]), State.shift, ExpressionHole.proceed, happ]
    simp [hl]
  have hfinish : (ExpressionHole.index left hole).finish position r =
      some (.operator (.index left position) hole) := by simp [ExpressionHole.finish, hr]
  refine hleft hs hstay hown (.cons (Level.le_suffix _) (by simp [hl])) (accepts_take hopen ?_)
  refine hposition.whole (starts_operand _) trivial (stops_of_kind hr rfl (by decide)) ?_
  exact accepts_finish rfl (by rw [hr]; rfl) (by simp [hr]) hfinish h

theorem read_array {elements : List Node} (hl : l.kind = .leftBracket)
    (helements : (list elements).Read ts (r :: us)) (hr : r.kind = .rightBracket) :
    (expression .suffix (.array elements)).Read (l :: ts) us := by
  intro σ hole own result hs _ _ _ h
  have hstart : hole.start l = some (.elements hole) := by simp [ExpressionHole.start, hl]
  have hstarts : Starts (.elements hole) (.element [] hole) := starts_or_close (by decide) fun _ => rfl
  have hclose : (State.elements hole).take r = some (.operator (.array []) hole) := by
    rw [take_of_kind_ne (by simp [hr]), State.shift, if_pos hr]
  refine accepts_start hs (by simp [hl]) hstart ?_
  exact helements rfl (.inr hr) (hr ▸ listHole_array hole) hstarts hclose h

theorem read_hash {pairs : List (Node × Node)} (hl : l.kind = .leftBrace)
    (hpairs : (entries pairs).Read ts (r :: us)) (hr : r.kind = .rightBrace) :
    (expression .suffix (.hash pairs)).Read (l :: ts) us := by
  intro σ hole own result hs _ _ _ h
  have hstart : hole.start l = some (.entries [] hole) := by simp [ExpressionHole.start, hl]
  exact accepts_start hs (by simp [hl]) hstart (hpairs rfl hr h)

/-! ## Lists -/

theorem closer_facts {close : Token} (h : close.kind = .rightParen ∨ close.kind = .rightBracket)
    (ts : List Token) : Stops .expr (close :: ts) ∧ close.kind.level = .expr ∧
      close.kind ≠ .integer ∧ close.kind ≠ .comma := by
  rcases h with h | h
  · exact ⟨stops_of_kind h rfl (by decide), by rw [h]; rfl, by simp [h], by simp [h]⟩
  · exact ⟨stops_of_kind h rfl (by decide), by rw [h]; rfl, by simp [h], by simp [h]⟩

theorem read_item (he : (expression .expr e).Read ts us) : (items [e]).Read ts us := by
  rintro close rest hole whole before σ result rfl hclose hh hs h
  obtain ⟨hstop, hlow, hk, hcomma⟩ := closer_facts hclose rest
  refine he.whole hs (hh.stays before) hstop ?_
  refine accepts_finish (hh.apply_eq before .expr e) hlow hk ?_ h
  rw [hh.finish_eq, if_neg hcomma, if_pos rfl, List.reverse_cons]

theorem read_moreItems (he : (expression .expr e).Read ts (t :: us)) (ht : t.kind = .comma)
    (hnodes : (items nodes).Read us vs) : (items (e :: nodes)).Read ts vs := by
  rintro close rest hole whole before σ result rfl hclose hh hs h
  have hcomma : (hole before).finish e t = some (.operand (hole (e :: before))) := by
    rw [hh.finish_eq, if_pos ht]
  refine he.whole hs (hh.stays before) (stops_of_kind ht rfl (by decide)) ?_
  refine accepts_finish (hh.apply_eq before .expr e) (by rw [ht]; rfl) (by simp [ht]) hcomma ?_
  refine hnodes rfl hclose hh (starts_operand _) ?_
  rw [List.reverse_cons, List.append_assoc]
  exact h

theorem read_noItems : (list []).Read ts ts := by
  rintro close rest hole whole σ result rfl _ _ _ htake h
  exact accepts_take htake h

theorem read_someItems (hnodes : (items nodes).Read ts us) : (list nodes).Read ts us := by
  rintro close rest hole whole σ result rfl hclose hh hs _ h
  exact hnodes rfl hclose hh hs h

/-! ## Entries and parameters -/

theorem starts_entryKey (before : List (Node × Node)) (hole : ExpressionHole) :
    Starts (.entries before hole) (.entryKey before hole) :=
  starts_or_close (by decide) fun _ => rfl

theorem read_noEntries : (entries []).Read ts ts := by
  rintro close rest before hole result rfl hclose h
  rw [List.append_nil] at h
  refine accepts_take ?_ h
  rw [take_of_kind_ne (by simp [hclose]), State.shift, if_pos hclose]

theorem accepts_entry {key value : Node} {before : List (Node × Node)}
    (hkey : (expression .expr key).Read ts (t :: us)) (ht : t.kind = .colon)
    (hvalue : (expression .expr value).Read us vs) (hstop : Stops .expr vs)
    (h : Accepts (.operator value (.entryValue before key hole)) vs result) :
    Accepts (.entries before hole) ts result := by
  have hcolon : (ExpressionHole.entryKey before hole).finish key t =
      some (.operand (.entryValue before key hole)) := by simp [ExpressionHole.finish, ht]
  refine hkey.whole (starts_entryKey before hole) trivial (stops_of_kind ht rfl (by decide)) ?_
  refine accepts_finish rfl (by rw [ht]; rfl) (by simp [ht]) hcolon ?_
  exact hvalue.whole (starts_operand _) trivial hstop h

theorem read_entry {key value : Node} (hkey : (expression .expr key).Read ts (t :: us))
    (ht : t.kind = .colon) (hvalue : (expression .expr value).Read us vs) :
    (entries [(key, value)]).Read ts vs := by
  rintro close rest before hole result rfl hclose h
  have hfinish : (ExpressionHole.entryValue before key hole).finish value close =
      some (.operator (.hash ((key, value) :: before).reverse) hole) := by
    simp [ExpressionHole.finish, hclose]
  refine accepts_entry hkey ht hvalue (stops_of_kind hclose rfl (by decide)) ?_
  refine accepts_finish rfl (by rw [hclose]; rfl) (by simp [hclose]) hfinish ?_
  rw [List.reverse_cons]
  exact h

theorem read_moreEntries {key value : Node} {pairs : List (Node × Node)}
    (hkey : (expression .expr key).Read ts (t :: us)) (ht : t.kind = .colon)
    (hvalue : (expression .expr value).Read us (u :: vs)) (hu : u.kind = .comma)
    (hpairs : (entries pairs).Read vs ws) : (entries ((key, value) :: pairs)).Read ts ws := by
  rintro close rest before hole result rfl hclose h
  have hfinish : (ExpressionHole.entryValue before key hole).finish value u =
      some (.entries ((key, value) :: before) hole) := by simp [ExpressionHole.finish, hu]
  refine accepts_entry hkey ht hvalue (stops_of_kind hu rfl (by decide)) ?_
  refine accepts_finish rfl (by rw [hu]; rfl) (by simp [hu]) hfinish (hpairs rfl hclose ?_)
  rw [List.reverse_cons, List.append_assoc]
  exact h

theorem read_name (ht : t.kind = .identifier) : (names [t.value]).Read (t :: ts) ts := by
  rintro close rest before hole σ result rfl hclose hσ h
  refine accepts_take (hσ t ht) (accepts_take ?_ h)
  rw [take_of_kind_ne (by simp [hclose]), State.shift]
  simp [hclose]

theorem read_moreNames {xs : List String} (ht : t.kind = .identifier) (hu : u.kind = .comma)
    (hxs : (names xs).Read ts us) : (names (t.value :: xs)).Read (t :: u :: ts) us := by
  rintro close rest before hole σ result rfl hclose hσ h
  have hcomma : (State.parameterEnd (t.value :: before) hole).take u =
      some (.nextParameter (t.value :: before) hole) := by
    rw [take_of_kind_ne (by simp [hu]), State.shift]
    simp [hu]
  have hnext : ∀ v : Token, v.kind = .identifier → (State.nextParameter (t.value :: before) hole).take v =
      some (.parameterEnd (v.value :: t.value :: before) hole) := by
    intro v hv
    rw [take_of_kind_ne (by simp [hv]), State.shift, shiftKind, if_pos hv]
  refine accepts_take (hσ t ht) (accepts_take hcomma (hxs rfl hclose hnext ?_))
  rw [List.reverse_cons, List.append_assoc]
  exact h

theorem read_noParameters : (parameters []).Read ts ts := by
  rintro close rest hole result rfl hclose h
  refine accepts_take ?_ h
  rw [take_of_kind_ne (by simp [hclose]), State.shift, if_pos hclose]

theorem read_someParameters {xs : List String} (hxs : (names xs).Read ts us) :
    (parameters xs).Read ts us := by
  rintro close rest hole result rfl hclose h
  have hfirst : ∀ v : Token, v.kind = .identifier → (State.parameterList hole).take v =
      some (.parameterEnd (v.value :: []) hole) := by
    intro v hv
    rw [take_of_kind_ne (by simp [hv]), State.shift, if_neg (by simp [hv]), shiftKind, if_pos hv]
  exact hxs rfl hclose hfirst h

/-! ## Blocks -/

theorem foldl_add {hole : List Node → StatementHole}
    (hadd : ∀ before node, (hole before).add node = hole (node :: before)) (nodes before : List Node) :
    nodes.foldl (fun hole node => hole.add node) (hole before) = hole (nodes.reverse ++ before) := by
  induction nodes generalizing before with
  | nil => rfl
  | cons node nodes ih =>
    rw [List.foldl_cons, hadd, ih, List.reverse_cons, List.append_assoc]
    rfl

theorem read_block (hl : l.kind = .leftBrace) (hnodes : (statements nodes).Read ts (r :: us))
    (hr : r.kind = .rightBrace) : (block nodes).Read (l :: ts) us := by
  intro hole whole σ result hh hσ h
  have hclose : (State.statement (hole nodes.reverse)).take r = some (whole (.block nodes)) := by
    rw [take_of_kind_ne (by simp [hr]), State.shift, StatementHole.start, hr]
    have hclose := hh.close_eq nodes.reverse
    rw [List.reverse_reverse] at hclose
    exact hclose
  refine accepts_take (hσ l hl) (hnodes ?_)
  rw [foldl_add hh.add_eq, List.append_nil]
  exact accepts_take hclose h

theorem accepts_condition {condition : Node} {consequence : List Node} (hs : Starts σ hole)
    (ht : t.kind = .ifWord) (hl : l.kind = .leftParen)
    (hcondition : (expression .expr condition).Read ts (r :: us)) (hr : r.kind = .rightParen)
    (hconsequence : (block consequence).Read us vs)
    (h : Accepts (.elseWord condition (.block consequence) hole) vs result) :
    Accepts σ (t :: l :: ts) result := by
  have hif : hole.start t = some (.ifParen hole) := by simp [ExpressionHole.start, ht]
  have hopen : (State.ifParen hole).take l = some (.operand (.condition hole)) := by
    rw [take_of_kind_ne (by simp [hl]), State.shift, shiftKind, if_pos hl]
  have hclose : (ExpressionHole.condition hole).finish condition r = some (.thenBrace condition hole) := by
    simp [ExpressionHole.finish, hr]
  refine accepts_start hs (by simp [ht]) hif (accepts_take hopen ?_)
  refine hcondition.whole (starts_operand _) trivial (stops_of_kind hr rfl (by decide)) ?_
  refine accepts_finish rfl (by rw [hr]; rfl) (by simp [hr]) hclose ?_
  refine hconsequence (blockHole_then condition hole) (fun v hv => ?_) h
  rw [take_of_kind_ne (by simp [hv]), State.shift, shiftKind, if_pos hv]

theorem read_ifThen {condition : Node} {consequence : List Node} (ht : t.kind = .ifWord)
    (hl : l.kind = .leftParen) (hcondition : (expression .expr condition).Read ts (r :: us))
    (hr : r.kind = .rightParen) (hconsequence : (block consequence).Read us vs) :
    (expression .suffix (.ifElse condition (.block consequence) .absent)).Read (t :: l :: ts) vs := by
  intro σ hole own result hs _ _ hstop h
  exact accepts_condition hs ht hl hcondition hr hconsequence (accepts_of_no_else hstop h)

theorem read_ifElse {condition : Node} {consequence alternative : List Node} (ht : t.kind = .ifWord)
    (hl : l.kind = .leftParen) (hcondition : (expression .expr condition).Read ts (r :: us))
    (hr : r.kind = .rightParen) (hconsequence : (block consequence).Read us (u :: vs))
    (hu : u.kind = .elseWord) (halternative : (block alternative).Read vs ws) :
    (expression .suffix (.ifElse condition (.block consequence) (.block alternative))).Read
      (t :: l :: ts) ws := by
  intro σ hole own result hs _ _ _ h
  have helse : (State.elseWord condition (.block consequence) hole).take u =
      some (.elseBrace condition (.block consequence) hole) := by
    rw [take_of_kind_ne (by simp [hu]), State.shift, if_pos hu]
  refine accepts_condition hs ht hl hcondition hr hconsequence (accepts_take helse ?_)
  refine halternative (blockHole_else condition (.block consequence) hole) (fun v hv => ?_) h
  rw [take_of_kind_ne (by simp [hv]), State.shift, shiftKind, if_pos hv]

theorem read_function {xs : List String} {body : List Node} (ht : t.kind = .fnWord)
    (hl : l.kind = .leftParen) (hxs : (parameters xs).Read ts (r :: us)) (hr : r.kind = .rightParen)
    (hbody : (block body).Read us vs) :
    (expression .suffix (.function xs (.block body))).Read (t :: l :: ts) vs := by
  intro σ hole own result hs _ _ _ h
  have hfn : hole.start t = some (.fnParen hole) := by simp [ExpressionHole.start, ht]
  have hopen : (State.fnParen hole).take l = some (.parameterList hole) := by
    rw [take_of_kind_ne (by simp [hl]), State.shift, shiftKind, if_pos hl]
  refine accepts_start hs (by simp [ht]) hfn (accepts_take hopen (hxs rfl hr ?_))
  refine hbody (blockHole_function xs hole) (fun v hv => ?_) h
  rw [take_of_kind_ne (by simp [hv]), State.shift, shiftKind, if_pos hv]

/-! ## Statements -/

theorem read_letStatement {value : Node} {v w : Token} (ht : t.kind = .letWord) (hu : u.kind = .identifier)
    (hv : v.kind = .assign) (hvalue : (expression .expr value).Read ts (w :: us)) (hw : w.kind = .semicolon) :
    (statement true (.letStatement u.value value)).Read (t :: u :: v :: ts) us := by
  intro hole result _ h
  have hlet : (State.statement hole).take t = some (.letName hole) := by
    rw [take_of_kind_ne (by simp [ht]), State.shift, StatementHole.start, ht]
  have hname : (State.letName hole).take u = some (.letAssign u.value hole) := by
    rw [take_of_kind_ne (by simp [hu]), State.shift, shiftKind, if_pos hu]
  have hassign : (State.letAssign u.value hole).take v = some (.operand (.letValue u.value hole)) := by
    rw [take_of_kind_ne (by simp [hv]), State.shift, shiftKind, if_pos hv]
  have hend : (ExpressionHole.letValue u.value hole).finish value w =
      some (.statement (hole.add (.letStatement u.value value))) := by simp [ExpressionHole.finish, hw]
  refine accepts_take hlet (accepts_take hname (accepts_take hassign ?_))
  refine hvalue.whole (starts_operand _) trivial (stops_of_kind hw rfl (by decide)) ?_
  exact accepts_finish rfl (by rw [hw]; rfl) (by simp [hw]) hend h

theorem kind_of_accepts_statement {outer : StatementHole} (h : Accepts (.statement outer) (t :: ts) result) :
    t.kind ≠ .semicolon ∧ t.kind ≠ .elseWord := by
  obtain ⟨σ', htakes, -⟩ := h
  obtain ⟨σ₁, ht, -⟩ := Option.bind_eq_some_iff.1 htakes
  have hstart : outer.start t = some σ₁ := shift_of_take ht
  constructor
  · intro hk
    simp [StatementHole.start, ExpressionHole.start, hk] at hstart
  · intro hk
    simp [StatementHole.start, ExpressionHole.start, hk] at hstart

/-- A statement without a semicolon ends where no operator follows. -/
theorem accepts_open {outer : StatementHole} (happ : hole.apply .expr e = (e, hole))
    (hfinish : ∀ t : Token, t.kind ≠ .semicolon → hole.finish e t = outer.start t)
    (hend : (State.operator e hole).statements? = (State.statement outer).statements?)
    (hshift : ∀ t ∈ ts.head?, t.kind.level = .expr) (h : Accepts (.statement outer) ts result) :
    Accepts (.operator e hole) ts result := by
  cases ts with
  | nil =>
    obtain ⟨σ', htakes, hresult⟩ := h
    cases htakes
    exact ⟨_, rfl, hend.trans hresult⟩
  | cons t ts =>
    obtain ⟨hsemicolon, -⟩ := kind_of_accepts_statement h
    obtain ⟨σ', htakes, hresult⟩ := h
    refine ⟨σ', ?_, hresult⟩
    have hshift : (State.operator e hole).shift t = (State.statement outer).shift t := by
      show hole.proceed e t = outer.start t
      rw [proceed_of_no_operator (hshift t rfl) happ, hfinish t hsemicolon]
    rw [takes_cons, State.take, hshift]
    exact htakes

theorem stops_of_accepts_statement {outer : StatementHole}
    (hshift : ∀ t ∈ ts.head?, t.kind.level = .expr) (h : Accepts (.statement outer) ts result) :
    Stops .expr ts := by
  intro t ht
  cases ts with
  | nil => cases ht
  | cons u ts =>
    obtain rfl : u = t := Option.some.inj ht
    exact ⟨Nat.le_of_eq (congrArg _ (hshift u rfl)), (kind_of_accepts_statement h).2⟩

theorem read_returnStatement {value : Node} (ht : t.kind = .returnWord)
    (hvalue : (expression .expr value).Read ts (u :: us)) (hu : u.kind = .semicolon) :
    (statement true (.returnStatement value)).Read (t :: ts) us := by
  intro hole result _ h
  have hreturn : (State.statement hole).take t = some (.operand (.returnValue hole)) := by
    rw [take_of_kind_ne (by simp [ht]), State.shift, StatementHole.start, ht]
  have hend : (ExpressionHole.returnValue hole).finish value u =
      some (.statement (hole.add (.returnStatement value))) := by simp [ExpressionHole.finish, hu]
  refine accepts_take hreturn ?_
  refine hvalue.whole (starts_operand _) trivial (stops_of_kind hu rfl (by decide)) ?_
  exact accepts_finish rfl (by rw [hu]; rfl) (by simp [hu]) hend h

theorem read_openReturn {value : Node} (ht : t.kind = .returnWord)
    (hvalue : (expression .expr value).Read ts us) :
    (statement false (.returnStatement value)).Read (t :: ts) us := by
  intro hole result hshift h
  have hreturn : (State.statement hole).take t = some (.operand (.returnValue hole)) := by
    rw [take_of_kind_ne (by simp [ht]), State.shift, StatementHole.start, ht]
  have hstop := stops_of_accepts_statement (hshift rfl) h
  refine accepts_take hreturn (hvalue.whole (starts_operand _) trivial hstop ?_)
  refine accepts_open rfl (fun v hv => ?_) ?_ (hshift rfl) h
  · rw [ExpressionHole.finish, if_neg hv]
  · cases hole <;> rfl

theorem starts_statement (outer : StatementHole) : Starts (.statement outer) (.statement outer) := by
  intro t σ' ht
  rw [State.shift, StatementHole.start]
  split
  · next hk => simp [ExpressionHole.start, hk] at ht
  · next hk => simp [ExpressionHole.start, hk] at ht
  · next hk => simp [ExpressionHole.start, hk] at ht
  · exact ht

theorem read_expressionStatement (he : (expression .expr e).Read ts (t :: us))
    (ht : t.kind = .semicolon) : (statement true (.expressionStatement e)).Read ts us := by
  intro hole result _ h
  have hend : (ExpressionHole.statement hole).finish e t =
      some (.statement (hole.add (.expressionStatement e))) := by simp [ExpressionHole.finish, ht]
  refine he.whole (starts_statement hole) trivial (stops_of_kind ht rfl (by decide)) ?_
  exact accepts_finish rfl (by rw [ht]; rfl) (by simp [ht]) hend h

theorem read_openExpression (he : (expression .expr e).Read ts us) :
    (statement false (.expressionStatement e)).Read ts us := by
  intro hole result hshift h
  have hstop := stops_of_accepts_statement (hshift rfl) h
  refine he.whole (starts_statement hole) trivial hstop ?_
  refine accepts_open rfl (fun v hv => ?_) ?_ (hshift rfl) h
  · rw [ExpressionHole.finish, if_neg hv]
  · cases hole <;> rfl

theorem read_moreStatements {ended : Bool} {node : Node} (hnode : (statement ended node).Read ts us)
    (hnodes : (statements nodes).Read us vs)
    (hshift : ended = false → ∀ t ∈ us.head?, t.kind.level = .expr) :
    (statements (node :: nodes)).Read ts vs := by
  intro hole result h
  exact hnode hshift (hnodes h)

/-! ## Whole programs -/

theorem read_of_derives {category : Category} (h : Derives category ts us) : category.Read ts us := by
  induction h with
  | raise hle _ he => exact read_raise hle he
  | binary hlow hhigh htight _ _ hleft hright => exact read_binary hlow hhigh htight hleft hright
  | unary ht _ he => exact read_unary ht he
  | call _ hl _ hr hcallee harguments => exact read_call hcallee hl harguments hr
  | index _ hl _ hr hleft hposition => exact read_index hleft hl hposition hr
  | identifier ht => exact read_atom (not_tooLarge_of_kind (by simp [ht])) (by simp [ExpressionHole.start, ht])
  | integer ht hsmall => exact read_atom hsmall (by simp [ExpressionHole.start, ht])
  | string ht => exact read_atom (not_tooLarge_of_kind (by simp [ht])) (by simp [ExpressionHole.start, ht])
  | trueWord ht => exact read_atom (not_tooLarge_of_kind (by simp [ht])) (by simp [ExpressionHole.start, ht])
  | falseWord ht => exact read_atom (not_tooLarge_of_kind (by simp [ht])) (by simp [ExpressionHole.start, ht])
  | group hl _ hr he => exact read_group hl he hr
  | ifThen ht hl _ hr _ hcondition hconsequence => exact read_ifThen ht hl hcondition hr hconsequence
  | ifElse ht hl _ hr _ hu _ hcondition hconsequence halternative =>
    exact read_ifElse ht hl hcondition hr hconsequence hu halternative
  | function ht hl _ hr _ hxs hbody => exact read_function ht hl hxs hr hbody
  | array hl _ hr helements => exact read_array hl helements hr
  | hash hl _ hr hpairs => exact read_hash hl hpairs hr
  | item _ he => exact read_item he
  | moreItems _ ht _ he hnodes => exact read_moreItems he ht hnodes
  | noItems => exact read_noItems
  | someItems _ hnodes => exact read_someItems hnodes
  | name ht => exact read_name ht
  | moreNames ht hu _ hxs => exact read_moreNames ht hu hxs
  | noParameters => exact read_noParameters
  | someParameters _ hxs => exact read_someParameters hxs
  | noEntries => exact read_noEntries
  | entry _ ht _ hkey hvalue => exact read_entry hkey ht hvalue
  | moreEntries _ ht _ hu _ hkey hvalue hpairs => exact read_moreEntries hkey ht hvalue hu hpairs
  | block hl _ hr hnodes => exact read_block hl hnodes hr
  | letStatement ht hu hv _ hw hvalue => exact read_letStatement ht hu hv hvalue hw
  | returnStatement ht _ hu hvalue => exact read_returnStatement ht hvalue hu
  | openReturn ht _ hvalue => exact read_openReturn ht hvalue
  | expressionStatement _ ht he => exact read_expressionStatement he ht
  | openExpression _ he => exact read_openExpression he
  | noStatements => exact fun h => h
  | moreStatements _ _ hshift hnode hnodes => exact read_moreStatements hnode hnodes hshift

theorem accepts_of_derives (h : Derives (statements nodes) ts []) : Accepts .initial ts nodes := by
  have hread : (statements nodes).Read ts [] := read_of_derives h
  refine @hread (.program []) nodes ?_
  rw [foldl_add (fun _ _ => rfl), List.append_nil]
  exact ⟨_, rfl, by rw [State.statements?, List.reverse_reverse]⟩

end MonkeyLanguage
