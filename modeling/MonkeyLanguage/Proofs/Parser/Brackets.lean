import MonkeyLanguage.Proofs.Parser.Language

/-!
# Brackets in programs

In a program each bracket that is opened is closed by one of its own kind, and what stands between the two is
balanced in its turn (`balanced_of_parse`).  Where balanced tokens are cut, the brackets that are opened before the cut
and not closed are those that are closed behind it (`Balanced.cut`).
-/

namespace MonkeyLanguage

/-- The kind of bracket that closes one of this kind. -/
def Token.Kind.closer? : Token.Kind → Option Token.Kind
  | leftParen => some rightParen
  | leftBrace => some rightBrace
  | leftBracket => some rightBracket
  | _ => none

def Token.Kind.isBracket (kind : Token.Kind) : Bool :=
  kind.isOpener || kind.isCloser

/-- All brackets among the tokens are closed in order. -/
inductive Balanced : List Token → Prop where
  | nil : Balanced []
  | token {t : Token} {ts : List Token} (ht : t.kind.isBracket = false) (hts : Balanced ts) : Balanced (t :: ts)
  | brackets {l r : Token} {ts us : List Token} (hlr : l.kind.closer? = some r.kind) (hts : Balanced ts)
    (hus : Balanced us) : Balanced (l :: (ts ++ r :: us))

theorem Balanced.append {ts us : List Token} (h : Balanced ts) (h' : Balanced us) : Balanced (ts ++ us) := by
  induction h with
  | nil => exact h'
  | token ht _ ih => exact .token ht ih
  | brackets hlr hts _ _ ih =>
    rw [List.cons_append, List.append_assoc]
    exact .brackets hlr hts ih

/-- Two lists that are balanced together: the brackets that the first leaves open, from outside to inside, are closed
in the second. -/
inductive BalancedCut : List Token → List Token → Prop where
  | between {xs ys : List Token} (hxs : Balanced xs) (hys : Balanced ys) : BalancedCut xs ys
  | inside {before xs ys after : List Token} {l r : Token} (hbefore : Balanced before)
    (hlr : l.kind.closer? = some r.kind) (h : BalancedCut xs ys) (hafter : Balanced after) :
    BalancedCut (before ++ l :: xs) (ys ++ r :: after)

theorem BalancedCut.balanced {xs ys : List Token} (h : BalancedCut xs ys) : Balanced (xs ++ ys) := by
  induction h with
  | between hxs hys => exact hxs.append hys
  | @inside before xs ys after l r hbefore hlr _ hafter ih =>
    have hall := hbefore.append (.brackets hlr ih hafter)
    rwa [List.append_assoc] at hall ⊢

theorem BalancedCut.prepend {front xs ys : List Token} (hfront : Balanced front) (h : BalancedCut xs ys) :
    BalancedCut (front ++ xs) ys := by
  cases h with
  | between hxs hys => exact .between (hfront.append hxs) hys
  | inside hbefore hlr h hafter =>
    rw [← List.append_assoc]
    exact .inside (hfront.append hbefore) hlr h hafter

theorem Balanced.cut {xs ys : List Token} (h : Balanced (xs ++ ys)) : BalancedCut xs ys := by
  generalize hall : xs ++ ys = all at h
  induction h generalizing xs ys with
  | nil =>
    obtain ⟨rfl, rfl⟩ := List.append_eq_nil_iff.1 hall
    exact .between .nil .nil
  | @token t ts ht hts ih =>
    cases xs with
    | nil =>
      obtain rfl : ys = t :: ts := hall
      exact .between .nil (.token ht hts)
    | cons x xs =>
      obtain ⟨rfl, hrest⟩ := List.cons.inj hall
      exact (ih hrest).prepend (.token ht .nil)
  | @brackets l r ts us hlr hts hus ihts ihus =>
    cases xs with
    | nil =>
      obtain rfl : ys = l :: (ts ++ r :: us) := hall
      exact .between .nil (.brackets hlr hts hus)
    | cons x xs =>
      obtain ⟨rfl, hrest⟩ := List.cons.inj hall
      rcases List.append_eq_append_iff.1 hrest with ⟨inside', rfl, rfl⟩ | ⟨behind, rfl, hbehind⟩
      · exact .inside .nil hlr (ihts rfl) hus
      cases behind with
      | nil =>
        obtain rfl : r :: us = ys := hbehind
        rw [List.append_nil]
        exact .inside .nil hlr (.between hts .nil) hus
      | cons y behind =>
        obtain ⟨rfl, hus⟩ := List.cons.inj hbehind
        have hclosed := (ihus hus.symm).prepend (.brackets hlr hts .nil)
        rwa [List.cons_append, List.append_assoc] at hclosed

/-- The tokens of the first list in front of the second are balanced. -/
def BalancedUpTo (ts us : List Token) : Prop :=
  ∃ front, ts = front ++ us ∧ Balanced front

namespace BalancedUpTo

variable {l r t : Token} {ts us vs : List Token}

theorem refl (ts : List Token) : BalancedUpTo ts ts :=
  ⟨[], rfl, .nil⟩

theorem trans (h : BalancedUpTo ts us) (h' : BalancedUpTo us vs) : BalancedUpTo ts vs := by
  obtain ⟨front, rfl, hfront⟩ := h
  obtain ⟨middle, rfl, hmiddle⟩ := h'
  exact ⟨front ++ middle, (List.append_assoc ..).symm, hfront.append hmiddle⟩

theorem token (ht : t.kind.isBracket = false) (h : BalancedUpTo ts us) : BalancedUpTo (t :: ts) us := by
  obtain ⟨front, rfl, hfront⟩ := h
  exact ⟨t :: front, rfl, .token ht hfront⟩

theorem past (h : BalancedUpTo ts (t :: us)) (ht : t.kind.isBracket = false) (h' : BalancedUpTo us vs) :
    BalancedUpTo ts vs :=
  h.trans (h'.token ht)

theorem brackets (h : BalancedUpTo ts (r :: us)) (hlr : l.kind.closer? = some r.kind) :
    BalancedUpTo (l :: ts) us := by
  obtain ⟨front, rfl, hfront⟩ := h
  exact ⟨l :: (front ++ [r]), by simp, .brackets hlr hfront .nil⟩

end BalancedUpTo

open BalancedUpTo

theorem isBracket_of_infixLevel? {kind : Token.Kind} (hlow : .expr < kind.level)
    (hhigh : kind.level < .unary) : kind.isBracket = false := by
  cases kind with
  | leftParen | leftBracket => exact absurd hhigh (by decide)
  | leftBrace | rightParen | rightBrace | rightBracket => exact absurd hlow (by decide)
  | _ => rfl

theorem balancedUpTo_of_derives {category : Category} {ts us : List Token} (h : Derives category ts us) :
    BalancedUpTo ts us := by
  have isBracket {t : Token} {kind : Token.Kind} (ht : t.kind = kind) (h : kind.isBracket = false) :
      t.kind.isBracket = false := by
    rw [ht, h]
  have closer {l r : Token} {kind kind' : Token.Kind} (hl : l.kind = kind) (hr : r.kind = kind')
      (h : kind.closer? = some kind') : l.kind.closer? = some r.kind := by
    rw [hl, hr, h]
  induction h with
  | raise _ _ ih | item _ ih | someItems _ ih | someParameters _ ih | openExpression _ ih => exact ih
  | noItems | noParameters | noEntries | noStatements => exact refl _
  | binary hlow hhigh _ _ _ ihleft ihright => exact ihleft.past (isBracket_of_infixLevel? hlow hhigh) ihright
  | unary ht _ ih => exact ih.token (by rcases ht with ht | ht <;> rw [ht] <;> rfl)
  | call _ hl _ hr ihcallee iharguments => exact ihcallee.trans (iharguments.brackets (closer hl hr rfl))
  | index _ hl _ hr ihleft ihposition => exact ihleft.trans (ihposition.brackets (closer hl hr rfl))
  | identifier ht | integer ht | string ht | trueWord ht | falseWord ht | name ht =>
    exact (refl _).token (isBracket ht rfl)
  | group hl _ hr ih | array hl _ hr ih | hash hl _ hr ih | block hl _ hr ih =>
    exact ih.brackets (closer hl hr rfl)
  | ifThen ht hl _ hr _ ihcondition ihconsequence =>
    exact ((ihcondition.brackets (closer hl hr rfl)).trans ihconsequence).token (isBracket ht rfl)
  | ifElse ht hl _ hr _ hu _ ihcondition ihconsequence ihalternative =>
    refine ((ihcondition.brackets (closer hl hr rfl)).trans ?_).token (isBracket ht rfl)
    exact ihconsequence.past (isBracket hu rfl) ihalternative
  | function ht hl _ hr _ ihparameters ihbody =>
    exact ((ihparameters.brackets (closer hl hr rfl)).trans ihbody).token (isBracket ht rfl)
  | moreItems _ ht _ ihe ihnodes => exact ihe.past (isBracket ht rfl) ihnodes
  | moreNames ht hu _ ih => exact (ih.token (isBracket hu rfl)).token (isBracket ht rfl)
  | entry _ ht _ ihkey ihvalue => exact ihkey.past (isBracket ht rfl) ihvalue
  | moreEntries _ ht _ hu _ ihkey ihvalue ihpairs =>
    exact ihkey.past (isBracket ht rfl) (ihvalue.past (isBracket hu rfl) ihpairs)
  | letStatement ht hu hv _ hw ih =>
    have hvalue := ih.past (isBracket hw rfl) (refl _)
    exact ((hvalue.token (isBracket hv rfl)).token (isBracket hu rfl)).token (isBracket ht rfl)
  | returnStatement ht _ hu ih => exact (ih.past (isBracket hu rfl) (refl _)).token (isBracket ht rfl)
  | openReturn ht _ ih => exact ih.token (isBracket ht rfl)
  | expressionStatement _ ht ih => exact ih.past (isBracket ht rfl) (refl _)
  | moreStatements _ _ _ ihnode ihnodes => exact ihnode.trans ihnodes

theorem balanced_of_parse {frontEnd : FrontEnd} {source : String} {nodes : List Node}
    (h : frontEnd.parse source = (nodes, [])) : Balanced (tokensOf source) := by
  obtain ⟨front, hfront, hbalanced⟩ := balancedUpTo_of_derives (parse_eq_iff_derives.1 h)
  rw [hfront, List.append_nil]
  exact hbalanced

end MonkeyLanguage
