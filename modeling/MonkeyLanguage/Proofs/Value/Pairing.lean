import Mathlib.Data.List.Forall2
import Mathlib.Data.Option.Basic
import MonkeyLanguage.Proofs.Parts
import MonkeyLanguage.Value.Operators

/-!
# Values of two worlds

Where two worlds hold the same data, their scopes and functions may have other numbers.  A `Pairing` says which
numbers belong together, and values of the two worlds are paired if they are the same but for these
(`Value.Paired`).  Then operators and builtins give paired values and print the same (`apply_paired`), and the texts
of the values are the same (`Value.Paired.render_eq`).

The bodies of the functions in paired values avoid the hidden names: they look none of them up.
-/

namespace MonkeyLanguage

/-! ## Lists and maps that are related -/

section Related

variable {α κ : Type} {r : α → α → Prop} {as bs : List α} {x y : Option α} {a b : α}

theorem rel_getElem? (h : List.Forall₂ r as bs) (n : Nat) : Option.Rel r as[n]? bs[n]? := by
  induction h generalizing n with
  | nil => exact .none
  | cons h _ ih =>
    cases n with
    | zero => exact .some h
    | succ n => exact ih n

theorem rel_getD (h : Option.Rel r x y) (hdefault : r a b) : r (x.getD a) (y.getD b) := by
  cases h with
  | some h => exact h
  | none => exact hdefault

theorem exists_singletons (h : List.Forall₂ r as bs) (hlength : as.length = 1) :
    ∃ a b, as = [a] ∧ bs = [b] ∧ r a b := by
  obtain ⟨a, rfl⟩ := List.length_eq_one_iff.1 hlength
  obtain ⟨b, _, hab, hnil, rfl⟩ := List.forall₂_cons_left_iff.1 h
  cases hnil
  exact ⟨a, b, rfl, rfl, hab⟩

theorem rel_zip (keys : List κ) (h : List.Forall₂ r as bs) :
    List.Forall₂ (Prod.RProd Eq r) (keys.zip as) (keys.zip bs) := by
  induction h generalizing keys with
  | nil => cases keys <;> exact .nil
  | cons h _ ih =>
    cases keys with
    | nil => exact .nil
    | cons key keys => exact .cons (.intro rfl h) (ih keys)

namespace OrderedMap

variable [DecidableEq κ] {ps qs : OrderedMap κ α}

theorem rel_get? (h : List.Forall₂ (Prod.RProd Eq r) ps qs) (k : κ) : Option.Rel r (get? ps k) (get? qs k) := by
  induction h with
  | nil => exact .none
  | cons h _ ih =>
    obtain ⟨rfl, h⟩ := h
    rw [get?, get?]
    split
    · exact .some h
    · exact ih

theorem rel_insert (h : List.Forall₂ (Prod.RProd Eq r) ps qs) (k : κ) (hab : r a b) :
    List.Forall₂ (Prod.RProd Eq r) (insert ps k a) (insert qs k b) := by
  induction h with
  | nil => exact .cons (.intro rfl hab) .nil
  | cons h htail ih =>
    obtain ⟨rfl, h⟩ := h
    rw [insert, insert]
    split
    · exact .cons (.intro rfl hab) htail
    · exact .cons (.intro rfl h) ih

theorem rel_ofList {pairs pairs' : List (κ × α)} (h : List.Forall₂ (Prod.RProd Eq r) pairs pairs') :
    List.Forall₂ (Prod.RProd Eq r) (ofList pairs) (ofList pairs') := by
  have hfold {m m' : OrderedMap κ α} (hm : List.Forall₂ (Prod.RProd Eq r) m m') :
      List.Forall₂ (Prod.RProd Eq r) (pairs.foldl (fun m pair => insert m pair.1 pair.2) m)
        (pairs'.foldl (fun m pair => insert m pair.1 pair.2) m') := by
    induction h generalizing m m' with
    | nil => exact hm
    | cons h _ ih =>
      obtain ⟨rfl, h⟩ := h
      exact ih (rel_insert hm _ h)
  exact hfold .nil

end OrderedMap

end Related

/-! ## Pairings -/

/-- Which scopes and functions of one world belong to which of another. -/
structure Pairing where
  scope : ScopeId → ScopeId → Prop
  identity : Nat → Nat → Prop
  scope_eq_iff {a a' b b'} (h : scope a a') (h' : scope b b') : a = b ↔ a' = b'
  identity_eq_iff {a a' b b'} (h : identity a a') (h' : identity b b') : a = b ↔ a' = b'

/-- No hidden name is looked up in the tree. -/
def Node.Avoids (hidden : String → Prop) (node : Node) : Prop :=
  node.Every fun part => ∀ name, part = .identifier name → ¬hidden name

theorem Node.avoids_nothing (node : Node) : node.Avoids fun _ => False :=
  node.induction_on_parts fun _ hparts => ⟨fun _ _ => id, hparts⟩

namespace Value

/-- The values are the same but for the numbers of scopes and functions, which are paired, and their functions avoid
the hidden names. -/
inductive Paired (P : Pairing) (hidden : String → Prop) : Value → Value → Prop where
  | null : Paired P hidden null null
  | integer (n : Int) : Paired P hidden (integer n) (integer n)
  | boolean (x : Bool) : Paired P hidden (boolean x) (boolean x)
  | string (s : String) : Paired P hidden (string s) (string s)
  | array {as bs : List Value} (h : List.Forall₂ (Paired P hidden) as bs) : Paired P hidden (array as) (array bs)
  | hash {ps qs : List (HashKey × Value)} (h : List.Forall₂ (Prod.RProd Eq (Paired P hidden)) ps qs) :
    Paired P hidden (hash ps) (hash qs)
  | function {identity identity' : Nat} {parameters : List String} {body : Node} {scope scope' : ScopeId}
    (hidentity : P.identity identity identity') (hbody : body.Avoids hidden) (hscope : P.scope scope scope') :
    Paired P hidden (function identity parameters body scope) (function identity' parameters body scope')
  | builtin (b : Builtin) : Paired P hidden (builtin b) (builtin b)
  | returned {a b : Value} (h : Paired P hidden a b) : Paired P hidden (returned a) (returned b)
  | error (e : RuntimeError) : Paired P hidden (error e) (error e)

variable {P : Pairing} {hidden : String → Prop} {a a' b b' v v' : Value}

namespace Paired

/-! ## What does not depend on the numbers -/

theorem type_eq (h : v.Paired P hidden v') : v.type = v'.type := by
  cases h <;> rfl

theorem hashKey?_eq (h : v.Paired P hidden v') : v.hashKey? = v'.hashKey? := by
  cases h <;> rfl

theorem isTruthy_eq (h : v.Paired P hidden v') : v.isTruthy = v'.isTruthy := by
  cases h <;> rfl

theorem unwrapReturned (h : v.Paired P hidden v') : v.unwrapReturned.Paired P hidden v'.unwrapReturned := by
  have hself := h
  cases h with
  | returned h => exact h
  | _ => exact hself

mutual

theorem render_eq : (v : Value) → {v' : Value} → v.Paired P hidden v' → v.render = v'.render
  | .null, _, h | .integer _, _, h | .boolean _, _, h | .string _, _, h | .builtin _, _, h | .error _, _, h
  | .function .., _, h => by cases h; rfl
  | .array as, _, h => by
    cases h with
    | array h => rw [render, render, renderElements_eq as h]
  | .hash ps, _, h => by
    cases h with
    | hash h => rw [render, render, renderEntries_eq ps h]
  | .returned v, _, h => by
    cases h with
    | returned h => rw [render, render, render_eq v h]

theorem renderElements_eq : (as : List Value) → {bs : List Value} → List.Forall₂ (Paired P hidden) as bs →
    renderElements as = renderElements bs
  | [], _, h => by cases h; rfl
  | a :: as, _, h => by
    cases h with
    | cons h hs => rw [renderElements, renderElements, render_eq a h, renderElements_eq as hs]

theorem renderEntries_eq : (ps : List (HashKey × Value)) → {qs : List (HashKey × Value)} →
    List.Forall₂ (Prod.RProd Eq (Paired P hidden)) ps qs → renderEntries ps = renderEntries qs
  | [], _, h => by cases h; rfl
  | (k, a) :: ps, _, h => by
    cases h with
    | cons h hs =>
      obtain ⟨rfl, h⟩ := h
      rw [renderEntries, renderEntries, render_eq a h, renderEntries_eq ps hs]

end

theorem display_eq (h : v.Paired P hidden v') : v.display = v'.display := by
  have hrender := render_eq v h
  cases h with
  | string s => rfl
  | _ => exact hrender

/-! ## Equality -/

mutual

theorem same_eq : (b : Value) → {a a' b' : Value} → a.Paired P hidden a' → b.Paired P hidden b' →
    same a b = same a' b'
  | .null, _, _, _, ha, hb | .integer _, _, _, _, ha, hb | .boolean _, _, _, _, ha, hb | .string _, _, _, _, ha, hb
  | .builtin _, _, _, _, ha, hb | .error _, _, _, _, ha, hb => by cases hb; cases ha <;> rfl
  | .function .., _, _, _, ha, hb => by
    cases hb with
    | function hb =>
      cases ha with
      | function ha => rw [same, same, Bool.eq_iff_iff, beq_iff_eq, beq_iff_eq, P.identity_eq_iff ha hb]
      | _ => rfl
  | .array bs, _, _, _, ha, hb => by
    cases hb with
    | array hb =>
      cases ha with
      | array ha => exact sameElements_eq bs ha hb
      | _ => rfl
  | .hash qs, _, _, _, ha, hb => by
    cases hb with
    | hash hb =>
      cases ha with
      | hash ha => rw [same, same, ha.length_eq, hb.length_eq, sameEntries_eq qs ha hb]
      | _ => rfl
  | .returned b, _, _, _, ha, hb => by
    cases hb with
    | returned hb =>
      cases ha with
      | returned ha => rw [same, same, same_eq b ha hb]
      | _ => rfl

theorem sameElements_eq : (bs : List Value) → {as as' bs' : List Value} → List.Forall₂ (Paired P hidden) as as' →
    List.Forall₂ (Paired P hidden) bs bs' → sameElements as bs = sameElements as' bs'
  | [], _, _, _, has, hbs => by cases hbs; cases has <;> rfl
  | b :: bs, _, _, _, has, hbs => by
    cases hbs with
    | cons hb hbs =>
      cases has with
      | nil => rfl
      | cons ha has => rw [sameElements, sameElements, same_eq b ha hb, sameElements_eq bs has hbs]

theorem sameEntries_eq : (qs : List (HashKey × Value)) → {ps ps' qs' : List (HashKey × Value)} →
    List.Forall₂ (Prod.RProd Eq (Paired P hidden)) ps ps' → List.Forall₂ (Prod.RProd Eq (Paired P hidden)) qs qs' →
      sameEntries ps qs = sameEntries ps' qs'
  | [], _, _, _, _, hqs => by cases hqs; rw [sameEntries, sameEntries]
  | (k, b) :: qs, ps, ps', _, hps, hqs => by
    cases hqs with
    | @cons _ pair _ _ hb hqs =>
      obtain ⟨_, b'⟩ := pair
      obtain ⟨rfl, hb⟩ := hb
      have hany : ∀ {ps ps' : List (HashKey × Value)}, List.Forall₂ (Prod.RProd Eq (Paired P hidden)) ps ps' →
          (ps.any fun p => p.1 == k && same p.2 b) = ps'.any fun p => p.1 == k && same p.2 b' := by
        intro ps ps' hps
        induction hps with
        | nil => rfl
        | cons ha _ ih =>
          obtain ⟨rfl, ha⟩ := ha
          rw [List.any_cons, List.any_cons, ih, same_eq b ha hb]
      rw [sameEntries, sameEntries, hany hps, sameEntries_eq qs hps hqs]

end

theorem beq_eq (ha : a.Paired P hidden a') (hb : b.Paired P hidden b') : (a == b) = (a' == b') := by
  rw [beq_eq_same, beq_eq_same, same_eq b ha hb]

/-! ## Operators -/

theorem applyUnary_of_ne {operator : String} (h : v.Paired P hidden v') (hbang : operator ≠ "!")
    (hinteger : ∀ n, v ≠ .integer n) :
    (v.applyUnary operator).Paired P hidden (v'.applyUnary operator) := by
  rw [Value.applyUnary.eq_3 operator v hbang fun n _ hv => hinteger n hv, Value.applyUnary.eq_3 operator v' hbang,
    h.type_eq]
  · exact .error _
  · rintro n - rfl
    cases h
    exact hinteger n rfl

theorem applyUnary (operator : String) (h : v.Paired P hidden v') :
    (v.applyUnary operator).Paired P hidden (v'.applyUnary operator) := by
  by_cases hbang : operator = "!"
  · subst hbang
    rw [Value.applyUnary, Value.applyUnary, h.isTruthy_eq]
    exact .boolean _
  · cases v with
    | integer n =>
      cases h
      unfold Value.applyUnary
      split <;> constructor
    | _ => exact applyUnary_of_ne h hbang nofun

theorem applyIntegers (operator : String) (m n : Int) :
    (Value.applyIntegers operator m n).Paired P hidden (Value.applyIntegers operator m n) := by
  unfold Value.applyIntegers
  repeat' split
  all_goals constructor

theorem applyStrings (operator : String) (s t : String) :
    (Value.applyStrings operator s t).Paired P hidden (Value.applyStrings operator s t) := by
  unfold Value.applyStrings
  split <;> constructor

theorem applyBinary_of_ne {operator : String} (ha : a.Paired P hidden a') (hb : b.Paired P hidden b')
    (hintegers : ∀ m n, a = .integer m → b = .integer n → False)
    (hstrings : ∀ s t, a = .string s → b = .string t → False) :
    (Value.applyBinary operator a b).Paired P hidden (Value.applyBinary operator a' b') := by
  rw [Value.applyBinary.eq_3 _ _ _ hintegers hstrings, Value.applyBinary.eq_3 operator a' b', ha.beq_eq hb, ha.type_eq,
    hb.type_eq]
  · repeat' split
    all_goals constructor
  · rintro m n rfl rfl
    cases ha
    cases hb
    exact hintegers m n rfl rfl
  · rintro s t rfl rfl
    cases ha
    cases hb
    exact hstrings s t rfl rfl

theorem applyBinary (operator : String) (ha : a.Paired P hidden a') (hb : b.Paired P hidden b') :
    (Value.applyBinary operator a b).Paired P hidden (Value.applyBinary operator a' b') := by
  cases a with
  | integer m =>
    cases b with
    | integer n =>
      cases ha
      cases hb
      exact applyIntegers operator m n
    | _ => exact applyBinary_of_ne ha hb nofun nofun
  | string s =>
    cases b with
    | string t =>
      cases ha
      cases hb
      exact applyStrings operator s t
    | _ => exact applyBinary_of_ne ha hb nofun nofun
  | _ => exact applyBinary_of_ne ha hb nofun nofun

theorem applyIndex (ha : a.Paired P hidden a') (hb : b.Paired P hidden b') :
    (a.applyIndex b).Paired P hidden (a'.applyIndex b') := by
  cases ha with
  | array has =>
    cases hb with
    | integer i =>
      rw [Value.applyIndex, Value.applyIndex]
      split
      · exact .null
      · exact rel_getD (rel_getElem? has _) .null
    | _ => constructor
  | hash hps =>
    rw [Value.applyIndex, Value.applyIndex, hb.hashKey?_eq, hb.type_eq]
    split
    · exact rel_getD (OrderedMap.rel_get? hps _) .null
    · exact .error _
  | _ =>
    show Paired P hidden (.error (.notIndexable _ b.type)) (.error (.notIndexable _ b'.type))
    rw [hb.type_eq]
    exact .error _

theorem length (h : v.Paired P hidden v') : v.length.Paired P hidden v'.length := by
  cases h with
  | array h =>
    rw [Value.length, Value.length, h.length_eq]
    exact .integer _
  | _ => constructor

end Paired

end Value

/-! ## Builtins -/

namespace Builtin

variable {P : Pairing} {hidden : String → Prop} {v v' : Value} {vs vs' : List Value}

theorem onArray_paired (b : Builtin) {f g : List Value → Value}
    (hfg : ∀ {as bs}, List.Forall₂ (Value.Paired P hidden) as bs → (f as).Paired P hidden (g bs))
    (h : v.Paired P hidden v') : (b.onArray f v).Paired P hidden (b.onArray g v') := by
  cases h with
  | array h => exact hfg h
  | _ => constructor

/-- With a wrong number of arguments, a builtin tells the right one. -/
theorem apply_of_length_ne {b : Builtin} {n : Nat} (harity : b.arity = some n) (h : vs.length ≠ n) :
    b.apply vs = (.error (.wrongBuiltinArgumentCount b n vs.length), "") := by
  cases b with
  | puts | print => cases harity
  | push =>
    obtain rfl := Option.some.inj harity
    match vs with
    | [] | [_] | _ :: _ :: _ :: _ => rfl
    | [_, _] => exact absurd rfl h
  | _ =>
    obtain rfl := Option.some.inj harity
    match vs with
    | [] | _ :: _ :: _ => rfl
    | [_] => exact absurd rfl h

theorem apply_paired (b : Builtin) (h : List.Forall₂ (Value.Paired P hidden) vs vs') :
    (b.apply vs).1.Paired P hidden (b.apply vs').1 ∧ (b.apply vs).2 = (b.apply vs').2 := by
  have hdisplay (f : String → String) : vs.map (fun v => f v.display) = vs'.map fun v => f v.display := by
    induction h with
    | nil => rfl
    | cons h _ ih => rw [List.map_cons, List.map_cons, h.display_eq, ih]
  by_cases hlength : ∀ n, b.arity = some n → vs.length = n
  · cases b with
    | puts => exact ⟨.null, congrArg String.join (hdisplay (· ++ "\n"))⟩
    | print => exact ⟨.null, congrArg (fun texts => " ".intercalate texts ++ "\n") (hdisplay id)⟩
    | len =>
      obtain ⟨v, v', rfl, rfl, hv⟩ := exists_singletons h (hlength 1 rfl)
      exact ⟨hv.length, rfl⟩
    | first =>
      obtain ⟨v, v', rfl, rfl, hv⟩ := exists_singletons h (hlength 1 rfl)
      refine ⟨onArray_paired first (fun {as bs} has => rel_getD ?_ .null) hv, rfl⟩
      rw [List.head?_eq_getElem?, List.head?_eq_getElem?]
      exact rel_getElem? has 0
    | last =>
      obtain ⟨v, v', rfl, rfl, hv⟩ := exists_singletons h (hlength 1 rfl)
      refine ⟨onArray_paired last (fun {as bs} has => rel_getD ?_ .null) hv, rfl⟩
      rw [List.getLast?_eq_getElem?, List.getLast?_eq_getElem?, has.length_eq]
      exact rel_getElem? has _
    | rest =>
      obtain ⟨v, v', rfl, rfl, hv⟩ := exists_singletons h (hlength 1 rfl)
      refine ⟨onArray_paired rest (fun {as bs} has => ?_) hv, rfl⟩
      cases has with
      | nil => exact .null
      | cons _ hrest => exact .array hrest
    | push =>
      obtain ⟨a, v, rfl⟩ := List.length_eq_two.1 (hlength 2 rfl)
      obtain ⟨a', _, ha, hv, rfl⟩ := List.forall₂_cons_left_iff.1 h
      obtain ⟨_, v', hsingle, rfl, hv⟩ := exists_singletons hv rfl
      obtain rfl := List.singleton_inj.1 hsingle
      exact ⟨onArray_paired push (fun has => .array (List.rel_append has (.cons hv .nil))) ha, rfl⟩
  · obtain ⟨n, hn⟩ := not_forall.1 hlength
    obtain ⟨harity, hne⟩ := Classical.not_imp.1 hn
    rw [apply_of_length_ne harity hne, apply_of_length_ne harity (h.length_eq ▸ hne), h.length_eq]
    exact ⟨.error _, rfl⟩

end Builtin

end MonkeyLanguage
