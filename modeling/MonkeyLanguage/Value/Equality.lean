import MonkeyLanguage.Value.Basic

/-!
# Equality of values

Values of different types differ.  Functions are equal if they are the same function, arrays if their
elements are equal in order, and hashes if they have the same keys with equal values, in any order.

`Value.same` says this.  Values share their parts, so a value of few parts may be a tree of very many
nodes, and `Value.decideSame` gives the answer of `same` without looking into a part that is compared
with itself.  The answer is the same (`beq_eq_same`) since every value equals itself (`same_refl`).
-/

namespace MonkeyLanguage.Value

mutual

/-- Whether two values are equal. -/
def same : Value → Value → Bool
  | null, null => true
  | integer a, integer b => a == b
  | boolean a, boolean b => a == b
  | string a, string b => a == b
  | array as, array bs => sameElements as bs
  | hash ps, hash qs => ps.length == qs.length && sameEntries ps qs
  | function a .., function b .. => a == b
  | builtin a, builtin b => a == b
  | returned a, returned b => same a b
  | error a, error b => a.message == b.message
  | _, _ => false

def sameElements : List Value → List Value → Bool
  | [], [] => true
  | a :: as, b :: bs => same a b && sameElements as bs
  | _, _ => false

/-- Whether the first map holds each key of the second with an equal value. -/
def sameEntries : List (HashKey × Value) → List (HashKey × Value) → Bool
  | _, [] => true
  | ps, (k, b) :: qs => ps.any (fun p => p.1 == k && same p.2 b) && sameEntries ps qs

end

/-! ## Every value equals itself -/

mutual

theorem same_refl : ∀ v : Value, same v v = true
  | null => rfl
  | integer _ | boolean _ | string _ | builtin _ | error _ => by simp [same]
  | function .. => by simp [same]
  | returned v => by rw [same, same_refl v]
  | array vs => by rw [same, sameElements_refl vs]
  | hash ps => by rw [same, sameEntries_of_subset ps ps fun _ => id, beq_self_eq_true, Bool.and_self]

theorem sameElements_refl : ∀ vs : List Value, sameElements vs vs = true
  | [] => rfl
  | v :: vs => by rw [sameElements, same_refl v, sameElements_refl vs, Bool.and_self]

theorem sameEntries_of_subset (ps : List (HashKey × Value)) :
    ∀ qs : List (HashKey × Value), qs ⊆ ps → sameEntries ps qs = true
  | [], _ => by rw [sameEntries]
  | (k, b) :: qs, h => by
    have hb : (ps.any fun p => p.1 == k && same p.2 b) = true :=
      List.any_eq_true.2 ⟨(k, b), h (List.mem_cons_self ..), by simp [same_refl b]⟩
    rw [sameEntries, hb, sameEntries_of_subset ps qs fun _ hq => h (List.mem_cons_of_mem _ hq),
      Bool.and_self]

end

/-! ## Deciding equality of shared values -/

/-- The answer of `look`, or `true` without looking if the two values are one value in memory. -/
@[inline] def unlessShared (a b : Value) (look : Unit → { r : Bool // r = same a b }) :
    { r : Bool // r = same a b } :=
  ⟨withPtrEq a b (fun _ => (look ()).1) fun h => by rw [(look ()).2, h, same_refl], (look ()).2⟩

mutual

/-- Decides whether two values are equal. -/
def decideSame : (a b : Value) → { r : Bool // r = same a b }
  | array as, array bs => ⟨(decideElements as bs).1, by rw [(decideElements as bs).2, same]⟩
  | hash ps, hash qs =>
    ⟨ps.length == qs.length && (decideEntries ps qs).1, by rw [(decideEntries ps qs).2, same]⟩
  | returned a, returned b =>
    let inner := unlessShared a b fun _ => decideSame a b
    ⟨inner.1, by rw [inner.2, same]⟩
  | a, b => ⟨same a b, rfl⟩

def decideElements : (as bs : List Value) → { r : Bool // r = sameElements as bs }
  | a :: as, b :: bs =>
    let head := unlessShared a b fun _ => decideSame a b
    ⟨head.1 && (decideElements as bs).1, by rw [head.2, (decideElements as bs).2, sameElements]⟩
  | as, bs => ⟨sameElements as bs, rfl⟩

def decideEntries : (ps qs : List (HashKey × Value)) → { r : Bool // r = sameEntries ps qs }
  | _, [] => ⟨true, by rw [sameEntries]⟩
  | ps, (k, b) :: qs =>
    let found (a : Value) := unlessShared a b fun _ => decideSame a b
    ⟨(ps.any fun p => p.1 == k && (found p.2).1) && (decideEntries ps qs).1, by
      simp only [(found _).2, (decideEntries ps qs).2, sameEntries]⟩

end

instance : BEq Value where
  beq a b := (unlessShared a b fun _ => decideSame a b).1

theorem beq_eq_same (a b : Value) : (a == b) = same a b :=
  (unlessShared a b fun _ => decideSame a b).2

end MonkeyLanguage.Value
