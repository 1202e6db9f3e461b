import MonkeyLanguage.Proofs.Value.Pairing

/-!
# Other numbers for scopes and functions

Scopes and functions are numbered as they are made, so that what is made later has another number where more has
been made before.  A `Renaming` gives scopes and functions other numbers.  It keeps apart what is different and
keeps the order of scopes.

A renaming is a pairing in which each number has one partner, and nothing is hidden (`Value.Renamed`).  So operators
and builtins do not notice it (`apply_rename`), nor does the text of a value (`render_rename`).
-/

namespace MonkeyLanguage

/-! ## Maps with other values -/

namespace OrderedMap

variable {κ ν : Type} [DecidableEq κ] (f : ν → ν)

def mapValues (m : OrderedMap κ ν) : OrderedMap κ ν :=
  m.map fun entry => (entry.1, f entry.2)

theorem get?_mapValues (m : OrderedMap κ ν) (k : κ) : get? (mapValues f m) k = (get? m k).map f := by
  induction m with
  | nil => rfl
  | cons entry m ih =>
    rw [mapValues, List.map_cons, get?, get?]
    split
    · rfl
    · exact ih

theorem mapValues_insert (m : OrderedMap κ ν) (k : κ) (v : ν) :
    mapValues f (insert m k v) = insert (mapValues f m) k (f v) := by
  induction m with
  | nil => rfl
  | cons entry m ih =>
    rw [mapValues, mapValues, List.map_cons, insert, insert]
    split
    · rfl
    · rw [List.map_cons]
      exact congrArg _ ih

theorem mapValues_ofList (pairs : List (κ × ν)) :
    mapValues f (ofList pairs) = ofList (pairs.map fun pair => (pair.1, f pair.2)) := by
  have hfold (m : OrderedMap κ ν) :
      mapValues f (pairs.foldl (fun m pair => insert m pair.1 pair.2) m) =
        (pairs.map fun pair => (pair.1, f pair.2)).foldl (fun m pair => insert m pair.1 pair.2) (mapValues f m) := by
    induction pairs generalizing m with
    | nil => rfl
    | cons pair pairs ih => rw [List.foldl_cons, ih, mapValues_insert, List.map_cons, List.foldl_cons]
  exact hfold []

omit [DecidableEq κ] in
theorem mapValues_eq_self {f : ν → ν} {m : OrderedMap κ ν} (h : ∀ entry ∈ m, f entry.2 = entry.2) : mapValues f m = m :=
  (List.map_congr_left fun entry hentry => congrArg (entry.1, ·) (h entry hentry)).trans (List.map_id' m)

end OrderedMap

/-! ## Renamings -/

/-- Other numbers for scopes and functions. -/
structure Renaming where
  scope : ScopeId → ScopeId
  identity : Nat → Nat
  scope_lt_scope : ∀ {a b}, scope a < scope b ↔ a < b
  identity_inj : ∀ {a b}, identity a = identity b ↔ a = b

theorem Renaming.scope_inj (ρ : Renaming) {a b : ScopeId} : ρ.scope a = ρ.scope b ↔ a = b := by
  refine ⟨fun h => ?_, congrArg _⟩
  rcases Nat.lt_trichotomy a b with hlt | heq | hlt
  · exact absurd h (Nat.ne_of_lt (ρ.scope_lt_scope.2 hlt))
  · exact heq
  · exact absurd h.symm (Nat.ne_of_lt (ρ.scope_lt_scope.2 hlt))

def Renaming.refl : Renaming :=
  ⟨id, id, Iff.rfl, Iff.rfl⟩

def Renaming.trans (ρ σ : Renaming) : Renaming :=
  ⟨σ.scope ∘ ρ.scope, σ.identity ∘ ρ.identity, σ.scope_lt_scope.trans ρ.scope_lt_scope,
    σ.identity_inj.trans ρ.identity_inj⟩

namespace Value

mutual

def rename (ρ : Renaming) : Value → Value
  | array vs => array (renameElements ρ vs)
  | hash pairs => hash (renameEntries ρ pairs)
  | function identity parameters body scope => function (ρ.identity identity) parameters body (ρ.scope scope)
  | returned v => returned (rename ρ v)
  | v => v

def renameElements (ρ : Renaming) : List Value → List Value
  | [] => []
  | v :: vs => rename ρ v :: renameElements ρ vs

def renameEntries (ρ : Renaming) : List (HashKey × Value) → List (HashKey × Value)
  | [] => []
  | (k, v) :: pairs => (k, rename ρ v) :: renameEntries ρ pairs

end

variable {ρ : Renaming} {v : Value}

theorem renameElements_eq_map (vs : List Value) : renameElements ρ vs = vs.map (rename ρ) := by
  induction vs with
  | nil => rfl
  | cons v vs ih => rw [renameElements, ih, List.map_cons]

theorem renameEntries_eq_mapValues (pairs : List (HashKey × Value)) :
    renameEntries ρ pairs = OrderedMap.mapValues (rename ρ) pairs := by
  induction pairs with
  | nil => rfl
  | cons pair pairs ih =>
    rw [renameEntries, ih]
    rfl

mutual

theorem rename_refl : (v : Value) → v.rename .refl = v
  | null | integer _ | boolean _ | string _ | builtin _ | error _ | function .. => rfl
  | array vs => by rw [rename, renameElements_refl vs]
  | hash pairs => by rw [rename, renameEntries_refl pairs]
  | returned v => by rw [rename, rename_refl v]

theorem renameElements_refl : (vs : List Value) → renameElements .refl vs = vs
  | [] => rfl
  | v :: vs => by rw [renameElements, rename_refl v, renameElements_refl vs]

theorem renameEntries_refl : (pairs : List (HashKey × Value)) → renameEntries .refl pairs = pairs
  | [] => rfl
  | (k, v) :: pairs => by rw [renameEntries, rename_refl v, renameEntries_refl pairs]

end

mutual

theorem rename_rename (ρ σ : Renaming) : (v : Value) → (v.rename ρ).rename σ = v.rename (ρ.trans σ)
  | null | integer _ | boolean _ | string _ | builtin _ | error _ | function .. => rfl
  | array vs => by rw [rename, rename, rename, renameElements_renameElements ρ σ vs]
  | hash pairs => by rw [rename, rename, rename, renameEntries_renameEntries ρ σ pairs]
  | returned v => by rw [rename, rename, rename, rename_rename ρ σ v]

theorem renameElements_renameElements (ρ σ : Renaming) : (vs : List Value) →
    renameElements σ (renameElements ρ vs) = renameElements (ρ.trans σ) vs
  | [] => rfl
  | v :: vs => by
    rw [renameElements, renameElements, renameElements, rename_rename ρ σ v, renameElements_renameElements ρ σ vs]

theorem renameEntries_renameEntries (ρ σ : Renaming) : (pairs : List (HashKey × Value)) →
    renameEntries σ (renameEntries ρ pairs) = renameEntries (ρ.trans σ) pairs
  | [] => rfl
  | (k, v) :: pairs => by
    rw [renameEntries, renameEntries, renameEntries, rename_rename ρ σ v, renameEntries_renameEntries ρ σ pairs]

end

theorem map_rename_eq_self {vs : List Value} (h : ∀ v ∈ vs, v.rename ρ = v) : vs.map (rename ρ) = vs :=
  (List.map_congr_left h).trans (List.map_id' vs)

end Value

/-! ## Renamings as pairings -/

/-- The numbers that the renaming takes to each other. -/
def Renaming.pairing (ρ : Renaming) : Pairing where
  scope a b := ρ.scope a = b
  identity a b := ρ.identity a = b
  scope_eq_iff h h' := h ▸ h' ▸ ρ.scope_inj.symm
  identity_eq_iff h h' := h ▸ h' ▸ ρ.identity_inj.symm

namespace Value

variable {ρ : Renaming} {v : Value}

/-- The second value is the first with other numbers. -/
abbrev Renamed (ρ : Renaming) : Value → Value → Prop :=
  Paired ρ.pairing fun _ => False

mutual

theorem renamed_rename : (v : Value) → v.Renamed ρ (v.rename ρ)
  | null => .null
  | integer n => .integer n
  | boolean x => .boolean x
  | string s => .string s
  | array vs => .array (renamed_renameElements vs)
  | hash pairs => .hash (renamed_renameEntries pairs)
  | function _ _ body _ => .function rfl body.avoids_nothing rfl
  | builtin b => .builtin b
  | returned v => .returned (renamed_rename v)
  | error e => .error e

theorem renamed_renameElements : (vs : List Value) → List.Forall₂ (Renamed ρ) vs (renameElements ρ vs)
  | [] => .nil
  | v :: vs => .cons (renamed_rename v) (renamed_renameElements vs)

theorem renamed_renameEntries : (pairs : List (HashKey × Value)) →
    List.Forall₂ (Prod.RProd Eq (Renamed ρ)) pairs (renameEntries ρ pairs)
  | [] => .nil
  | (_, v) :: pairs => .cons (.intro rfl (renamed_rename v)) (renamed_renameEntries pairs)

end

mutual

theorem Renamed.eq_rename : (v : Value) → {v' : Value} → v.Renamed ρ v' → v' = v.rename ρ
  | null, _, h | integer _, _, h | boolean _, _, h | string _, _, h | builtin _, _, h | error _, _, h => by
    cases h; rfl
  | function .., _, h => by
    cases h with
    | function hidentity _ hscope => rw [rename, ← hidentity, ← hscope]
  | array vs, _, h => by
    cases h with
    | array h => rw [rename, eq_renameElements vs h]
  | hash pairs, _, h => by
    cases h with
    | hash h => rw [rename, eq_renameEntries pairs h]
  | returned v, _, h => by
    cases h with
    | returned h => rw [rename, eq_rename v h]

theorem Renamed.eq_renameElements : (vs : List Value) → {vs' : List Value} → List.Forall₂ (Renamed ρ) vs vs' →
    vs' = renameElements ρ vs
  | [], _, h => by cases h; rfl
  | v :: vs, _, h => by
    cases h with
    | cons h hs => rw [renameElements, eq_rename v h, eq_renameElements vs hs]

theorem Renamed.eq_renameEntries : (pairs : List (HashKey × Value)) → {pairs' : List (HashKey × Value)} →
    List.Forall₂ (Prod.RProd Eq (Renamed ρ)) pairs pairs' → pairs' = renameEntries ρ pairs
  | [], _, h => by cases h; rfl
  | (_, v) :: pairs, _, h => by
    cases h with
    | cons h hs =>
      obtain ⟨rfl, h⟩ := h
      rw [renameEntries, ← eq_rename v h, eq_renameEntries pairs hs]

end

theorem renamed_iff {v' : Value} : v.Renamed ρ v' ↔ v' = v.rename ρ :=
  ⟨Renamed.eq_rename v, fun h => h ▸ renamed_rename v⟩

theorem forall₂_renamed_iff {vs vs' : List Value} : List.Forall₂ (Renamed ρ) vs vs' ↔ vs' = vs.map (rename ρ) := by
  rw [← renameElements_eq_map]
  exact ⟨Renamed.eq_renameElements vs, fun h => h ▸ renamed_renameElements vs⟩

/-! ## What does not depend on the numbers -/

@[simp] theorem type_rename (v : Value) : (v.rename ρ).type = v.type :=
  (renamed_rename v).type_eq.symm

theorem unwrapReturned_rename (v : Value) : (v.rename ρ).unwrapReturned = v.unwrapReturned.rename ρ :=
  renamed_iff.1 (renamed_rename v).unwrapReturned

theorem render_rename (v : Value) : (v.rename ρ).render = v.render :=
  ((renamed_rename v).render_eq v).symm

/-- Both renamings give the value the same identity, if it is a function. -/
def SameIdentity (ρ σ : Renaming) : Value → Prop
  | function identity .. => ρ.identity identity = σ.identity identity
  | _ => True

theorem SameIdentity.symm {ρ σ : Renaming} (h : v.SameIdentity ρ σ) : v.SameIdentity σ ρ := by
  cases v with
  | function identity parameters body scope => exact Eq.symm h
  | _ => trivial

mutual

theorem same_rename_rename {ρ σ : Renaming} : (v : Value) → v.Every (SameIdentity ρ σ) →
    same (v.rename ρ) (v.rename σ) = true
  | null, _ | integer _, _ | boolean _, _ | string _, _ | builtin _, _ | error _, _ => same_refl _
  | function .., h => beq_iff_eq.2 h.self
  | array vs, h => sameElements_rename_rename vs fun _ => h.of_mem_parts
  | hash pairs, h => by
    rw [rename, rename, same, sameEntries_rename_rename pairs pairs (fun _ => id)
      fun _ hpair => h.of_mem_parts (value_mem_parts hpair)]
    simp only [renameEntries_eq_mapValues, OrderedMap.mapValues, List.length_map, beq_self_eq_true, Bool.and_self]
  | returned v, h => same_rename_rename v (h.of_mem_parts (List.mem_singleton_self v))

theorem sameElements_rename_rename {ρ σ : Renaming} : (vs : List Value) → (∀ v ∈ vs, v.Every (SameIdentity ρ σ)) →
    sameElements (renameElements ρ vs) (renameElements σ vs) = true
  | [], _ => rfl
  | v :: vs, h => by
    rw [List.forall_mem_cons] at h
    rw [renameElements, renameElements, sameElements, same_rename_rename v h.1, sameElements_rename_rename vs h.2,
      Bool.and_self]

theorem sameEntries_rename_rename {ρ σ : Renaming} (ps : List (HashKey × Value)) :
    (qs : List (HashKey × Value)) → qs ⊆ ps → (∀ pair ∈ qs, pair.2.Every (SameIdentity ρ σ)) →
      sameEntries (renameEntries ρ ps) (renameEntries σ qs) = true
  | [], _, _ => by rw [renameEntries, sameEntries]
  | (k, b) :: qs, hsubset, h => by
    rw [List.forall_mem_cons] at h
    have hmem : (k, b.rename ρ) ∈ renameEntries ρ ps := by
      rw [renameEntries_eq_mapValues]
      exact List.mem_map_of_mem (hsubset (List.mem_cons_self ..))
    have hfound : ((renameEntries ρ ps).any fun p => p.1 == k && same p.2 (b.rename σ)) = true :=
      List.any_eq_true.2 ⟨_, hmem, by rw [same_rename_rename b h.1, beq_self_eq_true, Bool.and_self]⟩
    rw [renameEntries, sameEntries, hfound,
      sameEntries_rename_rename ps qs (fun _ hq => hsubset (List.mem_cons_of_mem _ hq)) h.2, Bool.and_self]

end

/-! ## Operators and builtins -/

theorem applyUnary_rename (operator : String) (v : Value) :
    (v.rename ρ).applyUnary operator = (v.applyUnary operator).rename ρ :=
  renamed_iff.1 ((renamed_rename v).applyUnary operator)

theorem applyBinary_rename (operator : String) (a b : Value) :
    applyBinary operator (a.rename ρ) (b.rename ρ) = (applyBinary operator a b).rename ρ :=
  renamed_iff.1 ((renamed_rename a).applyBinary operator (renamed_rename b))

theorem applyIndex_rename (a b : Value) : (a.rename ρ).applyIndex (b.rename ρ) = (a.applyIndex b).rename ρ :=
  renamed_iff.1 ((renamed_rename a).applyIndex (renamed_rename b))

end Value

theorem Builtin.apply_rename {ρ : Renaming} (b : Builtin) (vs : List Value) :
    b.apply (vs.map (Value.rename ρ)) = ((b.apply vs).1.rename ρ, (b.apply vs).2) := by
  obtain ⟨hvalue, htext⟩ := b.apply_paired (Value.forall₂_renamed_iff.2 (rfl : vs.map (Value.rename ρ) = _))
  exact Prod.ext (Value.renamed_iff.1 hvalue) htext.symm

end MonkeyLanguage
