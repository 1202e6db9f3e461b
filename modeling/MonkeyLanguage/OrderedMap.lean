/-!
# Maps that keep the order of insertion

A map is the list of its entries.  Inserting a key anew appends it; inserting a key that is present
replaces its value and keeps its place.  Scopes and hashes are such maps.
-/

namespace MonkeyLanguage

/-- The entries of a map, in the order in which their keys were first inserted. -/
abbrev OrderedMap (κ ν : Type) := List (κ × ν)

namespace OrderedMap

variable {κ ν : Type} [DecidableEq κ]

def get? : OrderedMap κ ν → κ → Option ν
  | [], _ => none
  | (k', v) :: m, k => if k' = k then some v else get? m k

def insert : OrderedMap κ ν → κ → ν → OrderedMap κ ν
  | [], k, v => [(k, v)]
  | (k', v') :: m, k, v => if k' = k then (k', v) :: m else (k', v') :: insert m k v

/-- The map that comes of inserting pairs from left to right. -/
def ofList (pairs : List (κ × ν)) : OrderedMap κ ν :=
  pairs.foldl (fun m pair => insert m pair.1 pair.2) []

/-- The keys, the oldest first. -/
def keys (m : OrderedMap κ ν) : List κ :=
  m.map Prod.fst

@[simp] theorem get?_insert_self (m : OrderedMap κ ν) (k : κ) (v : ν) :
    get? (insert m k v) k = some v := by
  induction m with
  | nil => simp [insert, get?]
  | cons entry m ih =>
    by_cases h : entry.1 = k <;> simp [insert, get?, h, ih]

theorem get?_insert_of_ne (m : OrderedMap κ ν) {k k' : κ} (v : ν) (h : k ≠ k') :
    get? (insert m k v) k' = get? m k' := by
  induction m with
  | nil => simp [insert, get?, h]
  | cons entry m ih =>
    by_cases hk : entry.1 = k
    · simp [insert, get?, hk, h]
    · simp [insert, get?, hk, ih]

theorem get?_eq_none_iff (m : OrderedMap κ ν) (k : κ) : get? m k = none ↔ k ∉ keys m := by
  induction m with
  | nil => simp [get?, keys]
  | cons entry m ih =>
    by_cases h : entry.1 = k
    · simp [get?, keys, h]
    · simpa [get?, keys, h, Ne.symm h, eq_comm] using ih

theorem keys_insert (m : OrderedMap κ ν) (k : κ) (v : ν) :
    keys (insert m k v) = if k ∈ keys m then keys m else keys m ++ [k] := by
  induction m with
  | nil => simp [insert, keys]
  | cons entry m ih =>
    by_cases h : entry.1 = k
    · simp [insert, keys, h]
    · have hkeys : keys (entry :: m) = entry.1 :: keys m := rfl
      have hmem : k ∈ entry.1 :: keys m ↔ k ∈ keys m := by simp [Ne.symm h]
      simp only [insert, if_neg h, hkeys, hmem]
      show entry.1 :: keys (insert m k v) = _
      rw [ih]
      split <;> simp

theorem mem_of_get? {m : OrderedMap κ ν} {k : κ} {v : ν} (h : get? m k = some v) : (k, v) ∈ m := by
  induction m with
  | nil => cases h
  | cons entry m ih =>
    rw [get?] at h
    split at h
    · next hk =>
      obtain rfl := Option.some.inj h
      rw [← hk]
      exact List.mem_cons_self ..
    · exact List.mem_cons_of_mem _ (ih h)

theorem get?_eq_some_iff {m : OrderedMap κ ν} (h : (keys m).Nodup) {k : κ} {v : ν} :
    get? m k = some v ↔ (k, v) ∈ m := by
  refine ⟨mem_of_get?, fun hmem => ?_⟩
  induction m with
  | nil => cases hmem
  | cons entry m ih =>
    obtain ⟨hnew, hm⟩ := List.nodup_cons.1 h
    rcases List.mem_cons.1 hmem with rfl | hmem
    · rw [get?, if_pos rfl]
    · have hne : entry.1 ≠ k := fun heq => hnew (heq ▸ List.mem_map_of_mem hmem)
      rw [get?, if_neg hne]
      exact ih hm hmem

theorem mem_insert {m : OrderedMap κ ν} {k : κ} {v : ν} {entry : κ × ν} (h : entry ∈ insert m k v) :
    entry = (k, v) ∨ entry ∈ m := by
  induction m with
  | nil => exact .inl (List.mem_singleton.1 h)
  | cons first m ih =>
    rw [insert] at h
    split at h
    · next hk =>
      rw [← hk]
      exact (List.mem_cons.1 h).imp_right (List.mem_cons_of_mem _)
    · rcases List.mem_cons.1 h with rfl | h
      · exact .inr (List.mem_cons_self ..)
      · exact (ih h).imp_right (List.mem_cons_of_mem _)

theorem nodup_keys_insert {m : OrderedMap κ ν} (h : (keys m).Nodup) (k : κ) (v : ν) :
    (keys (insert m k v)).Nodup := by
  rw [keys_insert]
  split
  · exact h
  · next hk =>
    rw [List.nodup_append]
    refine ⟨h, List.nodup_cons.2 ⟨List.not_mem_nil, List.nodup_nil⟩, fun a ha b hb hab => hk ?_⟩
    rw [← List.mem_singleton.1 hb, ← hab]
    exact ha

theorem insert_of_not_mem {m : OrderedMap κ ν} {k : κ} (h : k ∉ keys m) (v : ν) :
    insert m k v = m ++ [(k, v)] := by
  induction m with
  | nil => rfl
  | cons entry m ih =>
    rw [keys, List.map_cons, List.mem_cons, not_or] at h
    rw [insert, if_neg (Ne.symm h.1), ih h.2, List.cons_append]

/-! ## Maps of lists of pairs -/

theorem mem_ofList {pairs : List (κ × ν)} {entry : κ × ν} (h : entry ∈ ofList pairs) : entry ∈ pairs := by
  have hfold {pairs : List (κ × ν)} (m : OrderedMap κ ν)
      (h : entry ∈ pairs.foldl (fun m pair => insert m pair.1 pair.2) m) : entry ∈ pairs ∨ entry ∈ m := by
    induction pairs generalizing m with
    | nil => exact .inr h
    | cons pair pairs ih =>
      rcases ih _ h with h | h
      · exact .inl (List.mem_cons_of_mem _ h)
      · rcases mem_insert h with rfl | h
        · exact .inl (List.mem_cons_self ..)
        · exact .inr h
  exact (hfold [] h).resolve_right List.not_mem_nil

theorem nodup_keys_ofList (pairs : List (κ × ν)) : (keys (ofList pairs)).Nodup := by
  have hfold (m : OrderedMap κ ν) (hm : (keys m).Nodup) :
      (keys (pairs.foldl (fun m pair => insert m pair.1 pair.2) m)).Nodup := by
    induction pairs generalizing m with
    | nil => exact hm
    | cons pair pairs ih => exact ih _ (nodup_keys_insert hm _ _)
  exact hfold [] List.nodup_nil

/-- A key has the place of its first occurrence. -/
theorem keys_ofList (pairs : List (κ × ν)) : keys (ofList pairs) = (keys pairs).eraseDups := by
  have hfold (m : OrderedMap κ ν) (before : List κ) (hm : keys m = before.eraseDups) :
      keys (pairs.foldl (fun m pair => insert m pair.1 pair.2) m) = (before ++ keys pairs).eraseDups := by
    induction pairs generalizing m before with
    | nil => simpa [keys] using hm
    | cons pair pairs ih =>
      have hsplit : before ++ keys (pair :: pairs) = before ++ [pair.1] ++ keys pairs := by simp [keys]
      rw [hsplit]
      refine ih _ _ ?_
      rw [keys_insert, hm, List.eraseDups_append]
      by_cases h : pair.1 ∈ before
      · rw [if_pos (List.mem_eraseDups.2 h)]
        simp [h, List.removeAll]
      · rw [if_neg (mt List.mem_eraseDups.1 h)]
        simp [h, List.removeAll, List.eraseDups_cons]
  exact hfold [] [] rfl

theorem get?_foldl_insert_of_not_mem (m : OrderedMap κ ν) {pairs : List (κ × ν)} {k : κ} (h : k ∉ keys pairs) :
    get? (pairs.foldl (fun m pair => insert m pair.1 pair.2) m) k = get? m k := by
  induction pairs generalizing m with
  | nil => rfl
  | cons pair pairs ih =>
    rw [keys, List.map_cons, List.mem_cons, not_or] at h
    rw [List.foldl_cons, ih _ h.2, get?_insert_of_ne m pair.2 (Ne.symm h.1)]

theorem get?_ofList_of_not_mem {pairs : List (κ × ν)} {k : κ} (h : k ∉ keys pairs) : get? (ofList pairs) k = none :=
  get?_foldl_insert_of_not_mem [] h

/-- A key has the value of its last occurrence. -/
theorem get?_ofList_of_last {before after : List (κ × ν)} {k : κ} {v : ν} (h : k ∉ keys after) :
    get? (ofList (before ++ (k, v) :: after)) k = some v := by
  rw [ofList, List.foldl_append, List.foldl_cons, get?_foldl_insert_of_not_mem _ h, get?_insert_self]

theorem ofList_eq_self {pairs : List (κ × ν)} (h : (keys pairs).Nodup) : ofList pairs = pairs := by
  have hfold {pairs : List (κ × ν)} (m : OrderedMap κ ν) (hm : (keys (m ++ pairs)).Nodup) :
      pairs.foldl (fun m pair => insert m pair.1 pair.2) m = m ++ pairs := by
    induction pairs generalizing m with
    | nil => exact (List.append_nil m).symm
    | cons pair pairs ih =>
      have hnew : pair.1 ∉ keys m := by
        intro hmem
        rw [keys, List.map_append, List.nodup_append] at hm
        exact hm.2.2 _ hmem _ (List.mem_cons_self ..) rfl
      have hsplit : m ++ pair :: pairs = m ++ [pair] ++ pairs := by simp
      rw [hsplit] at hm ⊢
      rw [List.foldl_cons, insert_of_not_mem hnew]
      exact ih _ hm
  exact hfold [] h

end OrderedMap

end MonkeyLanguage
