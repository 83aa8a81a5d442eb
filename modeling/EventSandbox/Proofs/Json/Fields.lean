import EventSandbox.Json.Value
import Mathlib.Data.String.Basic

/-!
# EventSandbox.Proofs.Json.Fields — fields as a map

Setting a field changes what is found under its key and nothing else (`get?_insert`), so what holds
of every field is kept if it holds of the new one (`mem_insert`), and keeps the keys in strictly
increasing order (`sorted_insert`). The first two hold of any list of fields, sorted or not.
-/

namespace EventSandbox

namespace Fields

variable {fields : Fields} {key : String} {value : Value}

theorem get?_cons (k : String) (v : Value) (rest : Fields) (key : String) :
    get? ((k, v) :: rest) key = if key = k then some v else get? rest key := by
  unfold get?
  rw [List.lookup_cons]
  by_cases h : key = k
  · simp [h]
  · simp [h, beq_eq_false_iff_ne.2 h]

/-- Setting a field changes it and no other. -/
theorem get?_insert (fields : Fields) (key : String) (value : Value) (k : String) :
    (fields.insert key value).get? k = if k = key then some value else fields.get? k := by
  induction fields with
  | nil => rw [insert, get?_cons]
  | cons field rest ih =>
    obtain ⟨name, old⟩ := field
    unfold insert
    -- The new field goes before the first one, in its place, or further on.
    by_cases hlt : key < name
    · rw [if_pos hlt, get?_cons]
    rw [if_neg hlt]
    by_cases heq : key = name
    · subst heq
      rw [if_pos rfl, get?_cons, get?_cons]
      split <;> rfl
    · rw [if_neg heq, get?_cons, get?_cons, ih]
      by_cases hk : k = name
      · rw [if_pos hk, if_pos hk, if_neg]
        rintro rfl
        exact heq hk
      · rw [if_neg hk, if_neg hk]

/-- What fields there are after one has been set: the new one, and some that were there before. -/
theorem mem_insert {field : String × Value} (h : field ∈ fields.insert key value) :
    field = (key, value) ∨ field ∈ fields := by
  induction fields with
  | nil => exact .inl (List.mem_singleton.1 h)
  | cons first rest ih =>
    obtain ⟨name, old⟩ := first
    unfold insert at h
    split_ifs at h
    · exact List.mem_cons.1 h
    · rcases List.mem_cons.1 h with hnew | hrest
      · exact .inl hnew
      · exact .inr (List.mem_cons_of_mem _ hrest)
    · rcases List.mem_cons.1 h with hfirst | hrest
      · exact .inr (hfirst ▸ List.mem_cons_self)
      · rcases ih hrest with hnew | hold
        · exact .inl hnew
        · exact .inr (List.mem_cons_of_mem _ hold)

/-! ## Order -/

/-- The keys are in strictly increasing order. -/
def Sorted (fields : Fields) : Prop := fields.keys.Pairwise (· < ·)

theorem sorted_cons {k : String} {v : Value} {rest : Fields} :
    Sorted ((k, v) :: rest) ↔ (∀ name ∈ rest.keys, k < name) ∧ Sorted rest := by
  unfold Sorted keys
  rw [List.map_cons, List.pairwise_cons]

theorem mem_keys_insert {name : String} :
    name ∈ (fields.insert key value).keys ↔ name = key ∨ name ∈ fields.keys := by
  induction fields with
  | nil => simp [insert, keys]
  | cons field rest ih =>
    obtain ⟨k, v⟩ := field
    unfold insert
    split_ifs with hlt heq
    · simp [keys]
    · simp [keys, heq]
    · simp only [keys, List.map_cons, List.mem_cons] at ih ⊢
      rw [ih]
      tauto

theorem sorted_insert (h : fields.Sorted) (key : String) (value : Value) :
    (fields.insert key value).Sorted := by
  induction fields with
  | nil =>
    unfold insert
    exact List.pairwise_singleton _ _
  | cons field rest ih =>
    obtain ⟨k, v⟩ := field
    obtain ⟨hfirst, hrest⟩ := sorted_cons.1 h
    unfold insert
    -- The new name is before the first one, is that name, or comes after it.
    split_ifs with hlt heq
    · refine sorted_cons.2 ⟨?_, h⟩
      intro name hname
      rcases List.mem_cons.1 hname with rfl | hname
      · exact hlt
      · exact hlt.trans (hfirst name hname)
    · subst heq
      exact sorted_cons.2 ⟨hfirst, hrest⟩
    · refine sorted_cons.2 ⟨?_, ih hrest⟩
      intro name hname
      rcases mem_keys_insert.1 hname with rfl | hname
      · exact lt_of_le_of_ne (le_of_not_gt hlt) (Ne.symm heq)
      · exact hfirst name hname

/-- A field whose key comes after all others goes to the end. -/
theorem insert_last (h : ∀ name ∈ fields.keys, name < key) (value : Value) :
    fields.insert key value = fields ++ [(key, value)] := by
  induction fields with
  | nil => rfl
  | cons field rest ih =>
    obtain ⟨k, v⟩ := field
    have hk : k < key := h k (by simp [keys])
    unfold insert
    rw [if_neg (lt_asymm hk), if_neg hk.ne', ih, List.cons_append]
    intro name hname
    exact h name (List.mem_cons_of_mem _ hname)

/-- Settings that come in order leave themselves. -/
theorem foldl_insert_of_sorted {before settings : Fields} (h : Sorted (before ++ settings)) :
    settings.foldl (fun fields (key, value) => fields.insert key value) before =
      before ++ settings := by
  induction settings generalizing before with
  | nil => simp
  | cons setting rest ih =>
    obtain ⟨k, v⟩ := setting
    -- Each key comes after all that have been set, so its field goes to the end.
    have hlast : ∀ name ∈ before.keys, name < k := by
      intro name hname
      unfold Sorted keys at h
      rw [List.map_append] at h
      exact (List.pairwise_append.1 h).2.2 name hname k List.mem_cons_self
    have happend : before ++ (k, v) :: rest = before ++ [(k, v)] ++ rest := by simp
    rw [List.foldl_cons]
    change rest.foldl _ (before.insert k v) = _
    rw [insert_last hlast, happend]
    exact ih (happend ▸ h)

theorem ofList_of_sorted (h : fields.Sorted) : ofList fields = fields := by
  have happend : Sorted ([] ++ fields) := h
  exact foldl_insert_of_sorted happend

/-! ## Settings in any order -/

theorem get?_eq_none (h : key ∉ fields.keys) : fields.get? key = none := by
  unfold get?
  rw [List.lookup_eq_none_iff]
  intro field hfield
  rw [bne_iff_ne]
  rintro rfl
  exact h (List.mem_map_of_mem hfield)

theorem get?_head (key : String) (value : Value) (rest : Fields) :
    get? ((key, value) :: rest) key = some value := by
  rw [get?_cons, if_pos rfl]

/-- No key that is found is smaller than the first one. -/
theorem head_le {first : String × Value} {rest : Fields} (h : Sorted (first :: rest))
    (hget : get? (first :: rest) key = some value) : first.1 ≤ key := by
  have hmem : key ∈ keys (first :: rest) := by
    by_contra habsent
    rw [get?_eq_none habsent] at hget
    cases hget
  rcases List.mem_cons.1 hmem with rfl | hmem
  · exact le_refl _
  · exact ((sorted_cons.1 h).1 key hmem).le

/-- Fields in order are known by what is found under each key. -/
theorem ext_of_sorted {fields' : Fields} (h : fields.Sorted) (h' : fields'.Sorted)
    (hget : ∀ key, fields.get? key = fields'.get? key) : fields = fields' := by
  induction fields generalizing fields' with
  | nil =>
    cases fields' with
    | nil => rfl
    | cons field rest => exact absurd ((hget field.1).trans (get?_head _ _ rest)) nofun
  | cons field rest ih =>
    cases fields' with
    | nil => exact absurd ((get?_head _ _ rest).symm.trans (hget field.1)) nofun
    | cons field' rest' =>
      -- Each of the two first keys is found on the other side, so neither is the smaller one.
      have hkey : field.1 = field'.1 :=
        le_antisymm (head_le h ((hget field'.1).trans (get?_head _ _ rest')))
          (head_le h' ((hget field.1).symm.trans (get?_head _ _ rest)))
      obtain ⟨k, v⟩ := field
      obtain ⟨k', v'⟩ := field'
      obtain rfl : k = k' := hkey
      obtain ⟨hfirst, hrest⟩ := sorted_cons.1 h
      obtain ⟨hfirst', hrest'⟩ := sorted_cons.1 h'
      have hvalue := hget k
      rw [get?_head, get?_head] at hvalue
      obtain rfl := Option.some.inj hvalue
      have htail : rest = rest' := by
        refine ih hrest hrest' fun key => ?_
        by_cases hk : key = k
        · subst hk
          rw [get?_eq_none fun hmem => lt_irrefl _ (hfirst _ hmem),
            get?_eq_none fun hmem => lt_irrefl _ (hfirst' _ hmem)]
        · have hfound := hget key
          rwa [get?_cons, get?_cons, if_neg hk, if_neg hk] at hfound
      rw [htail]

theorem get?_foldl (settings before : Fields) (key : String) :
    get? (settings.foldl (fun fields (key, value) => fields.insert key value) before) key =
      (settings.reverse.lookup key).or (before.get? key) := by
  induction settings generalizing before with
  | nil => rfl
  | cons setting rest ih =>
    obtain ⟨k, v⟩ := setting
    rw [List.foldl_cons, ih, get?_insert, List.reverse_cons, List.lookup_append, Option.or_assoc]
    congr 1
    change _ = (get? [(k, v)] key).or _
    rw [get?_cons]
    split <;> rfl

/-- Of several settings of a key the last one counts. -/
theorem get?_ofList (settings : Fields) (key : String) :
    (ofList settings).get? key = settings.reverse.lookup key := by
  rw [ofList, get?_foldl]
  exact Option.or_none

theorem sorted_ofList (settings : Fields) : (ofList settings).Sorted := by
  have hinsert : ∀ before : Fields, before.Sorted →
      Sorted (settings.foldl (fun fields (key, value) => fields.insert key value) before) := by
    induction settings with
    | nil => exact fun _ h => h
    | cons setting rest ih => exact fun _ h => ih _ (sorted_insert h _ _)
  exact hinsert [] .nil

/-- Settings leave some fields exactly if the last ones of each key do. -/
theorem ofList_eq_iff {settings : Fields} (h : fields.Sorted) :
    ofList settings = fields ↔ ∀ key, fields.get? key = settings.reverse.lookup key := by
  constructor
  · rintro rfl key
    exact get?_ofList settings key
  · intro hget
    refine ext_of_sorted (sorted_ofList settings) h fun key => ?_
    rw [get?_ofList, hget]

end Fields

end EventSandbox
