import EventSandbox.Guest.Linker
import Mathlib.Data.List.Basic
import Mathlib.Tactic.Common

/-!
# EventSandbox.Proofs.Guest.Imports — which import is to blame

Imports are resolved if every one of them fits a host function. If not, the first whose name is
unknown is to blame, wherever it stands, and only if all names are known the first whose type does
not fit (`ImportsFail`, `resolveAll_eq_error`). So an import that comes first need not be reported
first.
-/

namespace EventSandbox

/-! ## Lists that are worked through -/

section MapM

variable {α β ε : Type} {f : α → Except ε β} {list : List α}

theorem exists_ok_or_error (x : Except ε β) : (∃ b, x = .ok b) ∨ ∃ e, x = .error e := by
  cases x with
  | ok b => exact .inl ⟨b, rfl⟩
  | error e => exact .inr ⟨e, rfl⟩

theorem map_isOk {g : α → β} {x : Except ε α} : (∃ b, x.map g = .ok b) ↔ ∃ a, x = .ok a := by
  cases x <;> simp [Except.map]

theorem map_eq_error {g : α → β} {x : Except ε α} {e : ε} : x.map g = .error e ↔ x = .error e := by
  cases x <;> simp [Except.map]

theorem mapM_cons_of_ok {a : α} {b : β} (h : f a = .ok b) :
    (a :: list).mapM f = (list.mapM f).map (b :: ·) := by
  rw [List.mapM_cons, h]
  cases list.mapM f <;> rfl

theorem mapM_cons_of_error {a : α} {e : ε} (h : f a = .error e) :
    (a :: list).mapM f = .error e := by
  rw [List.mapM_cons, h]
  rfl

/-- A list is worked through if each of its items is. -/
theorem mapM_isOk : (∃ bs, list.mapM f = .ok bs) ↔ ∀ a ∈ list, ∃ b, f a = .ok b := by
  induction list with
  | nil => exact iff_of_true ⟨[], rfl⟩ (by simp)
  | cons a rest ih =>
    rw [List.forall_mem_cons, ← ih]
    -- The first element fails, or the rest decides.
    rcases exists_ok_or_error (f a) with ⟨b, hb⟩ | ⟨e, he⟩
    · rw [mapM_cons_of_ok hb, map_isOk]
      exact (and_iff_right ⟨b, hb⟩).symm
    · rw [mapM_cons_of_error he]
      refine iff_of_false nofun ?_
      rintro ⟨⟨b, hb⟩, -⟩
      cases hb.symm.trans he

/-- If it is not, the first item that is not is to blame. -/
theorem mapM_eq_error {e : ε} :
    list.mapM f = .error e ↔ ∃ before a after, list = before ++ a :: after ∧
      (∀ x ∈ before, ∃ b, f x = .ok b) ∧ f a = .error e := by
  induction list with
  | nil =>
    refine iff_of_false nofun ?_
    rintro ⟨before, a, after, hlist, -⟩
    simp at hlist
  | cons a rest ih =>
    rcases exists_ok_or_error (f a) with ⟨b, hb⟩ | ⟨e', he'⟩
    -- The first item is worked through, so the blame is on one of the rest.
    · rw [mapM_cons_of_ok hb, map_eq_error, ih]
      constructor
      · rintro ⟨before, a', after, rfl, hbefore, ha'⟩
        exact ⟨a :: before, a', after, rfl, List.forall_mem_cons.2 ⟨⟨b, hb⟩, hbefore⟩, ha'⟩
      · rintro ⟨_ | ⟨first, before⟩, a', after, hlist, hbefore, ha'⟩
        · obtain ⟨rfl, -⟩ := List.cons.inj hlist
          cases hb.symm.trans ha'
        · obtain ⟨rfl, rfl⟩ := List.cons.inj hlist
          exact ⟨before, a', after, rfl, (List.forall_mem_cons.1 hbefore).2, ha'⟩
    · rw [mapM_cons_of_error he']
      constructor
      · rintro ⟨⟩
        exact ⟨[], a, rest, rfl, by simp, he'⟩
      · rintro ⟨_ | ⟨first, before⟩, a', after, hlist, hbefore, ha'⟩
        · obtain ⟨rfl, -⟩ := List.cons.inj hlist
          rw [Except.error.inj (he'.symm.trans ha')]
        · obtain ⟨rfl, -⟩ := List.cons.inj hlist
          obtain ⟨b, hb⟩ := (List.forall_mem_cons.1 hbefore).1
          cases hb.symm.trans he'

end MapM

/-! ## Imports -/

namespace Import

/-- An import has the name of a host function. -/
def Names (wanted : Import) (f : HostFunction) : Prop :=
  wanted.module = hostModule ∧ wanted.name = f.name

/-- An import has the name of some host function. -/
def Known (wanted : Import) : Prop := ∃ f, wanted.Names f

/-- An import is one of the host functions, and wants it with its type. -/
def Fits (wanted : Import) : Prop := ∃ f, wanted.Names f ∧ wanted.type = f.type

/-- What is wrong with an import. -/
inductive Fault (wanted : Import) : Linker.ImportFault → Prop
  | unknown (h : ¬ wanted.Known) : Fault wanted (.unknown wanted)
  | incompatible {f : HostFunction} (hname : wanted.Names f) (htype : wanted.type ≠ f.type) :
      Fault wanted (.incompatible wanted f.type)

/-- Host functions have different names. -/
theorem Names.unique {wanted : Import} {f f' : HostFunction} (h : wanted.Names f)
    (h' : wanted.Names f') : f = f' := by
  have hname : f.name = f'.name := h.2.symm.trans h'.2
  cases f <;> cases f' <;> first | rfl | exact absurd hname (by decide)

theorem Fits.known {wanted : Import} (h : wanted.Fits) : wanted.Known :=
  h.imp fun _ h => h.1

end Import

/-- The import that is to blame if not all fit: the first unknown one, or else the first whose type
does not fit. -/
inductive ImportsFail (imports : List Import) : Linker.ImportFault → Prop
  | unknown {before wanted after} (himports : imports = before ++ wanted :: after)
      (hbefore : ∀ other ∈ before, other.Known) (hwanted : ¬ wanted.Known) :
      ImportsFail imports (.unknown wanted)
  | incompatible {before wanted after} {f : HostFunction}
      (himports : imports = before ++ wanted :: after) (hknown : ∀ other ∈ imports, other.Known)
      (hbefore : ∀ other ∈ before, other.Fits) (hname : wanted.Names f)
      (htype : wanted.type ≠ f.type) : ImportsFail imports (.incompatible wanted f.type)

namespace Linker

variable {wanted : Import} {imports : List Import} {fault : ImportFault}

theorem find_full_eq_ok {f : HostFunction} : full.find wanted = .ok f ↔ wanted.Names f := by
  -- The host defines all the functions that there are, so what is not found has another name.
  have hall (f : HostFunction) : f ∈ full.defined := by cases f <;> decide
  unfold find
  cases hfind : full.defined.find? fun f => wanted.module = hostModule ∧ wanted.name = f.name with
  | none =>
    refine iff_of_false nofun ?_
    intro hname
    have hno := List.find?_eq_none.1 hfind f (hall f)
    exact hno (by simpa [Import.Names] using hname)
  | some g =>
    have hg : wanted.Names g := by simpa [Import.Names] using List.find?_some hfind
    constructor
    · rintro ⟨⟩
      exact hg
    · intro hname
      rw [hg.unique hname]

theorem find_full_isOk : (∃ f, full.find wanted = .ok f) ↔ wanted.Known :=
  exists_congr fun _ => find_full_eq_ok

theorem find_full_eq_error :
    full.find wanted = .error fault ↔ ¬ wanted.Known ∧ fault = .unknown wanted := by
  rw [← find_full_isOk]
  unfold find
  split
  · exact iff_of_false nofun (fun h => h.1 ⟨_, rfl⟩)
  · constructor
    · rintro ⟨⟩
      exact ⟨nofun, rfl⟩
    · rintro ⟨-, rfl⟩
      rfl

/-- Finds a host function and looks at its type. -/
def resolve (l : Linker) (wanted : Import) : Except ImportFault HostFunction := do
  accept wanted (← l.find wanted)

theorem accept_eq_ok {f g : HostFunction} :
    accept wanted f = .ok g ↔ wanted.type = f.type ∧ f = g := by
  unfold accept
  split <;> simp [*]

theorem accept_eq_error {f : HostFunction} :
    accept wanted f = .error fault ↔
      wanted.type ≠ f.type ∧ fault = .incompatible wanted f.type := by
  unfold accept
  split <;> simp [*, eq_comm]

theorem resolve_full_isOk : (∃ f, full.resolve wanted = .ok f) ↔ wanted.Fits := by
  unfold resolve
  rcases exists_ok_or_error (full.find wanted) with ⟨f, hf⟩ | ⟨e, he⟩
  · have hname := find_full_eq_ok.1 hf
    -- There is one function of that name, so its type decides.
    rw [hf]
    change (∃ g, accept wanted f = .ok g) ↔ _
    simp only [accept_eq_ok]
    constructor
    · rintro ⟨_, htype, rfl⟩
      exact ⟨f, hname, htype⟩
    · rintro ⟨g, hg, htype⟩
      rw [hname.unique hg]
      exact ⟨g, htype, rfl⟩
  · rw [he]
    refine iff_of_false ?_ fun hfits => (find_full_eq_error.1 he).1 hfits.known
    rintro ⟨_, ⟨⟩⟩

theorem resolve_full_eq_error (h : wanted.Known) :
    full.resolve wanted = .error fault ↔
      ∃ f, wanted.Names f ∧ wanted.type ≠ f.type ∧ fault = .incompatible wanted f.type := by
  obtain ⟨f, hname⟩ := h
  unfold resolve
  rw [find_full_eq_ok.2 hname]
  change accept wanted f = .error fault ↔ _
  rw [accept_eq_error]
  constructor
  · rintro ⟨htype, rfl⟩
    exact ⟨f, hname, htype, rfl⟩
  · rintro ⟨g, hg, htype, rfl⟩
    obtain rfl := hname.unique hg
    exact ⟨htype, rfl⟩

/-- Once all are found, the second round is as if each were resolved by itself. -/
theorem second_round {l : Linker} {found : List HostFunction}
    (h : imports.mapM l.find = .ok found) :
    ((imports.zip found).mapM fun (wanted, f) => accept wanted f) = imports.mapM l.resolve := by
  induction imports generalizing found with
  | nil =>
    cases h
    rfl
  | cons wanted rest ih =>
    -- The first round has found the functions, and the second one compares their types.
    rcases exists_ok_or_error (l.find wanted) with ⟨f, hf⟩ | ⟨e, he⟩
    · rw [mapM_cons_of_ok hf] at h
      rcases exists_ok_or_error (rest.mapM l.find) with ⟨others, hothers⟩ | ⟨e, he⟩
      · rw [hothers] at h
        obtain rfl : f :: others = found := Except.ok.inj h
        have hresolve : l.resolve wanted = accept wanted f := by
          unfold resolve
          rw [hf]
          rfl
        rw [List.zip_cons_cons, List.mapM_cons, List.mapM_cons, ih hothers, hresolve]
      · rw [he] at h
        cases h
    · rw [mapM_cons_of_error he] at h
      cases h

theorem resolveAll_isOk :
    (∃ found, full.resolveAll imports = .ok found) ↔ ∀ wanted ∈ imports, wanted.Fits := by
  simp only [← resolve_full_isOk]
  rw [← mapM_isOk]
  unfold resolveAll
  rcases exists_ok_or_error (imports.mapM full.find) with ⟨found, hfound⟩ | ⟨e, he⟩
  · rw [hfound]
    exact exists_congr fun _ => by rw [← second_round hfound]; rfl
  · rw [he]
    refine iff_of_false ?_ ?_
    · rintro ⟨_, ⟨⟩⟩
    · -- An import that nobody knows fits no function.
      intro hok
      obtain ⟨before, wanted, after, rfl, -, hwanted⟩ := mapM_eq_error.1 he
      have hfits := resolve_full_isOk.1 (mapM_isOk.1 hok wanted (by simp))
      exact (find_full_eq_error.1 hwanted).1 hfits.known

theorem resolveAll_eq_error :
    full.resolveAll imports = .error fault ↔ ImportsFail imports fault := by
  unfold resolveAll
  rcases exists_ok_or_error (imports.mapM full.find) with ⟨found, hfound⟩ | ⟨e, he⟩
  -- All names are known, and the second round decides.
  · have hknown : ∀ wanted ∈ imports, wanted.Known := fun wanted hmem =>
      find_full_isOk.1 (mapM_isOk.1 ⟨found, hfound⟩ wanted hmem)
    rw [hfound]
    change ((imports.zip found).mapM fun (wanted, f) => accept wanted f) = .error fault ↔ _
    rw [second_round hfound, mapM_eq_error]
    constructor
    · rintro ⟨before, wanted, after, himports, hbefore, hwanted⟩
      have hmem : wanted ∈ imports := by simp [himports]
      obtain ⟨f, hname, htype, rfl⟩ := (resolve_full_eq_error (hknown wanted hmem)).1 hwanted
      exact .incompatible himports hknown
        (fun other hother => resolve_full_isOk.1 (hbefore other hother)) hname htype
    · intro hfail
      cases hfail with
      | unknown himports _ hwanted => exact absurd (hknown _ (by simp [himports])) hwanted
      | @incompatible before wanted after f himports _ hbefore hname htype =>
        have hmem : wanted ∈ imports := by simp [himports]
        exact ⟨before, wanted, after, himports,
          fun other hother => resolve_full_isOk.2 (hbefore other hother),
          (resolve_full_eq_error (hknown wanted hmem)).2 ⟨f, hname, htype, rfl⟩⟩
  · rw [he]
    change Except.error e = .error fault ↔ _
    obtain ⟨before, wanted, after, himports, hbefore, hwanted⟩ := mapM_eq_error.1 he
    obtain ⟨hunknown, rfl⟩ := find_full_eq_error.1 hwanted
    constructor
    · rintro ⟨⟩
      exact .unknown himports (fun other hother => find_full_isOk.1 (hbefore other hother)) hunknown
    · intro hfail
      cases hfail with
      | @unknown before' wanted' after' himports' hbefore' hwanted' =>
        have hsame := mapM_eq_error.2 ⟨before', wanted', after', himports',
          fun other hother => find_full_isOk.2 (hbefore' other hother),
          find_full_eq_error.2 ⟨hwanted', rfl⟩⟩
        exact he.symm.trans hsame
      | incompatible _ hknown => exact absurd (hknown wanted (by simp [himports])) hunknown

end Linker

end EventSandbox
