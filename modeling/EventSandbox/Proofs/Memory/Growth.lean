import EventSandbox.Proofs.Memory.Bytes

/-!
# EventSandbox.Proofs.Memory.Growth — a memory that only grows

No operation makes a memory smaller or moves its limit. `Memory.Grown` says so of two memories, and
what was in bounds of the first is in bounds of the second (`Grown.check`). To grow a memory leaves
its bytes as they are and adds zeros (`byte_of_grow?`); a memory that would pass its limit does not
grow (`grow?_eq_none_iff`).

Two memories with one limit are told apart by their sizes and their bytes alone (`eq_of_bytes`).
-/

namespace EventSandbox.Memory

variable {m m' m'' : Memory}

/-! ## Sizes -/

/-- What a memory can become: it is no smaller, and it may grow as far as before. -/
structure Grown (m m' : Memory) : Prop where
  maxPages : m'.maxPages = m.maxPages
  pageCount : m.pageCount ≤ m'.pageCount

namespace Grown

theorem refl (m : Memory) : Grown m m := ⟨rfl, Nat.le_refl _⟩

theorem trans (h : Grown m m') (h' : Grown m' m'') : Grown m m'' :=
  ⟨h'.maxPages.trans h.maxPages, Nat.le_trans h.pageCount h'.pageCount⟩

theorem size_le (h : Grown m m') : m.size ≤ m'.size := Nat.mul_le_mul_right pageSize h.pageCount

/-- What was in bounds stays in bounds. -/
theorem check (h : Grown m m') {address : UInt32} {length : Nat}
    (hcheck : m.check address length = .ok ()) : m'.check address length = .ok () := by
  rw [check_eq_ok] at hcheck ⊢
  exact ⟨hcheck.1, Nat.le_trans hcheck.2 h.size_le⟩

end Grown

theorem grown_of_write {address : UInt32} {bytes : Bytes} (h : m.write address bytes = .ok m') :
    Grown m m' := by
  obtain ⟨-, -, rfl⟩ := write_eq_ok.1 h
  constructor
  · exact maxPages_setSlice m _ bytes
  · exact Nat.le_of_eq (pageCount_setSlice m _ bytes).symm

/-- What has been checked can be written. -/
theorem writeWord_of_check {address : UInt32} (h : m.check address 4 = .ok ()) (word : UInt32) :
    ∃ m', m.writeWord address word = .ok m' := by
  obtain ⟨hlt, hle⟩ := check_eq_ok.1 h
  have hlength : (littleEndian 4 word.toNat).length = 4 := length_littleEndian 4 word.toNat
  refine ⟨_, write_eq_ok.2 ⟨?_, ?_, rfl⟩⟩
  · rw [hlength]
    exact hlt
  · rw [hlength]
    exact hle

/-! ## Growing -/

variable {more : Nat}

theorem grow?_eq_none_iff : m.grow? more = none ↔ m.maxPages < m.pageCount + more := by
  unfold grow?
  by_cases h : m.pageCount + more ≤ m.maxPages
  · rw [dif_pos h]
    constructor
    · intro hnone
      cases hnone
    · intro hlt
      omega
  · rw [dif_neg h]
    constructor
    · intro _
      omega
    · intro _
      rfl

/-- Beyond the end there are zeros to be read. -/
theorem byte_of_size_le {i : Nat} (h : m.size ≤ i) : m.byte i = 0 := by
  have hpage : ¬ pageOf i < m.pageCount := by
    rw [pageOf_lt_iff]
    omega
  have hnone : m.pages[pageOf i]? = none := Array.getElem?_eq_none (Nat.le_of_not_lt hpage)
  unfold byte
  rw [hnone]

theorem Page.get_zero (i : Fin pageSize) : Page.zero.get i = 0 := by
  unfold Page.get Page.zero
  exact Array.getElem_replicate _

/-- A memory that grows keeps its bytes, and the new ones are zeros. -/
theorem byte_of_grow? (h : m.grow? more = some m') (i : Nat) : m'.byte i = m.byte i := by
  unfold grow? at h
  split at h
  · cases h
    unfold byte
    dsimp only
    by_cases hpage : pageOf i < m.pages.size
    · rw [Array.getElem?_append_left hpage]
    · -- The index lies on a new page, which is a page of zeros, or beyond that.
      have hle : m.pages.size ≤ pageOf i := Nat.le_of_not_lt hpage
      rw [Array.getElem?_append_right hle, Array.getElem?_eq_none hle, Array.getElem?_replicate]
      by_cases hnew : pageOf i - m.pages.size < more
      · rw [if_pos hnew]
        exact Page.get_zero _
      · rw [if_neg hnew]
  · cases h

/-! ## Contents -/

theorem Page.ext_get {p q : Page} (h : ∀ i, p.get i = q.get i) : p = q := by
  obtain ⟨⟨data⟩, hdata⟩ := p
  obtain ⟨⟨data'⟩, hdata'⟩ := q
  have hsize : data.size = pageSize := hdata
  have hsize' : data'.size = pageSize := hdata'
  have harray : data = data' := by
    apply Array.ext
    · omega
    · intro i hi _
      exact h ⟨i, by omega⟩
  subst harray
  rfl

theorem pageOf_mul_add (k : Nat) (j : Fin pageSize) : pageOf (k * pageSize + j.val) = k := by
  unfold pageOf
  rw [Nat.mul_comm, Nat.mul_add_div (by decide), Nat.div_eq_of_lt j.isLt, Nat.add_zero]

theorem offsetOf_mul_add (k : Nat) (j : Fin pageSize) : offsetOf (k * pageSize + j.val) = j := by
  have hmod : (k * pageSize + j.val) % pageSize = j.val := by
    rw [Nat.mul_comm, Nat.mul_add_mod, Nat.mod_eq_of_lt j.isLt]
  exact Fin.ext hmod

theorem byte_of_page {i : Nat} {page : Page} (h : m.pages[pageOf i]? = some page) :
    m.byte i = page.get (offsetOf i) := by
  unfold byte
  rw [h]

/-- The place of a byte, from its page and the place on it. -/
theorem byte_mul_add {k : Nat} (hk : k < m.pages.size) (j : Fin pageSize) :
    m.byte (k * pageSize + j.val) = m.pages[k].get j := by
  have hpage : m.pages[pageOf (k * pageSize + j.val)]? = some m.pages[k] := by
    rw [pageOf_mul_add, Array.getElem?_eq_getElem hk]
  rw [byte_of_page hpage, offsetOf_mul_add]

/-- A memory is its size, its bytes and its limit. -/
theorem eq_of_bytes (hmax : m.maxPages = m'.maxPages) (hsize : m.size = m'.size)
    (hbytes : ∀ i, i < m.size → m.byte i = m'.byte i) : m = m' := by
  have hcount : m.pages.size = m'.pages.size := Nat.eq_of_mul_eq_mul_right (by decide) hsize
  have hpages : m.pages = m'.pages := by
    -- Pages of one size agree if their bytes do, and each byte of a page is a byte of the memory.
    apply Array.ext hcount
    intro k hk hk'
    apply Page.ext_get
    intro j
    have hlt : k * pageSize + j.val < m.size := by
      have hnext : (k + 1) * pageSize ≤ m.pages.size * pageSize := Nat.mul_le_mul_right pageSize hk
      have hj := j.isLt
      rw [Nat.add_mul, Nat.one_mul] at hnext
      show _ < m.pages.size * pageSize
      omega
    rw [← byte_mul_add hk j, ← byte_mul_add hk' j]
    exact hbytes _ hlt
  obtain ⟨pages, maxPages, _⟩ := m
  obtain ⟨pages', maxPages', _⟩ := m'
  obtain rfl : pages = pages' := hpages
  obtain rfl : maxPages = maxPages' := hmax
  rfl

/-- What has been overwritten can be put back. -/
theorem setSlice_setSlice_slice {start : Nat} (bytes : Bytes) (h : start + bytes.length ≤ m.size) :
    (m.setSlice start bytes).setSlice start (m.slice start bytes.length) = m := by
  refine eq_of_bytes (by simp) (by simp) fun i _ => ?_
  have hback : start + (m.slice start bytes.length).length ≤ (m.setSlice start bytes).size := by
    rwa [length_slice, size_setSlice]
  rw [byte_setSlice _ hback, byte_setSlice bytes h]
  by_cases hlow : start ≤ i
  · rw [if_pos hlow, if_pos hlow, List.getD_eq_getElem?_getD, List.getD_eq_getElem?_getD]
    by_cases hhigh : i - start < bytes.length
    · -- Both lists reach as far as this.
      rw [getElem?_slice m start hhigh, Nat.add_sub_cancel' hlow]
      rfl
    · rw [List.getElem?_eq_none (by simpa using hhigh),
        List.getElem?_eq_none (by simpa using hhigh)]
      rfl
  · rw [if_neg hlow, if_neg hlow]

end EventSandbox.Memory
