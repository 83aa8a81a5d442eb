import EventSandbox.Cli.Records
import EventSandbox.Proofs.Number.Checked

/-!
# EventSandbox.Proofs.Cli.Share — how records are divided among workers

The shares are the records cut in order (`flatten_share`). There is no share without records and
there are no more shares than workers, and all but the last are of the same size: the number of
records divided by that of workers, rounded up (`chunkSize_eq`).
-/

namespace EventSandbox.Cli

variable {α : Type} {size limit k workers : Nat} {xs records : List α}

/-! ## Chunks -/

theorem flatten_chunks (hsize : 1 ≤ size) (hlimit : xs.length ≤ limit) :
    (chunks size limit xs).flatten = xs := by
  induction limit generalizing xs with
  | zero =>
    have hxs : xs = [] := List.eq_nil_of_length_eq_zero (Nat.le_zero.1 hlimit)
    rw [hxs]
    rfl
  | succ limit ih =>
    cases xs with
    | nil => rfl
    -- As the chunks are not empty, what is left is shorter, and the bound on their number still
    -- holds.
    | cons x xs =>
      have hrest : ((x :: xs).drop size).length ≤ limit := by
        rw [List.length_drop]
        omega
      rw [chunks, List.flatten_cons, ih hrest, List.take_append_drop]

theorem ne_nil_of_mem_chunks (hsize : 1 ≤ size) {chunk : List α}
    (h : chunk ∈ chunks size limit xs) : chunk ≠ [] := by
  induction limit generalizing xs with
  | zero => cases h
  | succ limit ih =>
    cases xs with
    | nil => cases h
    | cons x xs =>
      rw [chunks] at h
      rcases List.mem_cons.1 h with rfl | hrest
      · have hpos : 0 < ((x :: xs).take size).length := by
          rw [List.length_take, List.length_cons]
          omega
        exact List.ne_nil_of_length_pos hpos
      · exact ih hrest

theorem length_chunks_le (h : xs.length ≤ k * size) : (chunks size limit xs).length ≤ k := by
  induction limit generalizing xs k with
  | zero => exact Nat.zero_le k
  | succ limit ih =>
    cases xs with
    | nil => exact Nat.zero_le k
    | cons x xs =>
      cases k with
      | zero =>
        rw [List.length_cons, Nat.zero_mul] at h
        cases h
      -- One chunk takes `size` of the elements, so one less is needed for the rest.
      | succ k =>
        have hrest : ((x :: xs).drop size).length ≤ k * size := by
          rw [List.length_drop]
          rw [Nat.succ_mul] at h
          omega
        rw [chunks, List.length_cons]
        exact Nat.succ_le_succ (ih hrest)

theorem length_le_of_mem_chunks {chunk : List α} (h : chunk ∈ chunks size limit xs) :
    chunk.length ≤ size := by
  induction limit generalizing xs with
  | zero => cases h
  | succ limit ih =>
    cases xs with
    | nil => cases h
    | cons x xs =>
      rw [chunks] at h
      rcases List.mem_cons.1 h with rfl | hrest
      · rw [List.length_take]
        exact Nat.min_le_left _ _
      · exact ih hrest

/-- Only the last chunk may be shorter. -/
theorem length_of_mem_dropLast_chunks {chunk : List α}
    (h : chunk ∈ (chunks size limit xs).dropLast) : chunk.length = size := by
  induction limit generalizing xs with
  | zero => cases h
  | succ limit ih =>
    cases xs with
    | nil => cases h
    | cons x xs =>
      rw [chunks] at h
      cases hrest : chunks size limit ((x :: xs).drop size) with
      | nil =>
        rw [hrest] at h
        cases h
      | cons next rest =>
        rw [hrest, List.dropLast_cons_of_ne_nil (List.cons_ne_nil next rest), ← hrest] at h
        rcases List.mem_cons.1 h with rfl | hmem
        · -- Something is left after it, so it was cut off in full.
          have hleft : (x :: xs).drop size ≠ [] := by
            intro hnil
            rw [hnil] at hrest
            cases limit <;> cases hrest
          have hlength := List.length_pos_of_ne_nil hleft
          rw [List.length_drop] at hlength
          rw [List.length_take]
          omega
        · exact ih hmem

/-! ## Shares -/

/-- The number of records divided by that of workers, rounded up. -/
theorem chunkSize_eq (n : Nat) (hworkers : 1 ≤ workers) : chunkSize n workers = n ⌈/⌉ workers :=
  div_add_rest n hworkers

theorem le_mul_chunkSize (n : Nat) (hworkers : 1 ≤ workers) :
    n ≤ workers * chunkSize n workers := by
  have hpos : 0 < workers := hworkers
  rw [chunkSize_eq n hworkers]
  exact le_smul_ceilDiv hpos

theorem one_le_chunkSize {n : Nat} (hn : 1 ≤ n) (hworkers : 1 ≤ workers) :
    1 ≤ chunkSize n workers := by
  have hle := le_mul_chunkSize n hworkers
  by_contra hzero
  have hsize : chunkSize n workers = 0 := by omega
  rw [hsize] at hle
  omega

/-- Put together, the shares are the records. -/
theorem flatten_share (hworkers : 1 ≤ workers) (records : List α) :
    (share workers records).flatten = records := by
  cases records with
  | nil => rfl
  | cons r records =>
    exact flatten_chunks (one_le_chunkSize (Nat.succ_pos _) hworkers) (Nat.le_refl _)

/-- How records are divided: into at most as many shares as there are workers, none of them empty,
of one size but for the last. -/
structure Divided (workers : Nat) (records : List α) (shares : List (List α)) : Prop where
  flatten : shares.flatten = records
  nonempty : ∀ share ∈ shares, share ≠ []
  length_le : shares.length ≤ workers
  size_le : ∀ share ∈ shares, share.length ≤ records.length ⌈/⌉ workers
  size : ∀ share ∈ shares.dropLast, share.length = records.length ⌈/⌉ workers

theorem divided_share (hworkers : 1 ≤ workers) (records : List α) :
    Divided workers records (share workers records) := by
  have hsize := chunkSize_eq records.length hworkers
  refine ⟨flatten_share hworkers records, ?_, ?_, ?_, ?_⟩
  · intro share hshare
    cases records with
    | nil => cases hshare
    | cons r records =>
      exact ne_nil_of_mem_chunks (one_le_chunkSize (Nat.succ_pos _) hworkers) hshare
  · exact length_chunks_le (le_mul_chunkSize records.length hworkers)
  · intro share hshare
    rw [← hsize]
    exact length_le_of_mem_chunks hshare
  · intro share hshare
    rw [← hsize]
    exact length_of_mem_dropLast_chunks hshare

end EventSandbox.Cli
