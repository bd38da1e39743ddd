import Keyring.Cipher.Aes

/-!
# Byte strings as blocks

A byte string divides into blocks exactly when its length is a multiple of the block size, and then
in one way only. A key has round keys exactly when it has one of the three known lengths.
-/

namespace Keyring.Aes

/-! ## Four at a time -/

section

variable {α β : Type} {make : α → α → α → α → β}

/-- Taking four at a time reads back what the items of each group spell in a row. -/
theorem fours?_eq_some_iff {parts : β → List α}
    (hparts : ∀ a b c d, parts (make a b c d) = [a, b, c, d])
    (hmake : ∀ y, ∃ a b c d, y = make a b c d) {xs : List α} {ys : List β} :
    fours? make xs = some ys ↔ xs = ys.flatMap parts := by
  constructor
  · intro h
    fun_induction fours? make xs generalizing ys with
    | case1 => simp_all
    | case2 a b c d rest ih =>
      obtain ⟨tail, htail, rfl⟩ := Option.map_eq_some_iff.1 h
      rw [List.flatMap_cons, ← ih htail, hparts]
      rfl
    | case3 => simp at h
  · rintro rfl
    induction ys with
    | nil => rfl
    | cons y rest ih =>
      obtain ⟨a, b, c, d, rfl⟩ := hmake y
      simp [hparts, fours?, ih]

theorem length_of_fours? {xs : List α} {ys : List β} (h : fours? make xs = some ys) :
    xs.length = 4 * ys.length := by
  fun_induction fours? make xs generalizing ys with
  | case1 => simp_all
  | case2 a b c d rest ih =>
    obtain ⟨tail, htail, rfl⟩ := Option.map_eq_some_iff.1 h
    have hrest := ih htail
    simp only [List.length_cons]
    omega
  | case3 => simp at h

theorem isSome_fours? (xs : List α) : (fours? make xs).isSome ↔ 4 ∣ xs.length := by
  constructor
  · intro h
    obtain ⟨ys, hys⟩ := Option.isSome_iff_exists.1 h
    exact ⟨ys.length, length_of_fours? hys⟩
  · rintro ⟨k, hk⟩
    induction k generalizing xs with
    | zero => simp [List.eq_nil_of_length_eq_zero hk, fours?]
    | succ k ih =>
      match xs, hk with
      | a :: b :: c :: d :: rest, hk =>
        have hrest : rest.length = 4 * k := by
          simp only [List.length_cons] at hk
          omega
        simp [fours?, ih rest hrest]
      | [], hk | [_], hk | [_, _], hk | [_, _, _], hk =>
        simp at hk <;> omega

end

/-! ## Blocks of a byte string -/

/-- The columns of a block, in order. -/
def Block.words (s : Block) : List Word := [s.w, s.x, s.y, s.z]

@[simp] theorem Block.length_bytes (s : Block) : s.bytes.length = blockSize := rfl

theorem Block.flatMap_words (s : Block) : s.words.flatMap Word.bytes = s.bytes := by
  simp [Block.words, Block.bytes]

theorem length_flatMap_bytes (blocks : List Block) :
    (blocks.flatMap Block.bytes).length = blockSize * blocks.length := by
  induction blocks with
  | nil => rfl
  | cons s rest ih => simp [ih, Nat.mul_add, Nat.add_comm]

theorem words?_eq_some_iff {bytes : Bytes} {ws : List Word} :
    words? bytes = some ws ↔ bytes = ws.flatMap Word.bytes :=
  fours?_eq_some_iff (fun _ _ _ _ => rfl) fun u => ⟨u.a, u.b, u.c, u.d, rfl⟩

theorem groupWords?_eq_some_iff {ws : List Word} {blocks : List Block} :
    groupWords? ws = some blocks ↔ ws = blocks.flatMap Block.words :=
  fours?_eq_some_iff (fun _ _ _ _ => rfl) fun s => ⟨s.w, s.x, s.y, s.z, rfl⟩

/-- A byte string divides into the blocks whose bytes spell it. -/
theorem blocks?_eq_some_iff {bytes : Bytes} {blocks : List Block} :
    blocks? bytes = some blocks ↔ bytes = blocks.flatMap Block.bytes := by
  simp only [blocks?, Option.bind_eq_bind, Option.bind_eq_some_iff, words?_eq_some_iff,
    groupWords?_eq_some_iff, exists_eq_right, List.flatMap_assoc, Block.flatMap_words]

/-- A byte string divides into blocks when its length is a multiple of the block size. -/
theorem isSome_blocks? (bytes : Bytes) : (blocks? bytes).isSome ↔ blockSize ∣ bytes.length := by
  constructor
  · intro h
    obtain ⟨blocks, hblocks⟩ := Option.isSome_iff_exists.1 h
    rw [blocks?_eq_some_iff.1 hblocks, length_flatMap_bytes]
    exact Nat.dvd_mul_right ..
  · rintro ⟨k, hk⟩
    have hwords : (words? bytes).isSome := (isSome_fours? bytes).2 ⟨4 * k, by
      rw [hk, blockSize]
      omega⟩
    obtain ⟨ws, hws⟩ := Option.isSome_iff_exists.1 hwords
    have hlength : bytes.length = 4 * ws.length := length_of_fours? hws
    have hgroups : (groupWords? ws).isSome := (isSome_fours? ws).2 ⟨k, by
      rw [blockSize] at hk
      omega⟩
    simpa [blocks?, hws] using hgroups

/-- A byte string of one block's length is one block. -/
theorem exists_block {bytes : Bytes} (h : bytes.length = blockSize) :
    ∃ s : Block, bytes = s.bytes := by
  have hsome := (isSome_blocks? bytes).2 ⟨1, by rw [h, Nat.mul_one]⟩
  obtain ⟨blocks, hblocks⟩ := Option.isSome_iff_exists.1 hsome
  have hbytes := blocks?_eq_some_iff.1 hblocks
  have hone : blocks.length = 1 := by
    rw [hbytes, length_flatMap_bytes, blockSize] at h
    omega
  obtain ⟨s, rfl⟩ := List.length_eq_one_iff.1 hone
  exact ⟨s, by rw [hbytes, List.flatMap_singleton]⟩

/-! ## Round keys -/

/-- The schedule never runs dry: each step takes one word off the window and puts one on. -/
theorem length_expand (keyWords : Nat) {count index : Nat} {window : List Word}
    (h : window ≠ []) : (expand keyWords count index window).length = count := by
  induction count generalizing index window with
  | zero => simp [expand]
  | succ count ih =>
    match window, h with
    | word :: rest, _ =>
      rw [expand, List.length_cons, ih (by simp)]

/-- There are round keys for the three known key lengths and for no other. -/
theorem isSome_roundKeys? (key : Bytes) :
    (roundKeys? key).isSome ↔ key.length = 16 ∨ key.length = 24 ∨ key.length = 32 := by
  unfold roundKeys?
  split
  case isTrue h =>
    have hwords : (words? key).isSome := (isSome_fours? key).2 (by omega)
    obtain ⟨window, hwindow⟩ := Option.isSome_iff_exists.1 hwords
    have hlength : key.length = 4 * window.length := length_of_fours? hwindow
    have hne : window ≠ [] := by
      rintro rfl
      rw [List.length_nil] at hlength
      omega
    have hgroups : (groupWords?
        (expand (key.length / 4) (4 * (key.length / 4 + 7)) 0 window)).isSome :=
      (isSome_fours? _).2 (by rw [length_expand _ hne]; exact Nat.dvd_mul_right ..)
    simpa [hwindow, h] using hgroups
  case isFalse h => simpa using h

end Keyring.Aes
