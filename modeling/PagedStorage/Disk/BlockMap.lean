import Std.Data.TreeMap
import PagedStorage.Page.Image

namespace PagedStorage

/-- Blocks by their index. The ones left out are blank. -/
abbrev BlockMap := Std.TreeMap Nat Image

namespace BlockMap

def block (blocks : BlockMap) (index : Nat) : Image := blocks.getD index Image.blank

def byte (blocks : BlockMap) (position : Nat) : UInt8 :=
  have hlt : position % pageSize < pageSize := Nat.mod_lt position (by decide)
  (blocks.block (position / pageSize))[position % pageSize]

def overwrite (blocks : BlockMap) (position : Nat) (image : Image) : BlockMap :=
  let index := position / pageSize
  let shift := position % pageSize
  if shift = 0 then blocks.insert index image
  else
    let first := Image.overwrite (blocks.block index) shift (image.slice 0 (pageSize - shift))
    let second :=
      Image.overwrite (blocks.block (index + 1)) 0 (image.slice (pageSize - shift) pageSize)
    (blocks.insert index first).insert (index + 1) second

def truncate (blocks : BlockMap) (position : Nat) : BlockMap :=
  let index := position / pageSize
  let shift := position % pageSize
  (blocks.filter fun i _ => decide (i < index)).insert index
    (Image.overwrite (blocks.block index) shift (List.replicate (pageSize - shift) 0))

def ofBytes (bytes : Array UInt8) : Nat → BlockMap
  | 0 => ∅
  | count + 1 =>
    (ofBytes bytes count).insert count
      (Vector.ofFn fun i => bytes.getD (count * pageSize + i.val) 0)

theorem block_empty (index : Nat) : block ∅ index = Image.blank := by
  simp [block]

theorem block_insert (blocks : BlockMap) (index : Nat) (image : Image) (i : Nat) :
    block (blocks.insert index image) i = if index = i then image else blocks.block i := by
  simp only [block, Std.TreeMap.getD_insert, Nat.compare_eq_eq]

theorem block_filter (blocks : BlockMap) (index i : Nat) :
    block (blocks.filter fun i _ => decide (i < index)) i =
      if i < index then blocks.block i else Image.blank := by
  simp only [block, Std.TreeMap.getD_eq_getD_getElem?, Std.TreeMap.getElem?_filter,
    Std.TreeMap.getKey_eq]
  by_cases h : i < index <;> cases blocks[i]? <;> simp [h, Option.filter]

theorem byte_empty (position : Nat) : byte ∅ position = 0 := by
  simp [byte, block_empty, Image.blank]

theorem byte_insert (blocks : BlockMap) (index : Nat) (image : Image) (position : Nat) :
    byte (blocks.insert index image) position =
      if position / pageSize = index then
        have hlt : position % pageSize < pageSize := Nat.mod_lt position (by decide)
        image[position % pageSize]
      else blocks.byte position := by
  simp only [byte, block_insert]
  split
  · rename_i h
    simp [h]
  · rename_i h
    simp [Ne.symm h]

theorem byte_overwrite (blocks : BlockMap) (start : Nat) (image : Image) (position : Nat) :
    (blocks.overwrite start image).byte position =
      if h : start ≤ position ∧ position < start + pageSize then image[position - start]
      else blocks.byte position := by
  simp only [overwrite]
  split
  · rw [byte_insert]
    split
    · rw [dif_pos (by simp only [pageSize] at *; omega)]
      exact getElem_congr_idx (by simp only [pageSize] at *; omega)
    · rw [dif_neg (by simp only [pageSize] at *; omega)]
  · simp only [byte_insert, Image.getElem_overwrite, Image.length_slice image (Nat.le_refl _),
      Image.length_slice image (Nat.sub_le pageSize _)]
    by_cases h : start ≤ position ∧ position < start + pageSize
    · rw [dif_pos h]
      split
      · rw [dif_pos (by simp only [pageSize] at *; omega), Image.getElem_slice]
        · exact getElem_congr_idx (by simp only [pageSize] at *; omega)
        · simp only [pageSize] at *; omega
      · rw [if_pos (by simp only [pageSize] at *; omega),
          dif_pos (by simp only [pageSize] at *; omega), Image.getElem_slice]
        · exact getElem_congr_idx (by simp only [pageSize] at *; omega)
        · simp only [pageSize] at *; omega
    · rw [dif_neg h]
      split
      · rename_i hi
        rw [dif_neg (by simp only [pageSize] at *; omega), byte]
        simp only [hi]
      · split
        · rename_i hi
          rw [dif_neg (by simp only [pageSize] at *; omega), byte]
          simp only [hi]
        · rfl

theorem byte_truncate (blocks : BlockMap) (size position : Nat) :
    (blocks.truncate size).byte position = if position < size then blocks.byte position else 0 := by
  simp only [truncate, byte_insert, Image.getElem_overwrite, List.length_replicate,
    List.getElem_replicate]
  split
  · rename_i hi
    split
    · rw [if_neg (by simp only [pageSize] at *; omega)]
    · rw [if_pos (by simp only [pageSize] at *; omega), byte]
      simp only [hi]
  · rw [byte, block_filter]
    split
    · have hlt : position < size := by simp only [pageSize] at *; omega
      rw [if_pos hlt, byte]
    · have hge : ¬position < size := by simp only [pageSize] at *; omega
      rw [if_neg hge]
      simp [Image.blank]

theorem byte_ofBytes (bytes : Array UInt8) (count position : Nat) :
    (ofBytes bytes count).byte position =
      if position < count * pageSize then bytes.getD position 0 else 0 := by
  induction count with
  | zero => simp [ofBytes, byte_empty]
  | succ count ih =>
    rw [ofBytes, byte_insert, ih]
    have hs : (count + 1) * pageSize = count * pageSize + pageSize := Nat.succ_mul count pageSize
    have hd := Nat.div_add_mod' position pageSize
    have hm := Nat.mod_lt position (show 0 < pageSize by decide)
    split
    · rename_i hi
      rw [hi] at hd
      have hlt : position < (count + 1) * pageSize := by omega
      rw [if_pos hlt]
      simp only [Vector.getElem_ofFn, hd]
    · rename_i hi
      by_cases hlt : position < count * pageSize
      · rw [if_pos hlt, if_pos (by omega)]
      · have hge : ¬position < (count + 1) * pageSize := by
          rw [← Nat.div_lt_iff_lt_mul (by decide)] at hlt ⊢
          omega
        rw [if_neg hlt, if_neg hge]

end BlockMap

end PagedStorage
