set_option autoImplicit false

/-! # Windows on a vector

The filters of all subframes lie one after the other in one vector, each in a bank of its own. A
window is a run of consecutive entries that is known to lie inside such a vector, so reading and
writing through it need no check. The lemma to know is `getElem_read_write_ofBank`: a bank shows what
was written to its leading places, and behind those, or if another bank was written, what it held. -/

namespace SpeechFrame

/-- A run of `length` consecutive entries of a vector with `extent` entries. -/
structure Window (extent length : Nat) where
  start : Nat
  fits : start + length ≤ extent

namespace Window

variable {α : Type} {extent length : Nat}

/-- The first entries of a vector. -/
def leading (h : length ≤ extent) : Window extent length where
  start := 0
  fits := by omega

/-- The first entries of bank `k`, where the vector is divided into `count` banks of one size. -/
def ofBank {count size k : Nat} (hk : k < count) (h : length ≤ size) :
    Window (count * size) length where
  start := k * size
  fits := calc
    k * size + length ≤ k * size + size := Nat.add_le_add_left h _
    _ = (k + 1) * size := (Nat.succ_mul k size).symm
    _ ≤ count * size := Nat.mul_le_mul_right size hk

/-- Whether entry `j` of the vector lies in the window. -/
abbrev Covers (w : Window extent length) (j : Nat) : Prop :=
  w.start ≤ j ∧ j < w.start + length

/-- The entry of the vector that the window shows at `i`. -/
def index (w : Window extent length) (i : Fin length) : Fin extent :=
  ⟨w.start + i, by have := w.fits; omega⟩

/-- The place in the window at which it shows entry `j` of the vector. -/
def offset (w : Window extent length) (j : Nat) (h : w.Covers j) : Fin length :=
  ⟨j - w.start, by omega⟩

/-- The entries of a vector that a window shows. -/
def read (w : Window extent length) (v : Vector α extent) : Vector α length :=
  Vector.ofFn fun i => v[w.index i]

/-- The vector with new entries in the window and its own entries around it. -/
def write (w : Window extent length) (v : Vector α extent) (entries : Vector α length) :
    Vector α extent :=
  Vector.ofFn fun j => if h : w.Covers j then entries[w.offset j h] else v[j]

theorem start_ofBank {count size k : Nat} (hk : k < count) (h : length ≤ size) :
    (ofBank hk h).start = k * size :=
  rfl

/-- The window of a bank covers the leading places of that bank. -/
theorem covers_ofBank_iff {count size k : Nat} (hk : k < count) (h : length ≤ size) (j : Nat) :
    (ofBank hk h).Covers j ↔ j / size = k ∧ j % size < length := by
  constructor
  · rintro ⟨hstart, hend⟩
    obtain ⟨i, rfl⟩ := Nat.exists_eq_add_of_le hstart
    have hi : i < length := Nat.lt_of_add_lt_add_left hend
    have hsize : i < size := Nat.lt_of_lt_of_le hi h
    have hdiv : (k * size + i) / size = k := by
      rw [Nat.add_comm, Nat.add_mul_div_right _ _ (Nat.zero_lt_of_lt hsize),
        Nat.div_eq_of_lt hsize, Nat.zero_add]
    have hmod : (k * size + i) % size < length := by
      rw [Nat.add_comm, Nat.add_mul_mod_self_right, Nat.mod_eq_of_lt hsize]
      exact hi
    exact ⟨hdiv, hmod⟩
  · rintro ⟨rfl, hmod⟩
    have hj : j / size * size + j % size = j := Nat.div_add_mod' j size
    have hstart : (ofBank hk h).start = j / size * size := start_ofBank hk h
    exact ⟨by omega, by omega⟩

/-- Windows on different banks share no entry. -/
theorem not_covers_ofBank_of_ne {count size k k' length' : Nat} (hk : k < count)
    (h : length ≤ size) (hk' : k' < count) (h' : length' ≤ size) (hne : k ≠ k') (j : Nat)
    (hj : (ofBank hk h).Covers j) : ¬ (ofBank hk' h').Covers j := by
  intro hj'
  obtain ⟨hdiv, -⟩ := (covers_ofBank_iff hk h j).1 hj
  obtain ⟨hdiv', -⟩ := (covers_ofBank_iff hk' h' j).1 hj'
  exact hne (hdiv.symm.trans hdiv')

/-! ## What a window shows -/

theorem getElem_read (w : Window extent length) (v : Vector α extent) (i : Nat) (h : i < length) :
    (w.read v)[i] = v[w.index ⟨i, h⟩] := by
  simp [read]

theorem getElem_write (w : Window extent length) (v : Vector α extent) (entries : Vector α length)
    (j : Nat) (h : j < extent) :
    (w.write v entries)[j] = if h' : w.Covers j then entries[w.offset j h'] else v[j] := by
  simp [write]

/-- A window shows nothing of what was written through another that shares no entry with it. -/
theorem read_write_of_disjoint {length' : Nat} (w : Window extent length)
    (w' : Window extent length') (v : Vector α extent) (entries : Vector α length')
    (h : ∀ j, w.Covers j → ¬ w'.Covers j) :
    w.read (w'.write v entries) = w.read v := by
  ext i hi
  have hc : ¬ w'.Covers (w.start + i) := h _ (by omega)
  simp [getElem_read, getElem_write, index, hc]

/-- The first entries of one vector put in the place of the first entries of another. -/
theorem getElem_write_read_leading (h : length ≤ extent) (v v' : Vector α extent) (j : Nat)
    (hj : j < extent) :
    ((leading h).write v ((leading h).read v'))[j] = if j < length then v'[j] else v[j] := by
  have hcovers : (leading h).Covers j ↔ j < length := by simp [Covers, leading]
  rw [getElem_write]
  by_cases hlength : j < length
  · rw [dif_pos (hcovers.2 hlength), if_pos hlength]
    simp [getElem_read, index, offset, leading]
  · rw [dif_neg (mt hcovers.1 hlength), if_neg hlength]

/-- What a window shows is a stretch of the list of all entries. -/
theorem toList_read (w : Window extent length) (v : Vector α extent) :
    (w.read v).toList = (v.toList.drop w.start).take length := by
  have hfits := w.fits
  apply List.ext_getElem
  · simp only [Vector.length_toList, List.length_take, List.length_drop]
    omega
  · intro i hi _
    simp [getElem_read, index]

/-! ## Whole banks -/

/-- A bank after a write to the leading places of some bank: if it is the same one, the new entries
    are in front, and what they do not reach is as it was. -/
theorem getElem_read_write_ofBank {count size k k' : Nat} (hk : k < count) (h : length ≤ size)
    (hk' : k' < count) (v : Vector α (count * size)) (entries : Vector α length) (i : Nat)
    (hi : i < size) :
    ((ofBank hk' (Nat.le_refl size)).read ((ofBank hk h).write v entries))[i] =
      (if k' = k then entries[i]? else none).getD
        ((ofBank hk' (Nat.le_refl size)).read v)[i] := by
  by_cases heq : k' = k
  · subst heq
    have hcovers : (ofBank hk h).Covers (k' * size + i) ↔ i < length := by
      simp [Covers, start_ofBank]
    simp only [getElem_read, getElem_write, index, offset, Fin.getElem_fin, start_ofBank, hcovers]
    by_cases hlength : i < length
    · simp [hlength]
    · simp [hlength]
  · rw [if_neg heq, read_write_of_disjoint _ _ v entries
      (not_covers_ofBank_of_ne hk' (Nat.le_refl size) hk h heq)]
    rfl

/-- All the banks together are the vector. -/
theorem eq_of_read_ofBank {count size : Nat} {v v' : Vector α (count * size)}
    (h : ∀ k (hk : k < count),
      (ofBank hk (Nat.le_refl size)).read v = (ofBank hk (Nat.le_refl size)).read v') : v = v' := by
  ext j hj
  have hsize : 0 < size := Nat.pos_of_mul_pos_left (Nat.zero_lt_of_lt hj)
  have hk : j / size < count := (Nat.div_lt_iff_lt_mul hsize).2 hj
  have hi : j % size < size := Nat.mod_lt j hsize
  have hread : ∀ v : Vector α (count * size),
      ((ofBank hk (Nat.le_refl size)).read v)[j % size] = v[j] := by
    intro v
    simp [getElem_read, index, start_ofBank, Nat.div_add_mod']
  rw [← hread v, ← hread v', h _ hk]

end Window

end SpeechFrame
