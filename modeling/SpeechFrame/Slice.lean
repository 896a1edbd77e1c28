import SpeechFrame.Fault

set_option autoImplicit false

/-! # Slices and loops over them

The leading entries of a list can be asked for as a slice, and it is a fault to ask for more than
there are (`sliceTo`). A vector is filled from a list by a loop that goes along both of them and ends
with the shorter one (`fillFrom`). What the loop leaves behind can be told at once, without going
along: `overwriteFrom` says which entry is at which place, and `fillFrom_eq_overwriteFrom` that the
loop comes to that. -/

namespace SpeechFrame

variable {α β : Type} {extent : Nat}

/-! ## Slices -/

/-- The first entries of a list. There have to be as many. -/
def sliceTo (stop : Nat) (entries : List α) : Except Fault (List α) :=
  if stop ≤ entries.length then .ok (entries.take stop)
  else .error (.outOfExtent stop entries.length)

theorem sliceTo_of_le {stop : Nat} {entries : List α} (h : stop ≤ entries.length) :
    sliceTo stop entries = .ok (entries.take stop) :=
  if_pos h

theorem sliceTo_of_lt {stop : Nat} {entries : List α} (h : entries.length < stop) :
    sliceTo stop entries = .error (.outOfExtent stop entries.length) :=
  if_neg (Nat.not_le.2 h)

/-- A slice that there is has the length that was asked for. -/
theorem length_of_sliceTo {stop : Nat} {entries slice : List α}
    (h : sliceTo stop entries = .ok slice) : slice.length = stop := by
  rcases Nat.lt_or_ge entries.length stop with hlt | hge
  · rw [sliceTo_of_lt hlt] at h
    cases h
  · rw [sliceTo_of_le hge] at h
    cases h
    exact List.length_take_of_le hge

/-! ## Filling a vector -/

/-- Put the images of some entries in place one after the other, from a given place on, for as long
    as there are an entry and a place for it. -/
def fillFrom (f : α → β) (out : Vector β extent) (place : Nat) : List α → Vector β extent
  | [] => out
  | entry :: rest =>
    if h : place < extent then fillFrom f (out.set place (f entry) h) (place + 1) rest else out

/-- A vector with new entries from place `start` on. -/
def overwriteFrom (v : Vector α extent) (start : Nat) (entries : List α) : Vector α extent :=
  .ofFn fun j => if h : start ≤ j ∧ j < start + entries.length then entries[j - start] else v.get j

theorem getElem_overwriteFrom (v : Vector α extent) (start : Nat) (entries : List α) (j : Nat)
    (hj : j < extent) :
    (overwriteFrom v start entries)[j] =
      if h : start ≤ j ∧ j < start + entries.length then entries[j - start] else v[j] := by
  rw [overwriteFrom, Vector.getElem_ofFn]
  rfl

theorem overwriteFrom_nil (v : Vector α extent) (start : Nat) : overwriteFrom v start [] = v := by
  ext j hj
  rw [getElem_overwriteFrom, dif_neg (by simp)]

/-- The first entry can be stored before the others. -/
theorem overwriteFrom_cons (v : Vector α extent) {start : Nat} (hstart : start < extent) (entry : α)
    (rest : List α) :
    overwriteFrom v start (entry :: rest) =
      overwriteFrom (v.set start entry) (start + 1) rest := by
  ext j hj
  simp only [getElem_overwriteFrom, Vector.getElem_set, List.length_cons]
  rcases Nat.lt_trichotomy start j with hlt | rfl | hgt
  · have hnext : j - start = j - (start + 1) + 1 := by omega
    simp only [hnext, List.getElem_cons_succ, if_neg (Nat.ne_of_lt hlt)]
    split <;> split <;> first | rfl | omega
  · rw [dif_pos (by omega), dif_neg (by omega), if_pos rfl]
    simp
  · rw [dif_neg (by omega), dif_neg (by omega), if_neg (by omega)]

/-- Entries beyond the end of the vector have no place in it. -/
theorem overwriteFrom_of_ge (v : Vector α extent) {start : Nat} (hstart : extent ≤ start)
    (entries : List α) : overwriteFrom v start entries = v := by
  ext j hj
  rw [getElem_overwriteFrom, dif_neg (by omega)]

/-- What the loop leaves behind. -/
theorem fillFrom_eq_overwriteFrom (f : α → β) (out : Vector β extent) (place : Nat)
    (entries : List α) :
    fillFrom f out place entries = overwriteFrom out place (entries.map f) := by
  induction entries generalizing out place with
  | nil => exact (overwriteFrom_nil out place).symm
  | cons entry rest ih =>
    rw [fillFrom, List.map_cons]
    split
    · next h => rw [ih, overwriteFrom_cons out h]
    · next h => rw [overwriteFrom_of_ge out (Nat.le_of_not_lt h)]

/-- A vector that is filled from its first place on, behind the new entries as it was. -/
theorem toList_fillFrom (f : α → β) (out : Vector β extent) {entries : List α}
    (h : entries.length ≤ extent) :
    (fillFrom f out 0 entries).toList = entries.map f ++ out.toList.drop entries.length := by
  rw [fillFrom_eq_overwriteFrom]
  apply List.ext_getElem
  · simp only [Vector.length_toList, List.length_append, List.length_map, List.length_drop]
    omega
  · intro j hj _
    rw [Vector.length_toList] at hj
    rw [Vector.getElem_toList, getElem_overwriteFrom]
    by_cases hnew : j < entries.length
    · rw [dif_pos (by simpa using hnew), List.getElem_append_left (by simpa using hnew)]
      rfl
    · rw [dif_neg (by simpa using hnew), List.getElem_append_right (by simpa using hnew),
        List.getElem_drop, Vector.getElem_toList]
      simp only [List.length_map, Nat.add_sub_cancel' (Nat.le_of_not_lt hnew)]

end SpeechFrame
