import Mathlib.Data.List.Forall2
import Mathlib.Tactic

/-!
# Reading back what has been written

A reader takes a value from the front of a list and leaves the rest.  `Reads r chunk a` says that `r` reads `a` from
exactly `chunk`, whatever follows; this composes, so a list of chunks is read one after the other.
-/

namespace Reading

open List

variable {β α γ : Type*}

/-- A value and what is left, or nothing at all. -/
abbrev Reader (β α : Type*) := List β → Option (α × List β)

def Reader.bind (r : Reader β α) (f : α → Reader β γ) : Reader β γ := fun bytes =>
  match r bytes with
  | some (a, rest) => f a rest
  | none => none

def Reader.map (g : α → γ) (r : Reader β α) : Reader β γ := fun bytes =>
  match r bytes with
  | some (a, rest) => some (g a, rest)
  | none => none

/-- Exactly `chunk` is read. -/
def Reads (r : Reader β α) (chunk : List β) (a : α) : Prop := ∀ rest, r (chunk ++ rest) = some (a, rest)

namespace Reads

variable {r : Reader β α} {f : α → Reader β γ} {chunk chunk' : List β} {a : α} {c : γ}

lemma map (g : α → γ) (h : Reads r chunk a) : Reads (r.map g) chunk (g a) := by
  intro rest
  rw [Reader.map, h rest]

lemma bind (h : Reads r chunk a) (h' : Reads (f a) chunk' c) : Reads (r.bind f) (chunk ++ chunk') c := by
  intro rest
  rw [Reader.bind, append_assoc, h (chunk' ++ rest)]
  exact h' rest

end Reads

/-! ## Lists of values -/

def readList : List (Reader β α) → Reader β (List α)
  | [], bytes => some ([], bytes)
  | r :: rs, bytes =>
    match r bytes with
    | some (a, rest) => ((readList rs rest).map fun p => (a :: p.1, p.2))
    | none => none

lemma reads_readList {ι : Type*} (reader : ι → Reader β α) (value : ι → α) {items : List ι}
    {chunks : List (List β)} (h : List.Forall₂ (fun i chunk => Reads (reader i) chunk (value i)) items chunks) :
    Reads (readList (items.map reader)) chunks.flatten (items.map value) := by
  induction h with
  | nil => exact fun rest => rfl
  | cons hfirst _ ih =>
    intro rest
    rw [map_cons, map_cons, flatten_cons, append_assoc, readList, hfirst]
    dsimp only
    rw [ih rest]
    rfl

lemma forall₂_set {ι κ : Type*} {R : ι → κ → Prop} {is : List ι} {ks : List κ} (h : List.Forall₂ R is ks) {i : ι} {k : κ}
    (hnew : R i k) (index : ℕ) : List.Forall₂ R (is.set index i) (ks.set index k) := by
  induction h generalizing index with
  | nil => exact .nil
  | cons hfirst hrest ih =>
    cases index with
    | zero => exact .cons hnew hrest
    | succ index => exact .cons hfirst (ih index)

/-! ## Chunks at their places -/

variable (chunks : List (List β))

/-- Where a chunk begins. -/
def place (index : ℕ) : ℕ := (chunks.take index).flatten.length

@[simp] lemma place_length : place chunks chunks.length = chunks.flatten.length := by
  rw [place, take_length]

lemma drop_place (index : ℕ) : chunks.flatten.drop (place chunks index) = (chunks.drop index).flatten := by
  have hsplit : chunks.flatten = (chunks.take index).flatten ++ (chunks.drop index).flatten := by
    simp [← flatten_append]
  rw [hsplit, place, drop_left]

lemma place_append (chunk : List β) {index : ℕ} (h : index ≤ chunks.length) :
    place (chunks ++ [chunk]) index = place chunks index := by
  rw [place, place, take_append_of_le_length h]

lemma place_succ {chunks : List (List β)} {index : ℕ} (h : index < chunks.length) :
    place chunks (index + 1) = place chunks index + (chunks.get ⟨index, h⟩).length := by
  rw [place, place, take_succ_eq_append_getElem h, flatten_append, List.length_append, flatten_singleton,
    get_eq_getElem]

lemma place_le (index : ℕ) : place chunks index ≤ chunks.flatten.length := by
  rw [← take_append_drop index chunks, flatten_append, List.length_append, take_append_drop]
  exact Nat.le_add_right _ _

lemma place_set {chunks : List (List β)} {index : ℕ} {chunk : List β} (h : index < chunks.length)
    (hlength : chunk.length = (chunks.get ⟨index, h⟩).length) (other : ℕ) :
    place (chunks.set index chunk) other = place chunks other := by
  have hmap : (chunks.set index chunk).map List.length = chunks.map List.length := by
    rw [map_set, hlength]
    refine ext_getElem (length_set ..) fun i hi _ => ?_
    rw [getElem_set]
    split_ifs with heq
    · subst heq
      simp
    · rfl
  simp [place, place, hmap]

def overwrite (place : ℕ) (chunk : List β) (buffer : List β) : List β :=
  buffer.take place ++ chunk ++ buffer.drop (place + chunk.length)

lemma overwrite_place {chunks : List (List β)} {index : ℕ} {chunk : List β} (h : index < chunks.length)
    (hlength : chunk.length = (chunks.get ⟨index, h⟩).length) :
    overwrite (place chunks index) chunk chunks.flatten = (chunks.set index chunk).flatten := by
  have hsplit : chunks = chunks.take index ++ chunks.get ⟨index, h⟩ :: chunks.drop (index + 1) := by
    rw [get_eq_getElem, ← drop_eq_getElem_cons h, take_append_drop]
  have hset : chunks.set index chunk = chunks.take index ++ chunk :: chunks.drop (index + 1) :=
    set_eq_take_append_cons_drop.trans (if_pos h)
  have hflatten : chunks.flatten =
      (chunks.take index).flatten ++ (chunks.get ⟨index, h⟩ ++ (chunks.drop (index + 1)).flatten) := by
    conv_lhs => rw [hsplit]
    rw [flatten_append, flatten_cons]
  rw [overwrite, hset, flatten_append, flatten_cons, hflatten, place, List.take_left, hlength,
    ← drop_drop, drop_left, drop_left, append_assoc]

end Reading
