import SpiderMonkey.StructuredClone.Reader

/-!
# The input of the reader

Whatever the data are, the functions of `SCInput` have an outcome, stay inside of the data and change
nothing but the place up to which the data have been read.
-/

namespace SpiderMonkey.StructuredClone

open LittleEndian Script

lemma remainingInSegment_add_le (sizes : List ℕ) (point : ℕ) (h : 0 < remainingInSegment sizes point) :
    point + remainingInSegment sizes point ≤ sizes.sum := by
  induction sizes generalizing point with
  | nil => exact absurd h (Nat.lt_irrefl 0)
  | cons size sizes ih =>
    unfold remainingInSegment at h ⊢
    rw [List.sum_cons]
    split_ifs at h ⊢ with hlt
    · omega
    · have := ih (point - size) h
      omega

namespace Reader

/-- The data fill the segments and have been read up to a place inside of them. -/
structure InBounds (cx : ReadContext) (r : Reader) : Prop where
  segments : cx.segments.sum = r.data.length
  point_le : r.point ≤ r.data.length

/-- Some of the data have been read, and nothing else has happened. -/
def Consumed (size : ℕ) (r r' : Reader) : Prop :=
  ∃ point, r' = r.seekTo point ∧ r.point + size ≤ point ∧ point ≤ r.data.length

namespace Consumed

variable {cx : ReadContext} {r r' r'' : Reader} {size size' : ℕ}

lemma refl (h : r.InBounds cx) : Consumed 0 r r := ⟨r.point, rfl, le_rfl, h.point_le⟩

lemma trans (h : Consumed size r r') (h' : Consumed size' r' r'') : Consumed (size + size') r r'' := by
  obtain ⟨point, rfl, hle, hlen⟩ := h
  obtain ⟨point', rfl, hle', hlen'⟩ := h'
  exact ⟨point', rfl, by change point + size' ≤ point' at hle'; omega, hlen'⟩

lemma weaken (h : Consumed size r r') (hle : size' ≤ size) : Consumed size' r r' := by
  obtain ⟨point, rfl, hpoint, hlen⟩ := h
  exact ⟨point, rfl, by omega, hlen⟩

lemma inBounds (h : Consumed size r r') (hr : r.InBounds cx) : r'.InBounds cx := by
  obtain ⟨point, rfl, -, hlen⟩ := h
  exact ⟨hr.segments, hlen⟩

lemma advance (hr : r.InBounds cx) (size : ℕ) : Consumed 0 r (r.advance size) :=
  ⟨min (r.point + size) r.data.length, rfl, by have := hr.point_le; omega, Nat.min_le_right _ _⟩

lemma advance_of_le (hle : r.point + size ≤ r.data.length) : Consumed size r (r.advance size) :=
  ⟨min (r.point + size) r.data.length, rfl, by omega, Nat.min_le_right _ _⟩

end Consumed

end Reader

namespace ReadOp

open Reader (Consumed InBounds)

variable {cx : ReadContext} {r : Reader}

/-- The word at the place up to which the data have been read. -/
def wordAt (r : Reader) : ℕ := Radix.val ((r.data.drop r.point).take 8)

section

variable (hr : r.InBounds cx)

include hr

lemma runs_get : Runs (get cx) r (fun u r' => r' = r ∧ u = wordAt r ∧ r.point + 8 ≤ r.data.length) fun _ _ => True := by
  refine .bind (.get (.ite (fun hroom => ?_) fun _ => .throw trivial))
  refine .bind (.get (.bind (.assert hroom (.pure ⟨rfl, rfl, ?_⟩))))
  have := remainingInSegment_add_le cx.segments r.point (by omega)
  rw [← hr.segments]
  omega

lemma runs_read : Runs (read cx) r (fun u r' => Consumed 8 r r' ∧ u = wordAt r) fun _ _ => True := by
  refine .bind ((runs_get hr).imp ?_ fun _ _ h => h)
  rintro u _ ⟨rfl, rfl, hle⟩
  exact .bind (.modify (.pure ⟨.advance_of_le hle, rfl⟩))

lemma runs_getPair : Runs (getPair cx) r
    (fun p r' => r' = r ∧ p = splitPair (wordAt r) ∧ r.point + 8 ≤ r.data.length) fun _ _ => True := by
  refine .bind ((runs_get hr).imp ?_ fun _ _ h => h)
  rintro u _ ⟨rfl, rfl, hle⟩
  exact .pure ⟨rfl, rfl, hle⟩

lemma runs_readPair : Runs (readPair cx) r
    (fun p r' => Consumed 8 r r' ∧ p = splitPair (wordAt r)) fun _ _ => True := by
  refine .bind ((runs_read hr).imp ?_ fun _ _ h => h)
  rintro u _ ⟨hr', rfl⟩
  exact .pure ⟨hr', rfl⟩

lemma runs_readDouble : Runs (readDouble cx) r (fun _ r' => Consumed 8 r r') fun _ _ => True := by
  refine .bind ((runs_read hr).imp ?_ fun _ _ h => h)
  rintro u _ ⟨hr', -⟩
  exact .pure hr'

lemma runs_readRaw (size : ℕ) : Runs (readRaw size) r
    (fun bytes r' => Consumed 0 r r' ∧ bytes.length = size) fun _ _ => True := by
  refine .bind (.get (.bind (.modify (.ite (fun hle => .pure ⟨.advance hr size, ?_⟩) fun _ => .throw trivial))))
  rw [List.length_take, List.length_drop]
  omega

end

lemma length_decodeArray (size count : ℕ) (bytes : List Byte) : (decodeArray size count bytes).length = count := by
  induction count generalizing bytes with
  | zero => rfl
  | succ count ih => rw [decodeArray, List.length_cons, ih]

lemma runs_readArray (hr : r.InBounds cx) (elemSize nelems : ℕ) : Runs (readArray elemSize nelems) r
    (fun ns r' => Consumed 0 r r' ∧ ns.length = nelems ∧ ∀ n ∈ ns, n < (2 ^ 8) ^ elemSize)
      fun _ _ => True := by
  refine .ite (fun hzero => .pure ⟨.refl hr, hzero.symm, by simp⟩) fun _ => ?_
  refine .ite (fun _ => .throw trivial) fun _ => ?_
  refine .bind ((runs_readRaw hr _).imp ?_ fun _ _ h => h)
  rintro bytes r' ⟨hr', -⟩
  refine .bind (.modify (.pure ⟨hr'.trans (.advance (hr'.inBounds hr) _), length_decodeArray _ _ _, ?_⟩))
  exact fun n hn => lt_of_mem_decodeArray hn

lemma runs_readBytes (hr : r.InBounds cx) (nbytes : ℕ) : Runs (readBytes nbytes) r
    (fun bytes r' => Consumed 0 r r' ∧ bytes.length = nbytes) fun _ _ => True := by
  refine .bind ((runs_readArray hr 1 nbytes).imp ?_ fun _ _ h => h)
  rintro ns r' ⟨hr', hlength, -⟩
  exact .pure ⟨hr', by simp [hlength]⟩

lemma runs_readString (hr : r.InBounds cx) (data : ℕ) : Runs (readString data) r
    (fun _ r' => Consumed 0 r r') fun _ _ => True := by
  refine .ite (fun _ => .throw trivial) fun hle => ?_
  refine .bind ((runs_readArray hr _ _).imp ?_ fun _ _ h => h)
  rintro ns r' ⟨hr', hlength, hlt⟩
  obtain ⟨s, hs⟩ : ∃ s, linearString? (decide (2 ^ 31 ≤ data)) ns = some s := by
    unfold linearString?
    refine ⟨_, dif_pos ⟨?_, fun hlatin1 c hc => ?_⟩⟩
    · rw [List.length_map]
      omega
    · obtain ⟨n, -, rfl⟩ := List.mem_map.1 hc
      rw [if_pos hlatin1, UInt16.toNat_ofNat']
      omega
  rw [hs]
  exact .pure hr'

lemma runs_readBigInt (hr : r.InBounds cx) (data : ℕ) : Runs (readBigInt data) r
    (fun _ r' => Consumed 0 r r') fun _ _ => True := by
  refine .ite (fun _ => .pure (.refl hr)) fun _ => .ite (fun _ => .throw trivial) fun _ => ?_
  refine .bind ((runs_readArray hr 8 _).imp ?_ fun _ _ h => h)
  rintro ns r' ⟨hr', -⟩
  exact .pure hr'

end ReadOp

end SpiderMonkey.StructuredClone
